import Mathlib.Data.List.Forall2

/-!
# Programs that may fail

`Except ε` with the two ways a program gives up in the middle: `rejectIf` returns an error under a
condition, and `okOr` returns one for a missing value. The lemmas say when a program written with
`do` succeeds.
-/

set_option autoImplicit false

namespace Wokcore.Lib.Outcome

universe u

theorem bind_eq_ok {ε α β : Type*} {x : Except ε α} {f : α → Except ε β} {b : β} :
    x.bind f = .ok b ↔ ∃ a, x = .ok a ∧ f a = .ok b := by
  cases x with
  | error e => exact ⟨fun h => (by cases h), fun ⟨_, h, _⟩ => (by cases h)⟩
  | ok a => exact ⟨fun h => ⟨a, rfl, h⟩, fun ⟨_, h, hf⟩ => by cases h; exact hf⟩

variable {ε γ : Type*} {α β : Type u} {a : α} {xs : List γ}

/-- `if condition { return Err(e) }`. -/
def rejectIf (condition : Bool) (e : ε) : Except ε Unit := if condition then .error e else .ok ()

/-- `ok_or(e)`. -/
def okOr (e : ε) : Option α → Except ε α
  | some a => .ok a
  | none => .error e

@[simp] theorem do_eq_ok {x : Except ε α} {f : α → Except ε β} {b : β} :
    (x >>= f) = .ok b ↔ ∃ a, x = .ok a ∧ f a = .ok b := bind_eq_ok

theorem ok_bind (a : α) (f : α → Except ε β) : (Except.ok a >>= f) = f a := rfl

@[simp] theorem pure_eq_ok {b : α} : (pure a : Except ε α) = .ok b ↔ a = b :=
    Except.ok.injEq a b ▸ Iff.rfl

theorem exists_of_isOk {x : Except ε α} (h : x.isOk = true) : ∃ a, x = .ok a := by
  cases x with
  | error e => cases h
  | ok a => exact ⟨a, rfl⟩

theorem rejectIf_eq_ok {condition : Bool} {e : ε} {u : Unit} : rejectIf condition e = .ok u ↔
    condition = false := by
  cases condition <;> simp [rejectIf]

theorem okOr_eq_ok {o : Option α} {e : ε} : okOr e o = .ok a ↔ o = some a := by
  cases o with
  | none => exact ⟨fun h => (by cases h), fun h => (by cases h)⟩
  | some b => simp [okOr]

@[simp] theorem exists_unit {p : Unit → Prop} : (∃ u, p u) ↔ p () :=
    ⟨fun ⟨_, h⟩ => h, fun h => ⟨(), h⟩⟩

/-- What reads a `do` block, for `simp`. -/
theorem do_ok : (∀ {ε α β : Type} {x : Except ε α} {f : α → Except ε β} {b : β},
      (x >>= f) = .ok b ↔ ∃ a, x = .ok a ∧ f a = .ok b) ∧
    (∀ {ε α : Type} {a b : α}, (pure a : Except ε α) = .ok b ↔ a = b) ∧
    ∀ {p : Unit → Prop}, (∃ u, p u) ↔ p () :=
  ⟨do_eq_ok, pure_eq_ok, exists_unit⟩

/-- What reads a `do` block of options, for `simp`. -/
theorem do_some : (∀ {α β : Type} {x : Option α} {f : α → Option β} {b : β},
      (x >>= f) = some b ↔ ∃ a, x = some a ∧ f a = some b) ∧
    ∀ {α : Type} {a b : α}, (pure a : Option α) = some b ↔ a = b :=
  ⟨Option.bind_eq_some_iff, Option.some_inj⟩

theorem forM_eq_ok {f : γ → Except ε PUnit} {u : PUnit} : xs.forM f = .ok u ↔ ∀ x ∈ xs,
    f x = .ok ⟨⟩ := by
  induction xs with
  | nil => exact ⟨fun _ x hx => absurd hx (by simp), fun _ => rfl⟩
  | cons x xs ih =>
    rw [List.forall_mem_cons]
    refine do_eq_ok.trans ?_
    constructor
    · rintro ⟨a, hx, hxs⟩
      exact ⟨hx, ih.mp hxs⟩
    · rintro ⟨hx, hxs⟩
      exact ⟨⟨⟩, hx, ih.mpr hxs⟩

/-- What every turn of a loop keeps, the loop keeps. -/
theorem rel_of_foldlM {R : α → α → Prop} (hrefl : ∀ a, R a a) (htrans : ∀ {a b c}, R a b →
    R b c → R a c) {f : α → γ → Except ε α} (hf : ∀ {a x b}, f a x = .ok b → R a b) {b : α}
    (h : xs.foldlM f a = .ok b) : R a b := by
  induction xs generalizing a with
  | nil =>
    cases h
    exact hrefl _
  | cons x xs ih =>
    rw [List.foldlM_cons] at h
    obtain ⟨c, hx, hxs⟩ := do_eq_ok.mp h
    exact htrans (hf hx) (ih hxs)

theorem map_fst_eq_ok {x : Except ε (α × β)} : x.map Prod.fst = .ok a ↔ ∃ b, x = .ok (a, b) := by
  cases x with
  | error e => exact ⟨fun h => (by cases h), fun ⟨_, h⟩ => (by cases h)⟩
  | ok r =>
    constructor
    · intro h
      cases h
      exact ⟨r.2, rfl⟩
    · rintro ⟨b, h⟩
      cases h
      rfl

/-! ## Lists -/

/-- An entry of a list with one more is an old one or the new one. -/
theorem of_getElem?_concat {α : Type*} {l : List α} {x y : α} {k : Nat}
    (h : (l ++ [x])[k]? = some y) :
    l[k]? = some y ∨ k = l.length ∧ y = x := by
  rcases Nat.lt_or_ge k l.length with hlt | hge
  · rw [List.getElem?_append_left hlt] at h
    exact .inl h
  · rw [List.getElem?_append_right hge, List.getElem?_singleton] at h
    split at h
    next hlast =>
      cases h
      exact .inr ⟨by omega, rfl⟩
    · cases h

theorem mapM_eq_some {α β : Type*} {f : α → Option β} {as : List α} {bs : List β} :
    as.mapM f = some bs ↔ List.Forall₂ (fun a b => f a = some b) as bs := by
  induction as generalizing bs with
  | nil => simp [eq_comm]
  | cons a as ih =>
    simp only [List.mapM_cons, Option.bind_eq_bind, Option.bind_eq_some_iff, Option.pure_def,
      Option.some.injEq, List.forall₂_cons_left_iff, ← ih]
    constructor
    · rintro ⟨b, hb, bs', hbs, rfl⟩
      exact ⟨b, bs', hb, hbs, rfl⟩
    · rintro ⟨b, bs', hb, hbs, rfl⟩
      exact ⟨b, hb, bs', hbs, rfl⟩

theorem mapM_eq_ok {f : γ → Except ε α} {ys : List α} :
    xs.mapM f = .ok ys ↔ List.Forall₂ (fun x y => f x = .ok y) xs ys := by
  induction xs generalizing ys with
  | nil =>
    rw [List.mapM_nil, pure_eq_ok, List.forall₂_nil_left_iff, eq_comm]
  | cons x xs ih =>
    simp only [List.mapM_cons, do_eq_ok, pure_eq_ok, List.forall₂_cons_left_iff, ← ih]
    constructor
    · rintro ⟨y, hy, ys', hys, rfl⟩
      exact ⟨y, ys', hy, hys, rfl⟩
    · rintro ⟨y, ys', hy, hys, rfl⟩
      exact ⟨y, hy, ys', hys, rfl⟩

theorem mapM_eq_ok_map {f : γ → Except ε α} {g : γ → α} (h : ∀ x ∈ xs, f x = .ok (g x)) :
    xs.mapM f = .ok (xs.map g) := by
  rw [mapM_eq_ok, List.forall₂_map_right_iff, List.forall₂_same]
  exact h

theorem of_mem_right {α β : Type*} {R : α → β → Prop} {as : List α} {bs : List β} {b : β}
    (h : List.Forall₂ R as bs) (hb : b ∈ bs) : ∃ a ∈ as, R a b := by
  induction h with
  | nil => cases hb
  | cons hR _ ih =>
    rcases List.mem_cons.mp hb with rfl | hb
    · exact ⟨_, List.mem_cons_self, hR⟩
    · obtain ⟨a, ha, hab⟩ := ih hb
      exact ⟨a, List.mem_cons_of_mem _ ha, hab⟩

end Wokcore.Lib.Outcome
