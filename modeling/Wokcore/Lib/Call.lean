import Wokcore.Lib.Feed

/-!
# Calls on an object that may fail

A method that takes its object by mutable reference and may return an error is a program that keeps
the state it has reached when it fails. `EStateM` is that monad. `bind_eq_ok` and its companions say
when a program written with `do` succeeds, and `stepOfCall` turns a method into a step of a machine,
so that a run in which every call succeeds is a `feed`. A run that goes on after errors is
`attempts`; for such a run it matters what a call that fails leaves behind (`ErrorsIn`).
-/

set_option autoImplicit false

namespace Wokcore.Lib

/-- A method of an object of type `σ`. -/
abbrev Call (ε σ α : Type) := EStateM ε σ α

namespace Call

variable {ε σ α β : Type} {x : Call ε σ α} {f : α → Call ε σ β} {s t u : σ}
  {method : α → Call ε σ (List β)} {a : α} {as : List α}

/-- A computation that does not touch the object. -/
def lift (x : Except ε α) : Call ε σ α := fun s =>
  match x with
  | .ok a => .ok a s
  | .error e => .error e s

@[simp] theorem bind_eq_ok {b : β} : (x >>= f) s = .ok b u ↔ ∃ a t, x s = .ok a t ∧
    f a t = .ok b u := by
  show EStateM.bind x f s = .ok b u ↔ _
  unfold EStateM.bind
  cases hx : x s with
  | ok a t =>
    constructor
    · intro h
      exact ⟨a, t, rfl, h⟩
    · rintro ⟨a', t', h, hf⟩
      cases h
      exact hf
  | error e t =>
    constructor
    · intro h
      cases h
    · rintro ⟨a', t', h, -⟩
      cases h

theorem bind_of_ok (h : x s = .ok a t) : (x >>= f) s = f a t := by
  show EStateM.bind x f s = _
  rw [EStateM.bind, h]

theorem bind_of_error {e : ε} (h : x s = .error e t) : (x >>= f) s = .error e t := by
  show EStateM.bind x f s = _
  rw [EStateM.bind, h]

@[simp] theorem pure_eq_ok {b : α} : (pure a : Call ε σ α) s = .ok b t ↔ a = b ∧ s = t := by
  show EStateM.Result.ok a s = .ok b t ↔ _
  rw [EStateM.Result.ok.injEq]

@[simp] theorem map_eq_ok {f : α → β} {b : β} : (f <$> x) s = .ok b u ↔ ∃ a, f a = b ∧
    x s = .ok a u := by
  simp only [map_eq_pure_bind, bind_eq_ok, pure_eq_ok, exists_eq_right_right]
  exact exists_congr fun _ => and_comm

@[simp] theorem get_eq_ok : (get : Call ε σ σ) s = .ok t u ↔ s = t ∧ s = u := by
  show EStateM.Result.ok s s = .ok t u ↔ _
  rw [EStateM.Result.ok.injEq]

@[simp] theorem set_eq_ok {x : PUnit} : (set t : Call ε σ PUnit) s = .ok x u ↔ t = u := by
  show EStateM.Result.ok PUnit.unit t = .ok x u ↔ _
  rw [EStateM.Result.ok.injEq]
  exact ⟨fun h => h.2, fun h => ⟨rfl, h⟩⟩

@[simp] theorem lift_eq_ok {x : Except ε α} : (lift x : Call ε σ α) s = .ok a t ↔ x = .ok a ∧
    s = t := by
  cases x with
  | ok b =>
    show EStateM.Result.ok b s = .ok a t ↔ _
    rw [EStateM.Result.ok.injEq, Except.ok.injEq]
  | error e => exact ⟨fun h => (nomatch h), fun h => (nomatch h.1)⟩

/-! ## What a failed call leaves behind -/

/-- If the call fails, it leaves an object that meets `Q`. -/
def ErrorsIn (Q : σ → Prop) (x : Call ε σ α) (s : σ) : Prop := ∀ e t, x s = .error e t → Q t

section Errors

variable {Q : σ → Prop} {s : σ}

theorem ErrorsIn.bind (hx : ErrorsIn Q x s)
    (hf : ∀ a t, x s = .ok a t → ErrorsIn Q (f a) t) : ErrorsIn Q (x >>= f) s := by
  intro e u h
  cases hrun : x s with
  | ok a t =>
    rw [bind_of_ok hrun] at h
    exact hf a t hrun e u h
  | error e' t =>
    rw [bind_of_error hrun] at h
    cases h
    exact hx _ _ hrun

theorem ErrorsIn.of_ok (h : ∃ a t, x s = .ok a t) : ErrorsIn Q x s := by
  obtain ⟨a, t, h⟩ := h
  intro e u herror
  rw [h] at herror
  cases herror

theorem ErrorsIn.get {f : σ → Call ε σ β} (h : ErrorsIn Q (f s) s) : ErrorsIn Q (get >>= f) s := by
  refine .bind (.of_ok ⟨_, _, rfl⟩) ?_
  intro a t hrun
  obtain ⟨rfl, rfl⟩ := get_eq_ok.mp hrun
  exact h

theorem ErrorsIn.lift {x : Except ε α} (hs : Q s)
    (h : ∀ a, x = .ok a → ErrorsIn Q (f a) s) : ErrorsIn Q (Call.lift x >>= f) s := by
  refine .bind ?_ ?_
  · intro e t herror
    cases x with
    | ok a => cases herror
    | error e' =>
      cases herror
      exact hs
  · intro a t hrun
    obtain ⟨hx, rfl⟩ := lift_eq_ok.mp hrun
    exact h a hx

end Errors

/-! ## Runs -/

/-- What a call returns, and nothing of the object if it fails. -/
def outcome (x : Call ε σ α) (s : σ) : Except ε (σ × α) :=
  match x s with
  | .ok a t => .ok (t, a)
  | .error e _ => .error e

theorem outcome_eq_ok : x.outcome s = .ok (t, a) ↔ x s = .ok a t := by
  unfold outcome
  cases x s with
  | ok b u => simp [and_comm]
  | error e u => simp

/-- A method as a step of a machine that stops at the first error. -/
def stepOfCall (method : α → Call ε σ (List β)) (s : σ) (a : α) : Except ε (σ × List β) :=
  (method a).outcome s

/-- A run of calls that stops at the first error, with all that they returned. -/
def runAll (method : α → Call ε σ (List β)) (s : σ) (as : List α) : Except ε (σ × List β) :=
  feed (stepOfCall method) s as

theorem runAll_eq_ok_iff_of_flatMap {γ : Type} {method' : α → Call ε σ (List γ)} {f : β → List γ}
    (h : ∀ {a s t out}, method' a s = .ok out t ↔ ∃ o, method a s = .ok o t ∧ o.flatMap f = out)
    {out : List γ} :
    runAll method' s as = .ok (t, out) ↔ ∃ o, runAll method s as = .ok (t, o) ∧
    o.flatMap f = out := by
  have hstep : ∀ {a s t out}, stepOfCall method' s a = .ok (t, out) ↔
      ∃ o, stepOfCall method s a = .ok (t, o) ∧ o.flatMap f = out := by
    intro a s t out
    simp only [stepOfCall, outcome_eq_ok, h]
  unfold runAll
  induction as generalizing s out with
  | nil =>
    simp only [feed_nil, Except.ok.injEq, Prod.mk.injEq]
    constructor
    · rintro ⟨rfl, rfl⟩
      exact ⟨[], ⟨rfl, rfl⟩, rfl⟩
    · rintro ⟨o, ⟨rfl, rfl⟩, rfl⟩
      exact ⟨rfl, rfl⟩
  | cons a as ih =>
    simp only [feed_cons_eq_ok, hstep, ih]
    constructor
    · rintro ⟨u, _, _, ⟨o, ho, rfl⟩, ⟨p, hp, rfl⟩, rfl⟩
      exact ⟨o ++ p, ⟨u, o, p, ho, hp, rfl⟩, List.flatMap_append⟩
    · rintro ⟨_, ⟨u, o, p, ho, hp, rfl⟩, rfl⟩
      exact ⟨u, _, _, ⟨o, ho, rfl⟩, ⟨p, hp, rfl⟩, List.flatMap_append⟩

/-- What the calls of a run returned, and nothing if one of them failed. -/
def returned (method : α → Call ε σ (List β)) (s : σ) (as : List α) : List β :=
  match runAll method s as with
  | .ok (_, out) => out
  | .error _ => []

theorem returned_of_runAll {out : List β} (h : runAll method s as = .ok (t, out)) :
    returned method s as = out := by
  rw [returned, h]

/-- A call, and what it returned if it succeeded. -/
def attempt (method : α → Call ε σ (List β)) (s : σ) (a : α) : σ × List β :=
  match method a s with
  | .ok out t => (t, out)
  | .error _ t => (t, [])

/-- A run of calls that goes on after errors, with all that they returned. -/
def attempts (method : α → Call ε σ (List β)) (s : σ) (as : List α) : σ × List β :=
  as.foldl (fun r a => ((attempt method r.1 a).1, r.2 ++ (attempt method r.1 a).2)) (s, [])

/-- **The rule of invariants**, of the object and all that was returned. -/
theorem attempts_invariant {I : σ → List β → Prop}
    (hok : ∀ {a s t out o}, I s out → method a s = .ok o t → I t (out ++ o))
    (herror : ∀ {a s t out e}, I s out → method a s = .error e t → I t out) (hs : I s [])
    (as : List α) :
    I (attempts method s as).1 (attempts method s as).2 := by
  unfold attempts
  refine List.foldlRecOn (motive := fun r : σ × List β => I r.1 r.2) as _ hs ?_
  intro r hr a _
  unfold attempt
  cases hrun : method a r.1 with
  | ok o t => exact hok hr hrun
  | error e t =>
    show I t (r.2 ++ [])
    rw [List.append_nil]
    exact herror hr hrun

/-- What a call returns, and the object it leaves. -/
def reply (x : Call ε σ α) (s : σ) : Except ε α × σ :=
  match x s with
  | .ok a t => (.ok a, t)
  | .error e t => (.error e, t)

/-- What each call of a run returns, if the run goes on after errors. -/
def replies (method : α → Call ε σ β) : σ → List α → List (Except ε β)
  | _, [] => []
  | s, a :: as => ((method a).reply s).1 :: replies method ((method a).reply s).2 as

/-- Objects that no call tells apart are not told apart by a run. -/
theorem replies_congr {method : α → Call ε σ β} {R : σ → σ → Prop}
    (h : ∀ {s t} a, R s t → ((method a).reply s).1 = ((method a).reply t).1 ∧
      R ((method a).reply s).2 ((method a).reply t).2) (hR : R s t) (as : List α) :
    replies method s as = replies method t as := by
  induction as generalizing s t with
  | nil => rfl
  | cons a as ih =>
    obtain ⟨hreply, hnext⟩ := h a hR
    rw [replies, replies, hreply, ih hnext]

/-- A method that writes out what another returns does so along a whole run. -/
theorem attempts_flatMap {γ : Type} {method' : α → Call ε σ (List γ)} {f : β → List γ}
    (h : ∀ a, method' a = method a >>= fun o => pure (o.flatMap f)) (s : σ) (as : List α) :
    attempts method' s as = ((attempts method s as).1, (attempts method s as).2.flatMap f) := by
  have hone : ∀ s a, attempt method' s a = ((attempt method s a).1,
      (attempt method s a).2.flatMap f) := by
    intro s a
    unfold attempt
    rw [h]
    show (match EStateM.bind (method a) (fun o => pure (o.flatMap f)) s with
      | .ok out t => (t, out)
      | .error _ t => (t, [])) = _
    unfold EStateM.bind
    cases method a s with
    | ok | error => rfl
  refine @List.foldl_hom _ _ _ (fun q : σ × List β => (q.1, q.2.flatMap f)) _ _ as
    (s, []) fun q a => ?_
  rw [hone, List.flatMap_append]

/-- A call on one kind of object, as a call on a sum of kinds. -/
def within {τ : Type} (make : τ → σ) (x : Call ε τ α) (s : τ) : EStateM.Result ε σ α :=
  match x s with
  | .ok a t => .ok a (make t)
  | .error e t => .error e (make t)

theorem within_eq_ok {τ : Type} {make : τ → σ} {x : Call ε τ α} {s : τ} :
    within make x s = .ok a u ↔ ∃ t, x s = .ok a t ∧ u = make t := by
  unfold within
  cases x s with
  | ok b t => simp [and_comm, eq_comm]
  | error e t => simp

end Call

end Wokcore.Lib
