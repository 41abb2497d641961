import Mathlib.Data.List.Flatten
import Wokcore.Lib.Outcome

/-!
# Machines that are fed

An incremental reader takes its input in pieces. It is a step function that may fail and that gives
out a list at every step: `step : σ → α → Except ε (σ × List β)`. `feed step s as` runs it over a
whole input and gathers what it gives out.

* `feed_append` cuts a run in two, so that the result does not depend on how an input is cut.
* `feed_invariant` is the induction rule: what one step preserves, a run preserves. `feed_any` is
  the rule for a flag.
* `feed_of_foldlM` is for machines written as a loop that appends to one list.
* `feed_cut_iff` is for readers that take their input in chunks and can close: cutting the input
  makes no difference exactly if nothing is read after it has closed.
-/

set_option autoImplicit false

namespace Wokcore.Lib

open List

/-! ## Feeding one machine -/

section Feed

variable {σ α β ε : Type*} {step : σ → α → Except ε (σ × List β)} {as : List α} {s t : σ}
    {out : List β}

/-- The run of a machine over an input: where it ends and all it gave out. -/
def feed (step : σ → α → Except ε (σ × List β)) : σ → List α → Except ε (σ × List β)
  | s, [] => .ok (s, [])
  | s, a :: as => (step s a).bind fun r => (feed step r.1 as).map fun q => (q.1, r.2 ++ q.2)

@[simp] theorem feed_nil (s : σ) : feed step s [] = .ok (s, []) := rfl

theorem feed_cons_eq_ok {a : α} : feed step s (a :: as) = .ok (t, out) ↔
      ∃ u o p, step s a = .ok (u, o) ∧ feed step u as = .ok (t, p) ∧ out = o ++ p := by
  rw [feed, Outcome.bind_eq_ok]
  constructor
  · rintro ⟨⟨u, o⟩, hs, h⟩
    cases hf : feed step u as with
    | error e => rw [hf] at h; cases h
    | ok q =>
      rw [hf] at h
      cases h
      exact ⟨u, o, q.2, hs, hf, rfl⟩
  · rintro ⟨u, o, p, hs, hf, rfl⟩
    exact ⟨(u, o), hs, by rw [hf]; rfl⟩

@[simp] theorem feed_singleton (s : σ) (a : α) : feed step s [a] = step s a := by
  rw [feed]
  cases step s a with
  | error e => rfl
  | ok r => exact congrArg (fun o => Except.ok (r.1, o)) (append_nil r.2)

/-- **A run can be cut anywhere.** -/
theorem feed_append {bs : List α} : feed step s (as ++ bs) = .ok (t, out) ↔
      ∃ u o p, feed step s as = .ok (u, o) ∧ feed step u bs = .ok (t, p) ∧ out = o ++ p := by
  induction as generalizing s out with
  | nil =>
    constructor
    · intro h
      exact ⟨s, [], out, rfl, h, rfl⟩
    · rintro ⟨u, o, p, ho, hp, rfl⟩
      cases ho
      exact hp
  | cons a as ih =>
    rw [cons_append, feed_cons_eq_ok]
    constructor
    · rintro ⟨v, o, q, hs, hf, rfl⟩
      obtain ⟨u, o', p, h₁, h₂, rfl⟩ := ih.mp hf
      exact ⟨u, o ++ o', p, feed_cons_eq_ok.mpr ⟨v, o, o', hs, h₁, rfl⟩, h₂,
        (append_assoc o o' p).symm⟩
    · rintro ⟨u, o, p, h₁, h₂, rfl⟩
      obtain ⟨v, o', q, hs, hf, rfl⟩ := feed_cons_eq_ok.mp h₁
      exact ⟨v, o', q ++ p, hs, ih.mpr ⟨u, q, p, hf, h₂, rfl⟩, append_assoc o' q p⟩

/-- The rest of a run whose first part gave out nothing. -/
theorem feed_append_of_silent {u : σ} (h : feed step s as = .ok (u, [])) (bs : List α) :
    feed step s (as ++ bs) = feed step u bs := by
  induction as generalizing s with
  | nil =>
    cases h
    rfl
  | cons a as ih =>
    obtain ⟨v, o, p, ha, hf, hout⟩ := feed_cons_eq_ok.mp h
    obtain ⟨rfl, rfl⟩ := append_eq_nil_iff.mp hout.symm
    rw [cons_append, feed, ha]
    show (feed step v (as ++ bs)).map _ = _
    rw [ih hf]
    cases feed step u bs with
    | error | ok => rfl

/-- **The invariant rule.** What one step preserves, a whole run preserves. -/
theorem feed_invariant {I : σ → Prop} (hstep : ∀ s a t o, I s → step s a = .ok (t, o) → I t)
    (hs : I s) (h : feed step s as = .ok (t, out)) : I t := by
  induction as generalizing s out with
  | nil => cases h; exact hs
  | cons a as ih =>
    obtain ⟨u, o, p, ha, hf, -⟩ := feed_cons_eq_ok.mp h
    exact ih (hstep s a u o hs ha) hf

/-- A flag that a step sets if its input says so. -/
theorem feed_any (flag : σ → Bool) {p : α → Bool}
    (hstep : ∀ {s a t o}, step s a = .ok (t, o) → flag t = (flag s || p a))
    (h : feed step s as = .ok (t, out)) : flag t = (flag s || as.any p) := by
  induction as generalizing s out with
  | nil =>
    cases h
    exact (Bool.or_false _).symm
  | cons a as ih =>
    obtain ⟨u, o, p, ha, hf, -⟩ := feed_cons_eq_ok.mp h
    rw [any_cons, ← Bool.or_assoc, ← hstep ha]
    exact ih hf

end Feed

/-! ## Loops that append -/

section Accumulate

variable {σ α β ε : Type} {f : σ × List β → α → Except ε (σ × List β)} {s t : σ} {acc r : List β}

/-- A computation that appends to a list: with less before it, it appends the same. -/
def Growing {γ : Type} (g : List β → Except ε (γ × List β)) : Prop :=
  ∀ acc more c r, g (acc ++ more) = .ok (c, r) →
    ∃ out, r = acc ++ more ++ out ∧ g more = .ok (c, more ++ out)

/-- The same for a computation that has nothing but the list. -/
def Grows (g : List β → Except ε (List β)) : Prop :=
  ∀ acc more r, g (acc ++ more) = .ok r → ∃ out, r = acc ++ more ++ out ∧ g more = .ok (more ++ out)

/-- A loop each step of which appends to what was given out before. -/
def Appending (f : σ × List β → α → Except ε (σ × List β)) : Prop := ∀ s a, Growing fun acc =>
    f (s, acc) a

namespace Growing

variable {γ δ : Type}

theorem fails (e : ε) : Growing fun _ : List β => (.error e : Except ε (γ × List β)) :=
  fun _ _ _ _ h => nomatch h

theorem appends (c : γ) (out : List β) :
    Growing fun acc => (.ok (c, acc ++ out) : Except ε (γ × List β)) := by
  intro acc more c' r h
  cases h
  exact ⟨out, rfl, rfl⟩

theorem silent (c : γ) : Growing fun acc : List β => (.ok (c, acc) : Except ε (γ × List β)) := by
  intro acc more c' r h
  cases h
  exact ⟨[], (append_nil _).symm, by rw [append_nil]⟩

theorem after {x : Except ε δ} {g : δ → List β → Except ε (γ × List β)} (h : ∀ c, Growing (g c)) :
    Growing fun acc => x >>= fun c => g c acc := by
  cases x with
  | error e => exact fails e
  | ok c => exact h c

/-- A list-valued computation that appends, as part of one with a state. -/
theorem returning {g : List β → Except ε (List β)} (hg : Grows g) (c : γ) :
    Growing fun acc => g acc >>= fun r => (pure (c, r) : Except ε (γ × List β)) := by
  intro acc more c' r h
  obtain ⟨r', hr', h⟩ := Outcome.bind_eq_ok.mp h
  cases h
  obtain ⟨out, rfl, ho⟩ := hg acc more _ hr'
  exact ⟨out, rfl, Outcome.bind_eq_ok.mpr ⟨more ++ out, ho, rfl⟩⟩

end Growing

theorem Grows.after {γ : Type} {x : Except ε γ} {g : γ → List β → Except ε (List β)}
    (h : ∀ c, Grows (g c)) :
    Grows fun acc => x >>= fun c => g c acc := by
  cases x with
  | error e => exact fun _ _ _ hr => nomatch hr
  | ok c => exact h c

/-- The machine a loop runs. -/
def stepOf (f : σ × List β → α → Except ε (σ × List β)) (s : σ) (a : α) : Except ε (σ × List β) :=
    f (s, []) a

theorem Appending.step (hf : Appending f) {a : α} (h : f (s, acc) a = .ok (t, r)) :
    ∃ out, r = acc ++ out ∧ stepOf f s a = .ok (t, out) := by
  rw [← append_nil acc] at h
  obtain ⟨out, rfl, ho⟩ := hf s a acc [] t r h
  exact ⟨out, by rw [append_nil], ho⟩

/-- A whole loop appends as its steps do. -/
theorem Appending.foldlM (hf : Appending f) (as : List α) :
    ∀ s acc more t r, as.foldlM f (s, acc ++ more) = .ok (t, r) →
      ∃ out, r = acc ++ more ++ out ∧ as.foldlM f (s, more) = .ok (t, more ++ out) := by
  induction as with
  | nil =>
    intro s acc more t r h
    cases h
    exact ⟨[], (append_nil _).symm, by rw [append_nil]; rfl⟩
  | cons a as ih =>
    intro s acc more t r h
    rw [foldlM_cons] at h
    obtain ⟨⟨u, mid⟩, ha, hrest⟩ := Outcome.bind_eq_ok.mp h
    obtain ⟨o, rfl, ho⟩ := hf s a acc more u mid ha
    rw [append_assoc] at hrest
    obtain ⟨p, rfl, hp⟩ := ih u acc (more ++ o) t r hrest
    refine ⟨o ++ p, by simp only [append_assoc], ?_⟩
    rw [foldlM_cons, ← append_assoc]
    exact Outcome.bind_eq_ok.mpr ⟨(u, more ++ o), ho, hp⟩

/-- **A loop, step by step.** -/
theorem feed_of_foldlM (hf : Appending f) {as : List α} (h : as.foldlM f (s, acc) = .ok (t, r)) :
    ∃ out, r = acc ++ out ∧ feed (stepOf f) s as = .ok (t, out) := by
  induction as generalizing s acc with
  | nil =>
    cases h
    exact ⟨[], (append_nil _).symm, rfl⟩
  | cons a as ih =>
    rw [foldlM_cons] at h
    obtain ⟨⟨u, mid⟩, ha, hrest⟩ := Outcome.bind_eq_ok.mp h
    obtain ⟨o, rfl, ho⟩ := hf.step ha
    obtain ⟨p, rfl, hp⟩ := ih hrest
    exact ⟨o ++ p, append_assoc acc o p, feed_cons_eq_ok.mpr ⟨u, o, p, ho, hp, rfl⟩⟩

/-- A loop over two lists is a loop over the first and a loop of its own over the second. -/
theorem Appending.foldlM_append (hf : Appending f) {as bs : List α}
    (h : (as ++ bs).foldlM f (s, []) = .ok (t, r)) :
    ∃ u o p, as.foldlM f (s, []) = .ok (u, o) ∧ bs.foldlM f (u, []) = .ok (t, p) ∧ r = o ++ p := by
  rw [List.foldlM_append] at h
  obtain ⟨⟨u, o⟩, ho, hrest⟩ := Outcome.bind_eq_ok.mp h
  rw [← List.append_nil o] at hrest
  obtain ⟨p, rfl, hp⟩ := hf.foldlM bs u o [] t r hrest
  exact ⟨u, o, p, ho, hp, by rw [List.append_nil]⟩

end Accumulate

/-! ## Readers that close -/

section Closing

variable {σ α β ε : Type*} {push : σ → List α → Except ε (σ × List β)} {closed : σ → Bool}
    {chunks : List (List α)}

/-- A reader of chunks that refuses to read once it has closed, and that otherwise reads a chunk as
    it would read its two parts one after the other. -/
structure Cuttable (push : σ → List α → Except ε (σ × List β)) (closed : σ → Bool) : Prop where
  opened : ∀ {s a r}, push s a = .ok r → closed s = false
  split : ∀ {s t a b out}, push s (a ++ b) = .ok (t, out) →
    ∃ u o p, push s a = .ok (u, o) ∧ out = o ++ p ∧ (closed u = false → push u b = .ok (t, p))

/-- Chunks that are all read leave the reader where one chunk of all of them does. -/
theorem Cuttable.unique (hcut : Cuttable push closed) {s t u : σ} {o p : List β} (hne : chunks ≠ [])
    (hall : feed push s chunks = .ok (t, o)) (hone : push s chunks.flatten = .ok (u, p)) :
    t = u ∧ o = p := by
  induction chunks generalizing s o p with
  | nil => exact absurd rfl hne
  | cons c cs ih =>
    by_cases hlast : cs = []
    · subst hlast
      rw [feed_singleton] at hall
      rw [flatten_singleton, hall] at hone
      cases hone
      exact ⟨rfl, rfl⟩
    · obtain ⟨v, q, q', hc, hrest, rfl⟩ := feed_cons_eq_ok.mp hall
      obtain ⟨v', w, w', hc', rfl, hopen⟩ := hcut.split hone
      rw [hc] at hc'
      cases hc'
      have hv : closed v = false := by
        obtain ⟨c', cs', rfl⟩ := exists_cons_of_ne_nil hlast
        obtain ⟨_, _, _, hnext, -, -⟩ := feed_cons_eq_ok.mp hrest
        exact hcut.opened hnext
      obtain ⟨rfl, rfl⟩ := ih hlast hrest (hopen hv)
      exact ⟨rfl, rfl⟩

/-- **Cutting an input.** An input that is read in one chunk is read the same way in pieces exactly
    if the reader has not closed before the last piece. -/
theorem feed_cut_iff (hcut : Cuttable push closed) {s t : σ} {out : List β} (hne : chunks ≠ [])
    (h : push s chunks.flatten = .ok (t, out)) :
    feed push s chunks = .ok (t, out) ↔
      ∀ before chunk after, chunks = before ++ chunk :: after → before ≠ [] →
        ∀ u o, push s before.flatten = .ok (u, o) → closed u = false := by
  constructor
  · rintro hall before chunk after rfl hbefore u o hu
    obtain ⟨v, q, q', hv, hrest, -⟩ := feed_append.mp hall
    obtain ⟨rfl, -⟩ := hcut.unique hbefore hv hu
    obtain ⟨_, _, _, hnext, -, -⟩ := feed_cons_eq_ok.mp hrest
    exact hcut.opened hnext
  · intro hopen
    induction chunks generalizing s out with
    | nil => exact absurd rfl hne
    | cons c cs ih =>
      by_cases hlast : cs = []
      · subst hlast
        rwa [feed_singleton, ← flatten_singleton (l := c)]
      · obtain ⟨u, o, p, hc, rfl, hrest⟩ := hcut.split h
        obtain ⟨c', cs', rfl⟩ := exists_cons_of_ne_nil hlast
        have hu : closed u = false :=
          hopen [c] c' cs' rfl (by simp) u o (by rwa [flatten_singleton])
        refine feed_cons_eq_ok.mpr ⟨u, o, p, hc, ih (by simp) (hrest hu) ?_, rfl⟩
        intro before chunk after hsplit hbefore v q hv
        -- the reader after `c` and `before` is the reader after `before`, started where `c` left it
        have hwhole : push s ((c ++ before.flatten) ++ (chunk :: after).flatten) =
            .ok (t, o ++ p) := by
          rw [append_assoc, ← flatten_append, ← hsplit]
          exact h
        obtain ⟨w, q', -, hw, -, -⟩ := hcut.split hwhole
        obtain ⟨u', o', p', hc', -, hmore⟩ := hcut.split hw
        rw [hc] at hc'
        cases hc'
        rw [hv] at hmore
        cases hmore hu
        exact hopen (c :: before) chunk after (by rw [hsplit]; rfl) (by simp) v q' hw

end Closing

end Wokcore.Lib
