import Wokcore.Lib.Feed

/-!
# Reading back what a machine gave out

A writer is a machine that takes items and gives out messages; a reader is a loop over messages that
adds to a list of items. Between the two a message is carried, which may change it: `sent w d` says
that `d` arrives where `w` was sent. An echo is what the reader adds for one item of the writer.

`Echo` says what has to be shown for one item: there is an echo, and the reader gets through the
messages of the item exactly if the item is one it takes. `Echo.run` is the induction over all
items.
-/

set_option autoImplicit false

namespace Wokcore.Lib

open List

variable {σ τ α β ω δ ε ε' : Type} {ws : List ω} {sent : ω → δ → Prop} {ds es : List δ}
  {f : τ → δ → Except ε' τ} {bounded : σ → Prop} {as : List α} {t u : τ}

/-- What the reader makes of one item of the writer.

    * `R` relates the writer to the reader between two items;
    * `bounded` is about the size of the writer: if it holds after an item, it held before;
    * `only` are the items the rule is about, `ok` those of them the reader takes;
    * `Q` relates an item to its echo, and may depend on what the writer knows after it;
    * `room` bounds the list the reader adds to. -/
structure Echo (write : σ → α → Except ε (σ × List ω)) (sent : ω → δ → Prop)
    (read : τ × List β → δ → Except ε' (τ × List β)) (R : σ → τ × List β → Prop)
    (bounded : σ → Prop) (only ok : α → Prop) (Q : σ → α → β → Prop) (room : Nat) : Prop where
  step : ∀ {s s' a ws ds q}, R s q → bounded s' → q.2.length < room → only a →
    write s a = .ok (s', ws) → Forall₂ sent ws ds → ∃ t b, R s' (t, q.2 ++ [b]) ∧ Q s' a b ∧
      ∀ r, ds.foldlM read q = .ok r ↔ ok a ∧ r = (t, q.2 ++ [b])
  keep : ∀ {s s' a a' b ws}, Q s a b → write s a' = .ok (s', ws) → Q s' a b
  back : ∀ {s s' a ws}, bounded s' → write s a = .ok (s', ws) → bounded s

theorem feed_back {step : σ → α → Except ε (σ × List ω)}
    (hback : ∀ {s s' a ws}, bounded s' → step s a = .ok (s', ws) → bounded s) {s t : σ}
    (ht : bounded t) (h : feed step s as = .ok (t, ws)) : bounded s := by
  induction as generalizing s ws with
  | nil =>
    cases h
    exact ht
  | cons a as ih =>
    obtain ⟨u, o, p, ha, hrest, -⟩ := feed_cons_eq_ok.mp h
    exact hback (ih hrest) ha

/-- What arrives of two batches of messages. -/
theorem forall₂_append_left {vs : List ω} (h : Forall₂ sent (ws ++ vs) ds) :
    ∃ es fs, ds = es ++ fs ∧ Forall₂ sent ws es ∧ Forall₂ sent vs fs := by
  induction ws generalizing ds with
  | nil => exact ⟨[], ds, rfl, .nil, h⟩
  | cons w ws ih =>
    cases h with
    | cons hw hrest =>
      obtain ⟨es, fs, rfl, hes, hfs⟩ := ih hrest
      exact ⟨_ :: es, fs, rfl, .cons hw hes, hfs⟩

theorem forall₂_singleton_left {w : ω} (h : Forall₂ sent [w] ds) : ∃ d, sent w d ∧ ds = [d] := by
  obtain ⟨d, _, hd, hnil, rfl⟩ := forall₂_cons_left_iff.mp h
  cases hnil
  exact ⟨d, hd, rfl⟩

theorem foldlM_append_eq_ok : (ds ++ es).foldlM f t = .ok u ↔ ∃ v, ds.foldlM f t = .ok v ∧
    es.foldlM f v = .ok u := by
  rw [foldlM_append]
  exact Outcome.bind_eq_ok

/-- Two batches, each of which the reader gets through under a condition. -/
theorem foldlM_append_iff {v : τ} {A B : Prop} (hds : ∀ r, ds.foldlM f t = .ok r ↔ A ∧ r = u)
    (hes : ∀ r, es.foldlM f u = .ok r ↔ B ∧ r = v) (r : τ) : (ds ++ es).foldlM f t = .ok r ↔
      (A ∧ B) ∧ r = v := by
  rw [foldlM_append_eq_ok]
  constructor
  · rintro ⟨m, hm, hr⟩
    obtain ⟨ha, rfl⟩ := (hds m).mp hm
    obtain ⟨hb, rfl⟩ := (hes r).mp hr
    exact ⟨⟨ha, hb⟩, rfl⟩
  · rintro ⟨⟨ha, hb⟩, rfl⟩
    exact ⟨_, (hds _).mpr ⟨ha, rfl⟩, (hes _).mpr ⟨hb, rfl⟩⟩

theorem foldlM_cons_of_ok {d : δ} (h : f t d = .ok u) (ds : List δ) :
    (d :: ds).foldlM f t = ds.foldlM f u := by
  rw [foldlM_cons, h]
  rfl

theorem foldlM_singleton (f : τ → δ → Except ε' τ) (t : τ) (d : δ) : [d].foldlM f t = f t d := by
  rw [foldlM_cons]
  simp only [foldlM_nil, bind_pure]

/-- A loop that gets through gets through each message in it. -/
theorem exists_of_foldlM (h : ds.foldlM f t = .ok u) {d : δ} (hd : d ∈ ds) : ∃ v v',
    f v d = .ok v' := by
  obtain ⟨before, after, rfl⟩ := append_of_mem hd
  obtain ⟨v, -, hrest⟩ := foldlM_append_eq_ok.mp h
  rw [foldlM_cons] at hrest
  obtain ⟨v', hv', -⟩ := Outcome.bind_eq_ok.mp hrest
  exact ⟨v, v', hv'⟩

/-- **A whole run.** The reader gets through all messages exactly if it takes every item, and has
    then added one echo for each. -/
theorem Echo.run {write : σ → α → Except ε (σ × List ω)}
    {read : τ × List β → δ → Except ε' (τ × List β)} {R : σ → τ × List β → Prop}
    {only ok : α → Prop} {Q : σ → α → β → Prop} {room : Nat}
    (h : Echo write sent read R bounded only ok Q room) {s s' : σ} {q : τ × List β} (hR : R s q)
    (hbounded : bounded s') (hroom : q.2.length + as.length ≤ room) (honly : ∀ a ∈ as, only a)
    (hwrite : feed write s as = .ok (s', ws)) (hsent : Forall₂ sent ws ds) :
    ∃ t bs, R s' (t, q.2 ++ bs) ∧ Forall₂ (Q s') as bs ∧
      ∀ r, ds.foldlM read q = .ok r ↔ (∀ a ∈ as, ok a) ∧ r = (t, q.2 ++ bs) := by
  induction as generalizing s ws ds q with
  | nil =>
    cases hwrite
    cases hsent
    refine ⟨q.1, [], by rw [append_nil]; exact hR, .nil, fun r => ?_⟩
    rw [append_nil]
    constructor
    · intro hr
      cases hr
      exact ⟨fun a ha => absurd ha not_mem_nil, rfl⟩
    · rintro ⟨-, rfl⟩
      rfl
  | cons a as ih =>
    obtain ⟨u, o, p, ha, hrest, rfl⟩ := feed_cons_eq_ok.mp hwrite
    obtain ⟨es, fs, rfl, hes, hfs⟩ := forall₂_append_left hsent
    rw [length_cons] at hroom
    obtain ⟨v, b, hRu, hQ, hstep⟩ := h.step hR (feed_back h.back hbounded hrest) (by omega)
      (honly a (by simp)) ha hes
    obtain ⟨t, bs, hRs, hQs, hrun⟩ := ih (q := (v, q.2 ++ [b])) hRu
      (by rw [length_append, length_singleton]; omega) (fun a' ha' => honly a' (by simp [ha']))
      hrest hfs
    -- the echo of `a` stays one while the writer goes on
    have hkept : Q s' a b := feed_invariant (I := (Q · a b)) (fun _ _ _ _ => h.keep) hQ hrest
    refine ⟨t, b :: bs, ?_, .cons hkept hQs, fun r => ?_⟩
    · rw [append_cons]
      exact hRs
    · rw [append_cons, forall_mem_cons]
      exact foldlM_append_iff hstep hrun r

end Wokcore.Lib
