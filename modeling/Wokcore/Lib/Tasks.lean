import Mathlib.Algebra.BigOperators.Group.List.Basic
import Mathlib.Algebra.Group.Pi.Basic
import Mathlib.Algebra.Group.Prod
import Wokcore.Lib.Run

/-!
# Tasks over one shared memory

Any number of sequential tasks run over one memory, and between two of them only the atomic steps
count: `next k m t` is the step of a task in state `t`, where `k` is whatever decides it from
outside (a clock, a timer, which branch of a choice is ready), and `none` says that the task cannot
move. A `TaskPool` is the memory with the tasks started so far, and a move starts a task or lets one
of them take its next step.

`Outline` is the proof rule for such a pool. There is one assertion about the memory, one about the
memory and the state of a task, and every step has to keep its own assertion and the assertions of
the others. Both kinds may also speak of a *tally*, the sum of a weight over all tasks, so that a
counter in memory can be compared with what the tasks hold. The interference obligation comes with
the weights of both tasks in the tally, which is what excludes a second holder of a lock.
-/

set_option autoImplicit false

namespace Wokcore.Lib

open List

/-- A memory and the tasks that run over it. -/
structure TaskPool (μ τ : Type*) where
  memory : μ
  tasks : List τ

inductive TaskMove (γ κ : Type*) where
  /-- A task starts. -/
  | call (c : γ)
  /-- Task number `i` takes its next step. -/
  | advance (i : Nat) (k : κ)

variable {μ τ γ κ : Type*}

def taskStep (start : γ → τ) (next : κ → μ → τ → Option (μ × τ)) (p : TaskPool μ τ) :
    TaskMove γ κ → Option (TaskPool μ τ)
  | .call c => some ⟨p.memory, p.tasks ++ [start c]⟩
  | .advance i k =>
      match p.tasks[i]? with
      | none => none
      | some t =>
          match next k p.memory t with
          | none => none
          | some (m, t) => some ⟨m, p.tasks.set i t⟩

theorem taskStep_advance_eq_some {start : γ → τ} {next : κ → μ → τ → Option (μ × τ)}
    {p q : TaskPool μ τ} {i : Nat} {k : κ} :
    taskStep start next p (.advance i k) = some q ↔
      ∃ t m u, p.tasks[i]? = some t ∧ next k p.memory t = some (m, u) ∧
      q = ⟨m, p.tasks.set i u⟩ := by
  rw [taskStep]
  cases p.tasks[i]? with
  | none => simp
  | some t =>
    cases hnext : next k p.memory t with
    | none => simp [hnext]
    | some r =>
      obtain ⟨m, u⟩ := r
      simp [hnext, eq_comm]

/-- A list with one entry replaced: what stands before it and after it is the same. -/
theorem exists_split_set {l : List τ} {i : Nat} {t : τ} (h : l[i]? = some t) (u : τ) :
    ∃ before after, l = before ++ t :: after ∧ l.set i u = before ++ u :: after := by
  obtain ⟨hi, rfl⟩ := List.getElem?_eq_some_iff.mp h
  obtain ⟨before, after, hl, -, hset⟩ := @exists_of_set _ i u l hi
  exact ⟨before, after, hl, hset⟩

section Tally

variable {A : Type*} [AddCommMonoid A]

/-- The sum of a weight over the tasks. -/
def tally (weight : τ → A) (tasks : List τ) : A := (tasks.map weight).sum

theorem tally_split (weight : τ → A) (before after : List τ) (t : τ) :
    tally weight (before ++ t :: after) = weight t + tally weight (before ++ after) := by
  simp only [tally, map_append, map_cons, sum_append, sum_cons]
  exact add_left_comm _ _ _

theorem snd_tally {B : Type*} [AddCommMonoid B] (weight : τ → A × B) (tasks : List τ) :
    (tally weight tasks).2 = tally (fun t => (weight t).2) tasks := by
  induction tasks with
  | nil => rfl
  | cons t rest ih =>
    rw [tally, map_cons, sum_cons, Prod.snd_add]
    exact congrArg (fun b => (weight t).2 + b) ih

/-- How many of the tasks play each role, as a tally. -/
theorem tally_apply {ι : Type*} (plays : τ → ι → Bool) (tasks : List τ) (role : ι) :
    tally (fun t role => (plays t role).toNat) tasks role = tasks.countP fun t => plays t role := by
  induction tasks with
  | nil => rfl
  | cons t rest ih =>
    rw [show t :: rest = [] ++ t :: rest from rfl, tally_split, Pi.add_apply, nil_append, ih,
      nil_append, countP_cons, add_comm]
    cases plays t role <;> rfl

/-- **A proof outline.** `I` is about the memory and the tally, `L` also about the state of one
    task. -/
structure Outline (start : γ → τ) (next : κ → μ → τ → Option (μ × τ)) (weight : τ → A)
    (I : μ → A → Prop) (L : μ → A → τ → Prop) : Prop where
  weightless : ∀ c, weight (start c) = 0
  call : ∀ m n c, I m n → L m n (start c)
  own : ∀ k m t rest m' t', I m (weight t + rest) → L m (weight t + rest) t →
    next k m t = some (m', t') → I m' (weight t' + rest) ∧ L m' (weight t' + rest) t'
  other : ∀ k m t u rest m' t', I m (weight t + (weight u + rest)) →
    L m (weight t + (weight u + rest)) t → L m (weight t + (weight u + rest)) u →
    next k m t = some (m', t') → L m' (weight t' + (weight u + rest)) u

/-- All assertions of an outline hold. -/
def Asserted (weight : τ → A) (I : μ → A → Prop) (L : μ → A → τ → Prop) (p : TaskPool μ τ) : Prop :=
  I p.memory (tally weight p.tasks) ∧ ∀ t ∈ p.tasks, L p.memory (tally weight p.tasks) t

variable {start : γ → τ} {next : κ → μ → τ → Option (μ × τ)} {weight : τ → A}
  {I : μ → A → Prop} {L : μ → A → τ → Prop}

theorem Outline.step (h : Outline start next weight I L) (p : TaskPool μ τ) (a : TaskMove γ κ)
    (q : TaskPool μ τ) (hp : Asserted weight I L p) (hstep : taskStep start next p a = some q) :
    Asserted weight I L q := by
  cases a with
  | call c =>
    cases hstep
    have hsame : tally weight (p.tasks ++ [start c]) = tally weight p.tasks := by
      rw [tally_split, h.weightless, zero_add, append_nil]
    refine ⟨by rw [hsame]; exact hp.1, ?_⟩
    intro t ht
    rw [hsame]
    rcases mem_append.mp ht with hold | hnew
    · exact hp.2 t hold
    · rw [mem_singleton.mp hnew]
      exact h.call _ _ c hp.1
  | advance i k =>
    obtain ⟨t, m, t', ht, hnext, rfl⟩ := taskStep_advance_eq_some.mp hstep
    obtain ⟨before, after, hl, hset⟩ := exists_split_set ht t'
    obtain ⟨hI, hL⟩ := hp
    rw [hl, tally_split] at hI hL
    have hLt := hL t (by simp)
    rw [Asserted, hset, tally_split]
    have hown := h.own k _ t _ m t' hI hLt hnext
    refine ⟨hown.1, ?_⟩
    intro u hu
    rw [mem_append, mem_cons, or_left_comm] at hu
    rcases hu with rfl | hu
    · exact hown.2
    -- the other task stands somewhere in what the step left alone
    · rw [← mem_append] at hu
      obtain ⟨b, c, hbc⟩ := append_of_mem hu
      have hLu := hL u (by rw [mem_append, mem_cons, or_left_comm, ← mem_append]; exact .inr hu)
      rw [hbc, tally_split] at hI hLt hLu ⊢
      exact h.other k _ t u _ m t' hI hLt hLu hnext

end Tally

end Wokcore.Lib
