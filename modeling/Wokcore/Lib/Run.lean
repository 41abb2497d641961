import Mathlib.Logic.Basic

/-!
# Runs of a step function

A component is a partial step function `step : σ → α → Option σ`: `none` is an action that is not
enabled. A run is a list of actions, and three things are said of it.

* `run step s as` is the state after the whole run, if every action was enabled.
* `StepsMeet step G s as` says that each action is taken in a state its guard `G` accepts.
* `Along step P s as` says that `P` holds in every state, the first and the last included.

The two rules are the two halves of the inductive-invariant method. `Along.of_stepsMeet` carries an
invariant forward along guarded steps, and `StepsMeet.of_along` reads the guards back off a run
along which a property never fails, when breaking the guard breaks the property.
-/

set_option autoImplicit false

namespace Wokcore.Lib

variable {σ α : Type*} {step : σ → α → Option σ} {P Q I : σ → Prop} {s t : σ} {as : List α}
    {G : σ → α → Prop}

/-- The state after the actions of `as`, or `none` if one of them is not enabled. -/
def run (step : σ → α → Option σ) : σ → List α → Option σ
  | s, [] => some s
  | s, a :: as => (step s a).bind fun t => run step t as

/-- Every action of the run is taken in a state where its guard holds. -/
def StepsMeet (step : σ → α → Option σ) (G : σ → α → Prop) : σ → List α → Prop
  | _, [] => True
  | s, a :: as => G s a ∧ ∀ t, step s a = some t → StepsMeet step G t as

/-- `P` holds in every state the run passes through. -/
def Along (step : σ → α → Option σ) (P : σ → Prop) : σ → List α → Prop
  | s, [] => P s
  | s, a :: as => P s ∧ ∀ t, step s a = some t → Along step P t as

/-- The run passes a check at every step. -/
def passes (step : σ → α → Option σ) (check : σ → α → Bool) : σ → List α → Bool
  | _, [] => true
  | s, a :: as => check s a && (step s a).all fun t => passes step check t as

theorem StepsMeet.of_passes {check : σ → α → Bool} (hcheck : ∀ s a, check s a = true → G s a)
    (h : passes step check s as = true) : StepsMeet step G s as := by
  induction as generalizing s with
  | nil => trivial
  | cons a as ih =>
    obtain ⟨ha, has⟩ := (Bool.and_eq_true _ _).mp h
    refine ⟨hcheck s a ha, fun t ht => ih ?_⟩
    rwa [ht] at has

theorem Along.head (h : Along step P s as) : P s := by
  cases as with
  | nil => exact h
  | cons a as => exact h.1

theorem Along.imp (hPQ : ∀ s, P s → Q s) (h : Along step P s as) : Along step Q s as := by
  induction as generalizing s with
  | nil => exact hPQ s h
  | cons a as ih => exact ⟨hPQ s h.1, fun t ht => ih (h.2 t ht)⟩

theorem Along.and (hP : Along step P s as) (hQ : Along step Q s as) :
    Along step (fun s => P s ∧ Q s) s as := by
  induction as generalizing s with
  | nil => exact ⟨hP, hQ⟩
  | cons a as ih => exact ⟨⟨hP.1, hQ.1⟩, fun t ht => ih (hP.2 t ht) (hQ.2 t ht)⟩

theorem StepsMeet.append {bs : List α} (h : StepsMeet step G s (as ++ bs))
    (hr : run step s as = some t) :
    StepsMeet step G s as ∧ StepsMeet step G t bs := by
  induction as generalizing s with
  | nil =>
    cases hr
    exact ⟨trivial, h⟩
  | cons a as ih =>
    obtain ⟨u, hu, hrest⟩ := Option.bind_eq_some_iff.mp hr
    obtain ⟨hl, hrs⟩ := ih (h.2 u hu) hrest
    refine ⟨⟨h.1, ?_⟩, hrs⟩
    intro v hv
    rw [hu] at hv
    cases hv
    exact hl

/-- **The invariant rule.** What guarded steps preserve holds in every state of a guarded run. -/
theorem Along.of_stepsMeet (hstep : ∀ s a t, I s → G s a → step s a = some t → I t) (hs : I s)
    (hG : StepsMeet step G s as) : Along step I s as := by
  induction as generalizing s with
  | nil => exact hs
  | cons a as ih => exact ⟨hs, fun t ht => ih (hstep s a t hs hG.1 ht) (hG.2 t ht)⟩

/-- What every step preserves holds in every state of every run. -/
theorem Along.of_step (hstep : ∀ s a t, I s → step s a = some t → I t) (hs : I s) :
    Along step I s as := by
  induction as generalizing s with
  | nil => exact hs
  | cons a as ih => exact ⟨hs, fun t ht => ih (hstep s a t hs ht)⟩

/-- **The converse rule.** If an enabled step out of a good state that breaks its guard ends in a
    bad state, then a run that is good throughout met every guard. -/
theorem StepsMeet.of_along (hen : ∀ s a, ∃ t, step s a = some t)
    (hstep : ∀ s a t, P s → step s a = some t → P t → G s a) (h : Along step P s as) :
    StepsMeet step G s as := by
  induction as generalizing s with
  | nil => trivial
  | cons a as ih =>
    obtain ⟨t, ht⟩ := hen s a
    exact ⟨hstep s a t h.1 ht (h.2 t ht).head, fun u hu => ih (h.2 u hu)⟩

/-- The state at the end of a run is one of its states. -/
theorem Along.last (h : Along step P s as) (hr : run step s as = some t) : P t := by
  induction as generalizing s with
  | nil => cases hr; exact h
  | cons a as ih =>
    obtain ⟨u, hu, hrest⟩ := Option.bind_eq_some_iff.mp hr
    exact ih (h.2 u hu) hrest

/-- What guarded steps out of invariant states relate is related by every guarded run. -/
theorem run_rel {R : σ → σ → Prop} (hrefl : ∀ s, R s s) (htrans : ∀ s t u, R s t → R t u → R s u)
    (hI : ∀ s a t, I s → G s a → step s a = some t → I t)
    (hR : ∀ s a t, I s → G s a → step s a = some t → R s t) (hs : I s) (hG : StepsMeet step G s as)
    (hr : run step s as = some t) : R s t := by
  induction as generalizing s with
  | nil => cases hr; exact hrefl _
  | cons a as ih =>
    obtain ⟨u, hu, hrest⟩ := Option.bind_eq_some_iff.mp hr
    exact htrans s u t (hR s a u hs hG.1 hu) (ih (hI s a u hs hG.1 hu) (hG.2 u hu) hrest)

end Wokcore.Lib
