import Wokcore.Lib.Tasks

/-!
# Export operations (`ExportCoordinator`, `crates/wokcore-diagnostics/src/export.rs`)

A coordinator admits one export operation at a time, by a semaphore with one permit. An operation
has an owner, the `ExportOperation` or the `ExportRequestOwner`, and at most one worker, which holds
the lease. The two race on one atomic phase with loads and compare-exchanges, and either may release
the permit, which is kept under a mutex.

An operation is a task over the semaphore, and `Action` says which of its two parties moves. Checks
for a cancellation and reads of a body change nothing of this. A body holds the owner and the lease,
so what it does is one of the orders in which the two can move.
-/

set_option autoImplicit false

namespace Wokcore.Diagnostics

open Lib

inductive ExportPhase where
  | ready | running | cancelled | committing | finished
deriving DecidableEq

/-- Where the owner is. -/
inductive OwnerAt where
  | asking
  | held
  /-- In `cancel_owner`, before it loads the phase, after it, and before it releases the permit. -/
  | cancelling
  | loaded (phase : ExportPhase)
  | releasing
  | dropped
deriving DecidableEq

/-- Where the lease of the worker is. -/
inductive WorkerAt where
  | none
  | held
  /-- In `publish`: `begin_commit` has succeeded, and the destination has answered. -/
  | committing
  | answered
  /-- In `finish`, before it releases the permit. -/
  | finishing
  /-- In `cancel_worker`, before it loads the phase, after it, and before it releases the permit. -/
  | cancelling
  | loaded (phase : ExportPhase)
  | releasing
  | dropped
deriving DecidableEq

/-- An operation, with what has become of it so far. -/
structure ExportOperation where
  phase : ExportPhase
  permit : Bool
  owner : OwnerAt
  worker : WorkerAt
  /-- How often a permit was released. -/
  releases : Nat
  /-- The owner has made the phase `cancelled`. -/
  ownerCancelled : Bool
  /-- `begin_commit` has succeeded. -/
  begun : Bool
  /-- The destination is committed. -/
  committed : Bool

inductive Action where
  | tryBegin
  /-- `start_worker`, or `split`. -/
  | startWorker
  | dropOwner
  /-- The next step of `cancel_owner`. -/
  | owner
  | beginCommit
  /-- `destination.commit()`, which may fail. -/
  | commit (succeeds : Bool)
  /-- The store of `finish`, in `publish` or at the end of a body. -/
  | finish
  | dropWorker
  /-- The next step of `finish` or `cancel_worker`. -/
  | worker

namespace ExportOperation

def asking : ExportOperation := ⟨.ready, false, .asking, .none, 0, false, false, false⟩

/-- `release_admission`. -/
def release (admission : Nat) (o : ExportOperation) : Nat × ExportOperation :=
  (admission + o.permit.toNat, { o with permit := false, releases := o.releases + o.permit.toNat })

/-- A step of `cancel_owner`. -/
def cancelOwner (admission : Nat) (o : ExportOperation) : OwnerAt → Option (Nat × ExportOperation)
  | .cancelling => some (admission, { o with owner := .loaded o.phase })
  | .loaded .ready =>
      if o.phase = .ready then
        some (admission,
          { o with phase := .cancelled, ownerCancelled := true, owner := .releasing })
      else some (admission, { o with owner := .cancelling })
  | .loaded .running =>
      if o.phase = .running then
        some (admission, { o with phase := .cancelled, ownerCancelled := true, owner := .dropped })
      else some (admission, { o with owner := .cancelling })
  | .loaded _ => some (admission, { o with owner := .dropped })
  | .releasing => some (release admission { o with owner := .dropped })
  | _ => none

/-- A step of `cancel_worker`, or of what is left of `finish`, after which the lease is dropped. -/
def cancelWorker (admission : Nat) (o : ExportOperation) : WorkerAt → Option (Nat × ExportOperation)
  | .finishing => some (release admission { o with worker := .cancelling })
  | .cancelling => some (admission, { o with worker := .loaded o.phase })
  | .loaded .running =>
      if o.phase = .running
        then some (admission, { o with phase := .cancelled, worker := .releasing })
      else some (admission, { o with worker := .cancelling })
  | .loaded .cancelled => some (admission, { o with worker := .releasing })
  | .loaded .committing =>
      if o.phase = .committing
        then some (admission, { o with phase := .finished, worker := .releasing })
      else some (admission, { o with worker := .dropped })
  | .loaded _ => some (admission, { o with worker := .dropped })
  | .releasing => some (release admission { o with worker := .dropped })
  | _ => none

/-- One atomic step. A `try_begin` that finds no permit is answered with `Busy`, and so is a
    `start_worker` that does not find the phase `ready`. -/
def next (action : Action) (admission : Nat) (o : ExportOperation) :
    Option (Nat × ExportOperation) :=
  match action with
  | .tryBegin =>
      if o.owner = .asking ∧ 0 < admission
        then some (admission - 1, { o with permit := true, owner := .held }) else none
  | .startWorker =>
      if o.owner = .held ∧ o.phase = .ready
        then some (admission, { o with phase := .running, worker := .held }) else none
  | .dropOwner =>
    if o.owner = .held then some (admission, { o with owner := .cancelling }) else none
  | .owner => cancelOwner admission o o.owner
  | .beginCommit =>
      if o.worker = .held ∧ o.phase = .running then
        some (admission, { o with phase := .committing, worker := .committing, begun := true })
      else none
  | .commit succeeds =>
      if o.worker = .committing
        then some (admission, { o with committed := succeeds, worker := .answered }) else none
  | .finish =>
      if o.worker = .held ∨ o.worker = .answered then
        some (admission, { o with phase := .finished, worker := .finishing })
      else none
  | .dropWorker =>
      if o.worker = .held ∨ o.worker = .committing
        then some (admission, { o with worker := .cancelling }) else none
  | .worker => cancelWorker admission o o.worker

/-- **The invariant.** What the two parties know of the phase and of the permit. -/
def Consistent (o : ExportOperation) : Prop :=
  (match o.worker with
    | .none =>
        match o.owner with
        | .asking => o.phase = .ready ∧ o.permit = false
        | .held | .cancelling => o.phase = .ready ∧ o.permit = true
        | .loaded p => p = .ready ∧ o.phase = .ready ∧ o.permit = true
        | .releasing => o.phase = .cancelled ∧ o.permit = true
        | .dropped => o.phase = .cancelled ∧ o.permit = false
    | .held => (o.phase = .running ∨ o.phase = .cancelled) ∧ o.permit = true
    | .committing | .answered => o.phase = .committing ∧ o.permit = true
    | .finishing => o.phase = .finished ∧ o.permit = true
    | .cancelling => o.phase ≠ .ready ∧ (o.permit = false ↔ o.phase = .finished)
    | .loaded p => o.phase ≠ .ready ∧ (o.permit = false ↔ o.phase = .finished) ∧
        (p = o.phase ∨ p = .running ∧ o.phase = .cancelled)
    | .releasing => (o.phase = .cancelled ∨ o.phase = .finished) ∧ o.permit = true
    | .dropped => (o.phase = .cancelled ∨ o.phase = .finished) ∧ o.permit = false) ∧
  (o.worker ≠ .none → o.owner ≠ .asking ∧ o.owner ≠ .releasing) ∧
  (o.ownerCancelled = true → o.phase = .cancelled ∨ o.phase = .finished) ∧
  (o.phase = .committing → o.begun = true) ∧
    (o.begun = true → o.phase = .committing ∨ o.phase = .finished) ∧
  (o.committed = true → o.ownerCancelled = false ∧ (o.phase = .committing ∨ o.phase = .finished)) ∧
  o.releases + o.permit.toNat = if o.owner = .asking then 0 else 1

variable {admission : Nat} {o : ExportOperation} {r : Nat × ExportOperation}

/-- A step keeps the invariant, and the permits. -/
def Kept (admission : Nat) (o : ExportOperation) (r : Nat × ExportOperation) : Prop :=
  r.2.Consistent ∧ r.1 + r.2.permit.toNat = admission + o.permit.toNat

theorem Consistent.cancelOwner (h : o.Consistent)
    (hstep : o.cancelOwner admission o.owner = some r) :
    Kept admission o r := by
  obtain ⟨phase, permit, owner, worker, releases, ownerCancelled, begun, committed⟩ := o
  obtain ⟨hplaced, hstarted, hcancelled, hbegins, hbegun, hcommitted, hreleases⟩ := h
  cases owner with
  | cancelling =>
    cases hstep
    cases worker <;> simp_all [Kept, Consistent]
  | loaded p =>
    cases p with
    | ready | running =>
      simp only [ExportOperation.cancelOwner] at hstep
      split at hstep <;> cases hstep <;> cases worker <;> simp_all [Kept, Consistent]
    | _ =>
      cases hstep
      cases worker <;> simp_all [Kept, Consistent]
  | releasing =>
    cases hstep
    cases worker <;> simp_all [Kept, Consistent, release]
  | _ => cases hstep

theorem Consistent.cancelWorker (h : o.Consistent)
    (hstep : o.cancelWorker admission o.worker = some r) :
    Kept admission o r := by
  obtain ⟨phase, permit, owner, worker, releases, ownerCancelled, begun, committed⟩ := o
  obtain ⟨hplaced, hstarted, hcancelled, hbegins, hbegun, hcommitted, hreleases⟩ := h
  cases worker with
  | cancelling =>
    cases hstep
    simp_all [Kept, Consistent]
  | loaded p =>
    obtain ⟨hready, hpermit, rfl | ⟨rfl, rfl⟩⟩ := hplaced
    · cases p <;> cases hstep <;> simp_all [Kept, Consistent]
    -- the owner has cancelled after the load
    · cases hstep
      simp_all [Kept, Consistent]
  | finishing | releasing =>
    cases hstep
    simp_all [Kept, Consistent, release]
  | _ => cases hstep

theorem Consistent.next {action : Action} (h : o.Consistent)
    (hnext : o.next action admission = some r) :
    Kept admission o r := by
  cases action with
  | owner => exact h.cancelOwner hnext
  | worker => exact h.cancelWorker hnext
  | tryBegin | startWorker | dropOwner | beginCommit | commit | finish | dropWorker =>
    obtain ⟨phase, permit, owner, worker, releases, ownerCancelled, begun, committed⟩ := o
    obtain ⟨hplaced, hstarted, hcancelled, hbegins, hbegun, hcommitted, hreleases⟩ := h
    simp only [ExportOperation.next] at hnext
    split at hnext <;> cases hnext
    cases worker <;> simp_all [Kept, Consistent] <;> grind

/-- What is asked of an operation. -/
structure Safe (o : ExportOperation) : Prop where
  /-- The admission is released once, at the latest when the owner and the lease are dropped. -/
  once : o.releases ≤ 1
  released : o.owner = .dropped → o.worker = .none ∨ o.worker = .dropped → o.releases = 1
  /-- It is not released before the lease has finished or is dropped. -/
  lease : o.worker = .held ∨ o.worker = .committing ∨ o.worker = .answered → o.releases = 0
  commits : o.committed = true → o.ownerCancelled = false
  begins : o.phase = .committing → o.begun = true
  /-- From the beginning of a commit on, or the end of the operation, a drop of the owner changes
      nothing but the owner. -/
  settled : o.begun = true ∨ o.phase = .finished → ∀ action, action = .dropOwner ∨ action = .owner →
    ∀ admission r, o.next action admission = some r → r = (admission, { o with owner := r.2.owner })

theorem Consistent.safe (h : o.Consistent) : o.Safe := by
  obtain ⟨phase, permit, owner, worker, releases, ownerCancelled, begun, committed⟩ := o
  obtain ⟨hworker, howner, -, hbegins, hbegun, hcommitted, hreleases⟩ := h
  refine ⟨?_, ?_, ?_, fun hc => (hcommitted hc).1, hbegins, ?_⟩
  · dsimp only at hreleases ⊢
    split at hreleases <;> omega
  · rintro rfl (rfl | rfl) <;> simp_all
  · rintro (rfl | rfl | rfl) <;> simp_all
  · rintro hsettled action (rfl | rfl) admission r hnext
    all_goals have hphase : phase = .committing ∨ phase = .finished := hsettled.elim hbegun .inr
    · rw [ExportOperation.next] at hnext
      split at hnext <;> cases hnext
      rfl
    · have hreleasing : owner ≠ .releasing := by
        rintro rfl
        cases worker <;> simp_all
      rw [ExportOperation.next, cancelOwner.eq_def] at hnext
      split at hnext <;> grind

theorem outline : Outline (fun _ : Unit => asking) next (fun o => o.permit.toNat)
    (fun admission held => admission + held = 1) fun _ _ o => o.Consistent where
  weightless _ := rfl
  call _ _ _ _ := by simp [Consistent, asking]
  own _ admission o held admission' o' hone h hnext := by
    obtain ⟨h', hsame⟩ := h.next hnext
    dsimp only at hsame
    exact ⟨by omega, h'⟩
  other _ _ _ _ _ _ _ _ _ h _ := h

/-- **Exports are coordinated.** In every interleaving of the steps of any number of operations the
    admission is free or held by one of them, and each operation is safe. -/
theorem exports_coordinated (moves : List (TaskMove Unit Action)) :
    Along (taskStep (fun _ => asking) next)
      (fun c => c.memory + tally (fun o => o.permit.toNat) c.tasks = 1 ∧ ∀ o ∈ c.tasks, o.Safe)
      ⟨1, []⟩ moves :=
  (Along.of_step outline.step ⟨rfl, by simp⟩).imp fun _ h => ⟨h.1, fun o ho => (h.2 o ho).safe⟩

end ExportOperation

end Wokcore.Diagnostics
