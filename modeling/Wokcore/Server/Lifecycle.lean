import Wokcore.Lib.Tasks
import Wokcore.Lib.Word

/-!
# The service lifecycle (`crates/wokcore-server/src/lifecycle/admission.rs`, `service.rs`)

`ServiceLifecycle` moves the service through its phases and `AdmissionController` lets requests in
while it is running. The two share atomics: `try_enter` counts itself in `active` and only then
looks whether the phase is still `Running`, and the transitions, which exclude one another by a
mutex, publish a phase and then read `active`.

Every call is a task here, and `Task.next` is one atomic load, store or update of it, one
acquisition or release of the mutex, or one operation on the watch channel or on `Notify`. What a
transition does between two of them touches only the state under its mutex, so it is part of the
step before. A panic is not modelled: nothing panics while it holds the mutex, so the mutex is never
poisoned and `TransitionStateUnavailable` does not arise.
-/

set_option autoImplicit false

namespace Wokcore.Server

open Lib

/-! ## The state -/

/-- `LifecyclePhase`. The atomic holds its discriminant, and only `set_phase` writes it. -/
inductive LifecyclePhase where
  | starting
  | running
  | draining
  | awaitingCancellation
  | stopping
deriving DecidableEq, Repr

/-- `SharedLifecycle`. `zero_active` is a count of the `notify_waiters` calls, which is what a
    waiter captures, and `idle_zero_active` is the permit that `notify_one` stores. -/
structure SharedLifecycle where
  phase : LifecyclePhase
  active : Nat
  transitionRevision : Nat
  activityRevision : Nat
  lastActivityTickMillis : Nat
  zeroActive : Nat
  idleZeroActive : Bool
deriving DecidableEq, Repr

/-- `TransitionState`, and `WatchState`, which has the same fields. -/
structure TransitionState where
  phase : LifecyclePhase
  drainGeneration : Nat
deriving DecidableEq, Repr

/-- `ServiceLifecycleState`. -/
structure ServiceLifecycle where
  shared : SharedLifecycle
  transition : TransitionState
  /-- The mutex around `transition` is held. -/
  locked : Bool
  phaseWatch : TransitionState
  /-- The version of the watch channel, which every `send_replace` advances. -/
  watchVersion : Nat
deriving DecidableEq, Repr

/-- `ServiceLifecycle::new`, at a time of the clock. -/
def ServiceLifecycle.new (tick : Nat) : ServiceLifecycle where
  shared :=
    { phase := .starting, active := 0, transitionRevision := 0, activityRevision := 0
      lastActivityTickMillis := tick, zeroActive := 0, idleZeroActive := false }
  transition := ⟨.starting, 0⟩
  locked := false
  phaseWatch := ⟨.starting, 0⟩
  watchVersion := 0

structure LifecycleSnapshot where
  phase : LifecyclePhase
  activeRequests : Nat
deriving DecidableEq, Repr

inductive DrainOutcome where
  | completed
  | timedOutAwaitingCancellation
  | cancelled
deriving DecidableEq, Repr

inductive LifecycleError where
  | invalidTransition («from» : LifecyclePhase)
  | activeRequestsRemain (activeRequests : Nat)
  | drainGenerationExhausted
  | transitionRevisionExhausted
deriving DecidableEq, Repr

inductive DrainWait where
  | zeroActive
  | timedOut
  | cancelled
deriving DecidableEq, Repr

/-! ## The tasks -/

/-- The calls a client of the two types can start. A guard is dropped by the task that was
    admitted. -/
inductive LifecycleCall where
  | tryEnter
  | markRunning
  | beginDrain
  | cancelDrain
  | requestStop
deriving DecidableEq, Repr

/-- Where a task needs the mutex: the head of a transition, or `finish_drain_wait`. -/
inductive Transition where
  | markRunning
  | beginDrain
  | finishDrainWait (drainGeneration : Nat) (event : DrainWait)
  | cancelDrain
  | requestStop
deriving DecidableEq, Repr

/-- The five places `publish_phase` is called from. -/
inductive Publication where
  /-- `mark_running` and `cancel_drain`. -/
  | run
  /-- `begin_drain` out of `Running`, which then waits for its generation. -/
  | drain (drainGeneration : Nat)
  /-- `request_stop` out of `Running`, before it looks at the active requests. -/
  | drainToStop
  /-- `finish_drain_wait` after a timeout. -/
  | awaitCancellation
  | stop
deriving DecidableEq, Repr

def Publication.phase : Publication → LifecyclePhase
  | .run => .running
  | .drain _ | .drainToStop => .draining
  | .awaitCancellation => .awaitingCancellation
  | .stop => .stopping

/-- The three loads of `active` under the mutex. -/
inductive ActiveCheck where
  | beginDrain
  | finishDrainWait (event : DrainWait)
  | requestStop
deriving DecidableEq, Repr

inductive PublishPoint where
  | advanceRevision
  | setPhase
  | sendWatch
deriving DecidableEq, Repr

/-- The loads of one turn of the loop in `snapshot`, with what was read before. -/
inductive SnapshotPoint where
  | revisionBefore
  | before (revision : Nat)
  | activeRequests (revision : Nat) (before : LifecyclePhase)
  | after (revision : Nat) (before : LifecyclePhase) (activeRequests : Nat)
  | revisionAfter (revision : Nat) (before : LifecyclePhase) (activeRequests : Nat)
    (after : LifecyclePhase)
deriving DecidableEq, Repr

/-- Where `wait_for_drain` stands. `seen` is the version of the watch channel it has read, and
    `notified` the generation its `Notified` future has captured. -/
inductive WaitPoint where
  | borrowWatch
  | loadActive (seen : Nat)
  | select (seen : Nat)
  | loadZero (seen notified : Nat)
  | parked (seen notified : Nat)
deriving DecidableEq, Repr

inductive EnterPoint where
  | loadPhase
  | increment
  | recheckPhase
  | rollBack
deriving DecidableEq, Repr

inductive DecrementOutcome where
  | becameZero
  | remaining
  | alreadyZero
deriving DecidableEq, Repr

/-- The two atomic operations of `observe_activity`. -/
inductive ObservePoint where
  | storeTick
  | advanceRevision
deriving DecidableEq, Repr

/-- Who called `decrement_active`. -/
inductive Decrementer where
  | tryEnter
  | guardDrop
deriving DecidableEq, Repr

inductive AfterObserve where
  | admitted
  | decremented (outcome : DecrementOutcome) (by_ : Decrementer)
deriving DecidableEq, Repr

/-- What a call has returned. `guard` is `Ok` of `try_enter` as long as the guard is not dropped, so
    it is a state of the task and not an answer. -/
inductive Answer where
  | maintenance
  | guardDropped
  | snapshot (result : Except LifecycleError LifecycleSnapshot)
  | drain (result : Except LifecycleError DrainOutcome)
  /-- The future of `begin_drain` was dropped while it waited. -/
  | abandoned
deriving DecidableEq, Repr

inductive Task where
  | entering (point : EnterPoint)
  | observing (point : ObservePoint) (after : AfterObserve)
  | notifyingWaiters (by_ : Decrementer)
  | notifyingOne (by_ : Decrementer)
  /-- `try_enter` has returned `Ok`, and the guard is alive. -/
  | guard
  | locking (transition : Transition)
  | publishing (point : PublishPoint) (publication : Publication)
  | checkingActive (check : ActiveCheck)
  | snapshotting (point : SnapshotPoint)
  /-- About to release the mutex, and then to wait for a drain. -/
  | unlockingToWait (drainGeneration : Nat)
  /-- About to release the mutex, and to return. -/
  | unlocking (answer : Answer)
  | waiting (drainGeneration : Nat) (point : WaitPoint)
  | finished (answer : Answer)
deriving DecidableEq, Repr

def Task.start : LifecycleCall → Task
  | .tryEnter => .entering .loadPhase
  | .markRunning => .locking .markRunning
  | .beginDrain => .locking .beginDrain
  | .cancelDrain => .locking .cancelDrain
  | .requestStop => .locking .requestStop

/-- What decides a step from outside. -/
inductive Choice where
  /-- The task goes on, at a time of the clock. -/
  | proceed (tick : Nat)
  /-- `select!` finds the watch channel changed. -/
  | changed
  /-- The timer of `begin_drain` fires. -/
  | timeout
  /-- The future of `begin_drain` is dropped. -/
  | abandon
deriving DecidableEq, Repr

/-! ## The atomic steps -/

/-- `usize::MAX` of a 64-bit target. -/
def usizeMax : Nat := 2 ^ 64 - 1

/-- Where `decrement_active` returns to. -/
def Decrementer.returned : Decrementer → Task
  | .tryEnter => .finished .maintenance
  | .guardDrop => .finished .guardDropped

variable (shared : SharedLifecycle)

def checkedDecrement : SharedLifecycle × DecrementOutcome :=
  match shared.active with
  | 0 => (shared, .alreadyZero)
  | 1 => ({ shared with active := 0 }, .becameZero)
  | n + 2 => ({ shared with active := n + 1 }, .remaining)

/-- `decrement_active` up to and including its update of `active`. -/
def decrementActive (by_ : Decrementer) : SharedLifecycle × Task :=
  match checkedDecrement shared with
  | (shared, .alreadyZero) => (shared, by_.returned)
  | (shared, outcome) => (shared, .observing .storeTick (.decremented outcome by_))

def enterNext : EnterPoint → SharedLifecycle × Task
  | .loadPhase =>
      if shared.phase ≠ .running then (shared, .finished .maintenance)
        else (shared, .entering .increment)
  | .increment =>
      match checkedAdd usizeMax shared.active 1 with
      | none => (shared, .finished .maintenance)
      | some active => ({ shared with active }, .entering .recheckPhase)
  | .recheckPhase =>
      if shared.phase = .running then (shared, .observing .storeTick .admitted)
      else (shared, .entering .rollBack)
  | .rollBack => decrementActive shared .tryEnter

def observeNext (tick : Nat) (shared : SharedLifecycle) : ObservePoint → AfterObserve →
    SharedLifecycle × Task
  | .storeTick, after =>
      ({ shared with lastActivityTickMillis := tick }, .observing .advanceRevision after)
  | .advanceRevision, after =>
      let shared :=
        { shared with
          activityRevision :=
            (checkedAdd u64Max shared.activityRevision 1).getD shared.activityRevision }
      match after with
      | .admitted => (shared, .guard)
      | .decremented .becameZero by_ => (shared, .notifyingWaiters by_)
      | .decremented _ by_ => (shared, by_.returned)

/-- The generation of the next drain, written under the mutex; the phase is published after it. -/
def nextGeneration (transition : TransitionState) : Except LifecycleError TransitionState :=
  match checkedAdd u64Max transition.drainGeneration 1 with
  | none => .error .drainGenerationExhausted
  | some drainGeneration => .ok { transition with drainGeneration }

/-- What a transition does with the mutex just taken, up to its next atomic operation. -/
def Transition.enter (transition : TransitionState) : Transition → TransitionState × Task
  | .markRunning =>
      if transition.phase ≠ .starting then
        (transition, .unlocking (.snapshot (.error (.invalidTransition transition.phase))))
      else (transition, .publishing .advanceRevision .run)
  | .beginDrain =>
      match transition.phase with
      | .starting =>
        (transition, .unlocking (.drain (.error (.invalidTransition transition.phase))))
      | .running =>
          match nextGeneration transition with
          | .error e => (transition, .unlocking (.drain (.error e)))
          | .ok transition =>
            (transition, .publishing .advanceRevision (.drain transition.drainGeneration))
      | .draining => (transition, .unlockingToWait transition.drainGeneration)
      | .awaitingCancellation => (transition, .checkingActive .beginDrain)
      | .stopping => (transition, .unlocking (.drain (.ok .completed)))
  | .finishDrainWait drainGeneration event =>
      if transition.phase = .stopping then (transition, .unlocking (.drain (.ok .completed)))
      else if transition.drainGeneration ≠ drainGeneration ∨ transition.phase = .running ∨
          event = .cancelled then
        (transition, .unlocking (.drain (.ok .cancelled)))
      else (transition, .checkingActive (.finishDrainWait event))
  | .cancelDrain =>
      match transition.phase with
      | .draining | .awaitingCancellation => (transition, .publishing .advanceRevision .run)
      | phase => (transition, .unlocking (.snapshot (.error (.invalidTransition phase))))
  | .requestStop =>
      match transition.phase with
      | .starting =>
        (transition, .unlocking (.snapshot (.error (.invalidTransition transition.phase))))
      | .running =>
          match nextGeneration transition with
          | .error e => (transition, .unlocking (.snapshot (.error e)))
          | .ok transition => (transition, .publishing .advanceRevision .drainToStop)
      | .draining | .awaitingCancellation => (transition, .checkingActive .requestStop)
      | .stopping => (transition, .snapshotting .revisionBefore)

/-- The error of `publish_phase`, as the call that published returns it. -/
def Publication.failed (publication : Publication) (e : LifecycleError) : Task :=
  match publication with
  | .drain _ | .awaitCancellation => .unlocking (.drain (.error e))
  | .run | .drainToStop | .stop => .unlocking (.snapshot (.error e))

/-- Where a call goes on after `publish_phase`. -/
def Publication.published : Publication → Task
  | .run | .stop => .snapshotting .revisionBefore
  | .drain drainGeneration => .unlockingToWait drainGeneration
  | .drainToStop => .checkingActive .requestStop
  | .awaitCancellation => .unlocking (.drain (.ok .timedOutAwaitingCancellation))

variable (m : ServiceLifecycle)

def publishNext (publication : Publication) : PublishPoint → ServiceLifecycle × Task
  | .advanceRevision =>
      match checkedAdd u64Max m.shared.transitionRevision 1 with
      | none => (m, publication.failed .transitionRevisionExhausted)
      | some transitionRevision =>
          ({ m with shared := { m.shared with transitionRevision } },
            .publishing .setPhase publication)
  | .setPhase =>
      ({ m with
          transition := { m.transition with phase := publication.phase }
          shared := { m.shared with phase := publication.phase } },
        .publishing .sendWatch publication)
  | .sendWatch =>
      ({ m with
          phaseWatch := ⟨publication.phase, m.transition.drainGeneration⟩
          watchVersion := m.watchVersion + 1 },
        publication.published)

/-- A load of `active` under the mutex, with what the call makes of it. -/
def ActiveCheck.next : ActiveCheck → Task
  | .beginDrain =>
      .unlocking (.drain
        (.ok (if m.shared.active = 0 then .completed else .timedOutAwaitingCancellation)))
  | .finishDrainWait event =>
      if m.shared.active = 0 ∨ event = .zeroActive then .unlocking (.drain (.ok .completed))
      else
        match m.transition.phase with
        | .draining => .publishing .advanceRevision .awaitCancellation
        | .awaitingCancellation => .unlocking (.drain (.ok .timedOutAwaitingCancellation))
        | .starting => .unlocking (.drain (.error (.invalidTransition .starting)))
        | .running => .unlocking (.drain (.ok .cancelled))
        | .stopping => .unlocking (.drain (.ok .completed))
  | .requestStop =>
      if m.shared.active ≠ 0 then
        .unlocking (.snapshot (.error (.activeRequestsRemain m.shared.active)))
      else .publishing .advanceRevision .stop

def snapshotNext : SnapshotPoint → Task
  | .revisionBefore => .snapshotting (.before shared.transitionRevision)
  | .before revision => .snapshotting (.activeRequests revision shared.phase)
  | .activeRequests revision before => .snapshotting (.after revision before shared.active)
  | .after revision before active =>
    .snapshotting (.revisionAfter revision before active shared.phase)
  | .revisionAfter revision before active after =>
      if revision = shared.transitionRevision ∧ before = after then
        .unlocking (.snapshot (.ok ⟨after, active⟩))
      else .snapshotting .revisionBefore

/-- `wait_for_drain` returns `event`, and `finish_drain_wait` follows. -/
def waited (drainGeneration : Nat) (event : DrainWait) : Task :=
  .locking (.finishDrainWait drainGeneration event)

/-- `wait_for_drain`, with `wait_for_zero_active` inside its `select!`. The watch channel does not
    close while the call runs, since the lifecycle it borrows owns the sender. -/
def waitNext (drainGeneration : Nat) : WaitPoint → Choice → Option Task
  | .borrowWatch, .proceed _ =>
      let observed := m.phaseWatch
      if observed.drainGeneration ≠ drainGeneration ∨ observed.phase = .running then
        some (waited drainGeneration .cancelled)
      else
        match observed.phase with
        | .awaitingCancellation => some (waited drainGeneration .timedOut)
        | .stopping => some (waited drainGeneration .zeroActive)
        | .starting | .running | .draining =>
          some (.waiting drainGeneration (.loadActive m.watchVersion))
  | .loadActive seen, .proceed _ =>
      if m.shared.active = 0 then some (waited drainGeneration .zeroActive)
      else some (.waiting drainGeneration (.select seen))
  -- the two branches of `select!` are polled in either order
  | .select seen, .proceed _ => some (.waiting drainGeneration (.loadZero seen m.shared.zeroActive))
  | .loadZero seen notified, .proceed _ =>
      if m.shared.active = 0 then some (waited drainGeneration .zeroActive)
      else some (.waiting drainGeneration (.parked seen notified))
  | .parked seen notified, .proceed _ =>
      if m.shared.zeroActive ≠ notified then
        some (.waiting drainGeneration (.loadZero seen m.shared.zeroActive))
      else none
  | .select seen, .changed | .parked seen _, .changed =>
      if m.watchVersion ≠ seen then some (.waiting drainGeneration .borrowWatch) else none
  | .parked _ _, .timeout => some (waited drainGeneration .timedOut)
  | .parked _ _, .abandon => some (.finished .abandoned)
  | _, _ => none

/-- A step that touches the shared atomics only. -/
def ServiceLifecycle.withShared (r : SharedLifecycle × Task) : ServiceLifecycle × Task :=
  ({ m with shared := r.1 }, r.2)

/-- One atomic step of a task. -/
def Task.next (k : Choice) (m : ServiceLifecycle) : Task → Option (ServiceLifecycle × Task)
  | .waiting drainGeneration point => (waitNext m drainGeneration point k).map fun t => (m, t)
  | task =>
    match k with
    | .proceed tick =>
      match task with
      | .entering point => some (m.withShared (enterNext m.shared point))
      | .observing point after => some (m.withShared (observeNext tick m.shared point after))
      | .notifyingWaiters by_ =>
          some (m.withShared
            ({ m.shared with zeroActive := m.shared.zeroActive + 1 }, .notifyingOne by_))
      | .notifyingOne by_ =>
          some (m.withShared ({ m.shared with idleZeroActive := true }, by_.returned))
      | .guard => some (m.withShared (decrementActive m.shared .guardDrop))
      | .locking transition =>
          if m.locked then none
          else
            let (state, task) := transition.enter m.transition
            some ({ m with locked := true, transition := state }, task)
      | .publishing point publication => some (publishNext m publication point)
      | .checkingActive check => some (m, check.next m)
      | .snapshotting point => some (m, snapshotNext m.shared point)
      | .unlockingToWait drainGeneration =>
          some ({ m with locked := false }, .waiting drainGeneration .borrowWatch)
      | .unlocking answer => some ({ m with locked := false }, .finished answer)
      | .waiting _ _ | .finished _ => none
    | _ => none

abbrev LifecyclePool := TaskPool ServiceLifecycle Task

abbrev LifecycleMove := TaskMove LifecycleCall Choice

/-- One move: a call starts, or a call takes its next atomic step. -/
def lifecycleStep : LifecyclePool → LifecycleMove → Option LifecyclePool :=
    taskStep Task.start Task.next

/-- A new lifecycle, with no call made yet. -/
def LifecyclePool.new (tick : Nat) : LifecyclePool := ⟨.new tick, []⟩

end Wokcore.Server
