import Wokcore.Lib.Outcome
import Wokcore.Server.Lifecycle

/-!
# What holds in every interleaving of lifecycle calls

`active` counts a call of `try_enter` from its increment on, whether or not it will be admitted, and
a guard until its drop. So a reader of `active` that finds zero knows that no guard is alive at that
moment, and no new one appears until the phase is `Running` again, because a call admits itself only
if it finds `Running` after its increment. Both the stop and the end of a drain rest on this.

The drain needs one more fact. `begin_drain` waits without the mutex, and between the zero it saw
and the moment it takes the mutex again the drain may have been cancelled, requests admitted and
another drain begun. Its generation tells: every drain out of `Running` draws a new one before it
publishes its phase, so the published generation (`phase_watch`) is behind as long as the phase is
still `Running`.

The assertions are `LifecycleInv` for the memory and `Task.Asserts` for each task, and
`lifecycle_outline` is the outline made of them.
-/

set_option autoImplicit false

namespace Wokcore.Server

open Lib Server.Task ActiveCheck LifecyclePool Transition Option

variable {s s' : SharedLifecycle} {publication : Publication} {p q : LifecyclePool} {t : Task}
  {moves : List LifecycleMove} {move : LifecycleMove} {drainGeneration : Nat} {point : WaitPoint}

/-! ## Roles -/

/-- The guard of an admitted call: alive from the recheck that admits the call to the update of its
    drop. -/
def Task.isGuard : Task → Bool
  | .guard | .observing _ .admitted => true
  | _ => false

/-- A call of `try_enter` that has counted itself and is neither admitted nor rolled back. -/
def Task.isEntering : Task → Bool
  | .entering .recheckPhase | .entering .rollBack => true
  | _ => false

def Task.holdsMutex : Task → Bool
  | .publishing _ _ | .checkingActive _ | .snapshotting _ | .unlockingToWait _ | .unlocking _ =>
    true
  | _ => false

inductive Role where
  | guard
  | entering
  | holder
deriving DecidableEq, Repr

def Task.plays : Task → Role → Bool
  | t, .guard => t.isGuard
  | t, .entering => t.isEntering
  | t, .holder => t.holdsMutex

def Task.weight (t : Task) (role : Role) : Nat := (t.plays role).toNat

/-- The live guards of a pool. -/
def LifecyclePool.guards (p : LifecyclePool) : Nat := p.tasks.countP isGuard

/-- The calls of `try_enter` between their increment and their recheck or rollback. -/
def LifecyclePool.entering (p : LifecyclePool) : Nat := p.tasks.countP isEntering

theorem tally_guard (p : LifecyclePool) : tally weight p.tasks .guard = p.guards :=
  tally_apply plays p.tasks .guard

theorem tally_entering (p : LifecyclePool) : tally weight p.tasks .entering = p.entering :=
  tally_apply plays p.tasks .entering

/-! ## The assertions -/

/-- A phase in which a drain is under way. -/
def LifecyclePhase.isDraining : LifecyclePhase → Bool
  | .draining | .awaitingCancellation => true
  | _ => false

/-- `Draining`, `AwaitingCancellation` or `Stopping`. -/
def LifecyclePhase.isClosing : LifecyclePhase → Bool
  | .draining | .awaitingCancellation | .stopping => true
  | _ => false

/-- Out of `Running`, the published generation is the current one. -/
def Settled (m : ServiceLifecycle) : Prop :=
  m.shared.phase ≠ .running → m.phaseWatch.drainGeneration = m.transition.drainGeneration

section

variable (m : ServiceLifecycle) (n : Role → Nat)

structure LifecycleInv : Prop where
  counted : m.shared.active = n .guard + n .entering
  mutex : n .holder = m.locked.toNat
  phase : m.transition.phase = m.shared.phase
  generation : m.phaseWatch.drainGeneration ≤ m.transition.drainGeneration
  stopped : m.shared.phase = .stopping → n .guard = 0
  watched : m.phaseWatch.phase = .stopping → m.shared.phase = .stopping
  settled : m.locked = false → Settled m

/-- What a publication finds before it sets the phase. -/
def Publication.Allowed : Publication → Prop
  | .run => m.shared.phase = .starting ∨ m.shared.phase.isDraining
  | .drain drainGeneration =>
      m.shared.phase = .running ∧ m.phaseWatch.drainGeneration < m.transition.drainGeneration ∧
        drainGeneration = m.transition.drainGeneration
  | .drainToStop =>
      m.shared.phase = .running ∧ m.phaseWatch.drainGeneration < m.transition.drainGeneration
  | .awaitCancellation => m.shared.phase = .draining
  | .stop => m.shared.phase.isDraining ∧ n .guard = 0

/-- What a load of `active` under the mutex may rely on. -/
def ActiveCheck.Asserts : ActiveCheck → Prop
  | .beginDrain => m.shared.phase = .awaitingCancellation
  | .requestStop => m.shared.phase.isDraining
  | .finishDrainWait event => m.shared.phase.isDraining ∧ (event = .zeroActive → n .guard = 0)

/-- The drain a task waits for has been published. -/
def Published (drainGeneration : Nat) : Prop :=
  m.shared.phase ≠ .starting ∧ drainGeneration ≤ m.phaseWatch.drainGeneration

/-- As long as the drain of this generation is not over, no guard is alive. -/
def DrainedOut (drainGeneration : Nat) : Prop :=
  m.transition.drainGeneration = drainGeneration → m.shared.phase ≠ .running → n .guard = 0

/-- The assertion of a task at each of its points. -/
def Task.Asserts : Task → Prop
  | .publishing .sendWatch publication =>
      m.shared.phase = publication.phase ∧
        ∀ drainGeneration, publication = .drain drainGeneration →
          drainGeneration = m.transition.drainGeneration
  | .publishing _ publication => Settled m ∧ publication.Allowed m n
  | .checkingActive check => Settled m ∧ check.Asserts m n
  | .snapshotting _ => Settled m
  | .unlockingToWait drainGeneration => Settled m ∧ Published m drainGeneration
  | .unlocking answer =>
      Settled m ∧ (answer = .drain (.ok .completed) → m.shared.phase.isClosing ∧ n .guard = 0)
  | .waiting drainGeneration _ => Published m drainGeneration
  | .locking (.finishDrainWait drainGeneration event) =>
      Published m drainGeneration ∧ (event = .zeroActive → DrainedOut m n drainGeneration)
  | .entering _ | .observing _ _ | .notifyingWaiters _ | .notifyingOne _ | .guard | .locking _
  | .finished _ => True

end

/-! ## What a step can do -/

/-- A point that asserts nothing, and is not the return of a drain. -/
def Task.Plain (t : Task) : Prop := (∀ m n, t.Asserts m n) ∧ ∀ result, t ≠ .finished (.drain result)

/-- A step on the shared atomics by a task without the mutex: the phase stays, `active` moves with
    what the task holds, and a guard appears only while the phase is `Running`. -/
structure Quiet (s : SharedLifecycle) (t : Task) (s' : SharedLifecycle) (t' : Task) : Prop where
  phase : s'.phase = s.phase
  active : s'.active + (t.weight .guard + t.weight .entering) =
    s.active + (t'.weight .guard + t'.weight .entering)
  holder : t'.holdsMutex = false
  guard : s.phase ≠ .running → t'.weight .guard ≤ t.weight .guard
  plain : t'.Plain

/-- A step that moves neither `active` nor what the task holds. -/
theorem Quiet.of_weight {t' : Task} (hphase : s'.phase = s.phase := by rfl)
    (hactive : s'.active = s.active := by rfl)
    (hguard : t'.weight .guard = t.weight .guard := by rfl)
    (hentering : t'.weight .entering = t.weight .entering := by rfl)
    (hholder : t'.holdsMutex = false := by rfl)
    (hplain : t'.Plain := by exact ⟨fun _ _ => trivial, nofun⟩) : Quiet s t s' t' := by
  refine ⟨hphase, ?_, hholder, fun _ => Nat.le_of_eq hguard, hplain⟩
  rw [hactive, hguard, hentering]

theorem Quiet.of_returned (by_ : Decrementer) (hphase : s'.phase = s.phase)
    (hactive : s'.active = s.active) (hguard : t.weight .guard = 0)
    (hentering : t.weight .entering = 0) :
    Quiet s t s' by_.returned := by
  cases by_ with
  | tryEnter | guardDrop => exact .of_weight hphase hactive hguard.symm hentering.symm

theorem decrementActive_quiet (by_ : Decrementer) (hpos : 0 < s.active)
    (ht : t.weight .guard + t.weight .entering = 1) :
    Quiet s t (decrementActive s by_).1 (decrementActive s by_).2 := by
  obtain ⟨n, hn⟩ : ∃ n, s.active = n + 1 := ⟨s.active - 1, by omega⟩
  obtain ⟨outcome, hd⟩ : ∃ outcome, decrementActive s by_ =
      ({ s with active := n }, .observing .storeTick (.decremented outcome by_)) := by
    cases n with
    | zero => exact ⟨.becameZero, by simp [decrementActive, checkedDecrement, hn]⟩
    | succ n => exact ⟨.remaining, by simp [decrementActive, checkedDecrement, hn]⟩
  rw [hd]
  refine ⟨rfl, ?_, rfl, fun _ => Nat.zero_le _, ⟨fun _ _ => trivial, nofun⟩⟩
  show n + _ = s.active + (0 + 0)
  omega

theorem enterNext_quiet {point : EnterPoint}
    (hcount : (entering point).weight .entering ≤ s.active) :
    Quiet s (.entering point) (enterNext s point).1 (enterNext s point).2 := by
  cases point with
  | loadPhase =>
    rw [enterNext]
    split <;> exact .of_weight
  | increment =>
    rw [enterNext]
    split
    · exact .of_weight
    next active hadd =>
    obtain ⟨-, hactive⟩ := checkedAdd_eq_some.mp hadd
    refine ⟨rfl, ?_, rfl, fun _ => Nat.le_refl 0, ⟨fun _ _ => trivial, nofun⟩⟩
    show active + (0 + 0) = s.active + (0 + 1)
    omega
  | recheckPhase =>
    rw [enterNext]
    split
    -- admitted: the call passes its count on to the guard
    next hrunning =>
      refine ⟨rfl, ?_, rfl, fun h => absurd hrunning h, ⟨fun _ _ => trivial, nofun⟩⟩
      show s.active + (0 + 1) = s.active + (1 + 0)
      omega
    · exact .of_weight
  | rollBack => exact decrementActive_quiet .tryEnter hcount rfl

theorem observeNext_quiet (tick : Nat) (s : SharedLifecycle) (point : ObservePoint)
    (after : AfterObserve) :
    Quiet s (.observing point after) (observeNext tick s point after).1
      (observeNext tick s point after).2 := by
  cases point with
  | storeTick => cases after <;> exact .of_weight
  | advanceRevision =>
    cases after with
    | admitted => exact .of_weight
    | decremented outcome by_ =>
      cases outcome with
      | becameZero => exact .of_weight
      | remaining | alreadyZero => exact .of_returned by_ rfl rfl rfl rfl

/-- A waiting task goes on waiting, is given up, or goes for the mutex with an event, and the zero
    it reports is one it has seen. -/
theorem waitNext_eq_some {m : ServiceLifecycle} {k : Choice}
    (h : waitNext m drainGeneration point k = some t) :
    (∃ point, t = .waiting drainGeneration point) ∨ t = .finished .abandoned ∨
    ∃ event, t = waited drainGeneration event ∧
      (event = .zeroActive → m.shared.active = 0 ∨ m.phaseWatch.phase = .stopping) := by
  unfold waitNext at h
  grind

theorem waitNext_asserts {m : ServiceLifecycle} {n : Role → Nat} {k : Choice}
    (hinv : LifecycleInv m n) (hpublished : Published m drainGeneration)
    (h : waitNext m drainGeneration point k = some t) :
    t.weight = 0 ∧ t.Asserts m n ∧ ∀ result, t ≠ .finished (.drain result) := by
  rcases waitNext_eq_some h with ⟨point, rfl⟩ | rfl | ⟨event, rfl, hzero⟩
  · exact ⟨by ext role; cases role <;> rfl, hpublished, nofun⟩
  · exact ⟨by ext role; cases role <;> rfl, trivial, nofun⟩
  · refine ⟨by ext role; cases role <;> rfl, ⟨hpublished, ?_⟩, nofun⟩
    intro hevent _ _
    rcases hzero hevent with hactive | hstopping
    · have := hinv.counted
      omega
    · exact hinv.stopped (hinv.watched hstopping)

/-! ## What other tasks may rely on -/

/-- A step seen by the holder of the mutex: phase, generation and watch channel stay, and out of
    `Running` no guard appears. -/
structure Aside (m : ServiceLifecycle) (n : Role → Nat) (m' : ServiceLifecycle) (n' : Role → Nat) :
    Prop where
  phase : m'.shared.phase = m.shared.phase
  transition : m'.transition = m.transition
  phaseWatch : m'.phaseWatch = m.phaseWatch
  guard : m.shared.phase ≠ .running → n' .guard ≤ n .guard

/-- A step seen by a task without the mutex, or from outside: `Stopping` is never left, out of
    `Running` no guard appears, a published drain stays published, and one that is drained out stays
    so. -/
structure Forward (m : ServiceLifecycle) (n : Role → Nat) (m' : ServiceLifecycle)
    (n' : Role → Nat) :
    Prop where
  stopped : m.shared.phase = .stopping → m'.shared.phase = .stopping
  guard : m.shared.phase ≠ .running → n' .guard ≤ n .guard
  started : m.shared.phase ≠ .starting → m'.shared.phase ≠ .starting
  generation : m.phaseWatch.drainGeneration ≤ m'.phaseWatch.drainGeneration
  drainedOut : ∀ drainGeneration, drainGeneration ≤ m.phaseWatch.drainGeneration →
    DrainedOut m n drainGeneration → DrainedOut m' n' drainGeneration

section Stability

variable {m m' : ServiceLifecycle} {n n' : Role → Nat} {phase : LifecyclePhase}

theorem Aside.forward (h : Aside m n m' n') : Forward m n m' n' := by
  refine ⟨h.phase.trans, h.guard, ?_, ?_, ?_⟩
  · rw [h.phase]
    exact id
  · exact Nat.le_of_eq (by rw [h.phaseWatch])
  · intro drainGeneration _ hdrained hgeneration hphase
    rw [h.transition] at hgeneration
    rw [h.phase] at hphase
    have hle := h.guard hphase
    have hzero := hdrained hgeneration hphase
    omega

theorem Aside.settled (h : Aside m n m' n') (hs : Settled m) : Settled m' := by
  rw [Settled, h.phase, h.phaseWatch, h.transition]
  exact hs

/-- No guard appears while the phase is not `Running`. -/
theorem Aside.guard_zero (h : Aside m n m' n') (hphase : m.shared.phase ≠ .running)
    (hn : n .guard = 0) : n' .guard = 0 := by
  have := h.guard hphase
  omega

theorem ne_running_of_isDraining (h : phase.isDraining = true) : phase ≠ .running := by
  rintro rfl
  cases h

theorem ne_running_of_isClosing (h : phase.isClosing = true) : phase ≠ .running := by
  rintro rfl
  cases h

theorem Publication.Allowed.aside (h : Aside m n m' n') (hp : publication.Allowed m n) :
    publication.Allowed m' n' := by
  cases publication with
  | run | drain drainGeneration | drainToStop | awaitCancellation =>
    simp only [Publication.Allowed, h.phase, h.phaseWatch, h.transition] at hp ⊢
    exact hp
  | stop =>
    obtain ⟨hphase, hguard⟩ := hp
    refine ⟨by rw [h.phase]; exact hphase, ?_⟩
    exact h.guard_zero (ne_running_of_isDraining hphase) hguard

theorem ActiveCheck.Asserts.aside {check : ActiveCheck} (h : Aside m n m' n')
    (hc : check.Asserts m n) : check.Asserts m' n' := by
  cases check with
  | beginDrain | requestStop =>
    simp only [Asserts, h.phase] at hc ⊢
    exact hc
  | finishDrainWait event =>
    obtain ⟨hphase, hguard⟩ := hc
    refine ⟨by rw [h.phase]; exact hphase, ?_⟩
    intro hevent
    exact h.guard_zero (ne_running_of_isDraining hphase) (hguard hevent)

theorem Published.forward {drainGeneration : Nat} (h : Forward m n m' n')
    (hp : Published m drainGeneration) : Published m' drainGeneration :=
  ⟨h.started hp.1, Nat.le_trans hp.2 h.generation⟩

/-- The assertion of the task that holds the mutex survives what the others do. -/
theorem Task.Asserts.aside {u : Task} (hu : u.holdsMutex = true) (h : Aside m n m' n')
    (ha : u.Asserts m n) : u.Asserts m' n' := by
  cases u with
  | publishing point publication =>
    cases point with
    | advanceRevision | setPhase => exact ⟨h.settled ha.1, ha.2.aside h⟩
    | sendWatch =>
      refine ⟨by rw [h.phase]; exact ha.1, ?_⟩
      rw [h.transition]
      exact ha.2
  | checkingActive check => exact ⟨h.settled ha.1, ha.2.aside h⟩
  | snapshotting point => exact h.settled ha
  | unlockingToWait drainGeneration => exact ⟨h.settled ha.1, ha.2.forward h.forward⟩
  | unlocking answer =>
    refine ⟨h.settled ha.1, ?_⟩
    intro hanswer
    obtain ⟨hphase, hguard⟩ := ha.2 hanswer
    refine ⟨by rw [h.phase]; exact hphase, ?_⟩
    exact h.guard_zero (ne_running_of_isClosing hphase) hguard
  | entering | observing | notifyingWaiters | notifyingOne | guard | locking | waiting | finished =>
    exact absurd hu (by simp [holdsMutex])

/-- The assertion of a task without the mutex survives what the others do. -/
theorem Task.Asserts.forward {u : Task} (hu : u.holdsMutex = false) (h : Forward m n m' n')
    (ha : u.Asserts m n) : u.Asserts m' n' := by
  cases u with
  | waiting drainGeneration point => exact Published.forward h ha
  | locking transition =>
    cases transition with
    | finishDrainWait drainGeneration event =>
      refine ⟨ha.1.forward h, ?_⟩
      intro hevent
      exact h.drainedOut drainGeneration ha.1.2 (ha.2 hevent)
    | markRunning | beginDrain | cancelDrain | requestStop => trivial
  | entering | observing | notifyingWaiters | notifyingOne | guard | finished => trivial
  | publishing | checkingActive | snapshotting | unlockingToWait | unlocking =>
    exact absurd hu (by simp [holdsMutex])

end Stability

/-! ## The steps under the mutex -/

section Mutex

variable {m : ServiceLifecycle} {n : Role → Nat} {state : TransitionState}

theorem nextGeneration_eq_ok {transition : TransitionState}
    (h : nextGeneration transition = .ok state) :
    state.phase = transition.phase ∧ state.drainGeneration = transition.drainGeneration + 1 := by
  rw [nextGeneration] at h
  split at h
  · cases h
  next drainGeneration hadd =>
  cases h
  exact ⟨rfl, (checkedAdd_eq_some.mp hadd).2⟩

/-- The state of a lifecycle whose mutex was just taken. -/
def ServiceLifecycle.lockedWith (m : ServiceLifecycle) (state : TransitionState) :
    ServiceLifecycle :=
  { m with locked := true, transition := state }

/-- What a transition leaves when it has the mutex: the phase as it was, a generation that did not
    go back, and the assertion of the point it has come to. -/
structure Entered (m : ServiceLifecycle) (n : Role → Nat) (r : TransitionState × Task) : Prop where
  phase : r.1.phase = m.transition.phase
  generation : r.1 = m.transition ∨
    m.shared.phase = .running ∧ m.transition.drainGeneration ≤ r.1.drainGeneration
  holder : r.2.holdsMutex = true
  asserts : r.2.Asserts (m.lockedWith r.1) n

/-- A transition that did not draw a generation. -/
theorem Entered.of_same {task : Task} (hholder : task.holdsMutex = true)
    (hasserts : task.Asserts m n) :
    Entered m n (m.transition, task) := by
  -- the assertions do not look at the mutex
  have haside : Aside m n (m.lockedWith m.transition) n := ⟨rfl, rfl, rfl, fun _ => Nat.le_refl _⟩
  exact ⟨rfl, .inl rfl, hholder, hasserts.aside hholder haside⟩

/-- A transition that drew a generation, and is about to publish a drain. -/
theorem Entered.of_nextGeneration (hinv : LifecycleInv m n) (hrunning : m.shared.phase = .running)
    (hstate : nextGeneration m.transition = .ok state)
    (hpublication : publication = .drain state.drainGeneration ∨ publication = .drainToStop) :
    Entered m n (state, .publishing .advanceRevision publication) := by
  obtain ⟨hsame, hnext⟩ := nextGeneration_eq_ok hstate
  have hlt : m.phaseWatch.drainGeneration < state.drainGeneration := by
    have := hinv.generation
    omega
  have hle : m.transition.drainGeneration ≤ state.drainGeneration := by omega
  refine ⟨hsame, .inr ⟨hrunning, hle⟩, rfl, fun h => absurd hrunning h, ?_⟩
  rcases hpublication with rfl | rfl
  · exact ⟨hrunning, hlt, rfl⟩
  · exact ⟨hrunning, hlt⟩

theorem Transition.enter_entered {transition : Transition} (hinv : LifecycleInv m n)
    (hsettled : Settled m) (ha : (locking transition).Asserts m n) :
    Entered m n (transition.enter m.transition) := by
  -- an answer other than a completed drain asserts nothing beyond the settled generation
  have hanswer : ∀ answer, answer ≠ .drain (.ok .completed) →
      Entered m n (m.transition, .unlocking answer) := by
    intro answer hne
    exact .of_same rfl ⟨hsettled, fun h => absurd h hne⟩
  have hcompleted : m.shared.phase = .stopping →
      Entered m n (m.transition, .unlocking (.drain (.ok .completed))) := by
    intro hstopping
    refine .of_same rfl ⟨hsettled, fun _ => ⟨?_, hinv.stopped hstopping⟩⟩
    rw [hstopping]
    rfl
  cases transition <;> simp only [enter, hinv.phase]
  case markRunning =>
    split
    · exact hanswer _ (by simp)
    next hstarting => exact .of_same rfl ⟨hsettled, .inl (not_not.mp hstarting)⟩
  case beginDrain =>
    split
    · exact hanswer _ (by simp)
    next hrunning =>
      split
      · exact hanswer _ (by simp)
      next state hstate => exact .of_nextGeneration hinv hrunning hstate (.inl rfl)
    next hdraining =>
      refine .of_same rfl ⟨hsettled, by simp [hdraining], ?_⟩
      exact Nat.le_of_eq (hsettled (by simp [hdraining])).symm
    next hawaiting => exact .of_same rfl ⟨hsettled, hawaiting⟩
    next hstopping => exact hcompleted hstopping
  case finishDrainWait drainGeneration event =>
    split
    next hstopping => exact hcompleted hstopping
    next hnotStopping =>
    split
    · exact hanswer _ (by simp)
    next hcurrent =>
    simp only [not_or, ne_eq, not_not] at hcurrent
    obtain ⟨hgeneration, hrunning, -⟩ := hcurrent
    obtain ⟨⟨hstarting, -⟩, hzero⟩ := ha
    refine .of_same rfl ⟨hsettled, ?_, fun hevent => hzero hevent hgeneration hrunning⟩
    cases hcase : m.shared.phase with
    | draining | awaitingCancellation => rfl
    | starting => exact absurd hcase hstarting
    | running => exact absurd hcase hrunning
    | stopping => exact absurd hcase hnotStopping
  case cancelDrain =>
    split
    next hdraining => exact .of_same rfl ⟨hsettled, .inr (by rw [hdraining]; rfl)⟩
    next hdraining => exact .of_same rfl ⟨hsettled, .inr (by rw [hdraining]; rfl)⟩
    · exact hanswer _ (by simp)
  case requestStop =>
    split
    · exact hanswer _ (by simp)
    next hrunning =>
      split
      · exact hanswer _ (by simp)
      next state hstate => exact .of_nextGeneration hinv hrunning hstate (.inr rfl)
    next hdraining => exact .of_same rfl ⟨hsettled, by rw [ActiveCheck.Asserts, hdraining]; rfl⟩
    next hdraining => exact .of_same rfl ⟨hsettled, by rw [ActiveCheck.Asserts, hdraining]; rfl⟩
    · exact .of_same rfl hsettled

theorem Publication.Allowed.ne_stopping (h : publication.Allowed m n) :
    m.shared.phase ≠ .stopping := by
  intro hstopping
  cases publication <;> simp [Publication.Allowed, hstopping, LifecyclePhase.isDraining] at h

theorem Publication.Allowed.guard_zero (h : publication.Allowed m n)
    (hphase : publication.phase = .stopping) :
    n .guard = 0 := by
  cases publication with
  | stop => exact h.2
  | run | drain drainGeneration | drainToStop | awaitCancellation =>
    exact absurd hphase (by simp [Publication.phase])

theorem Publication.phase_ne_starting (publication : Publication) :
    publication.phase ≠ .starting := by
  cases publication <;> simp [Publication.phase]

/-- A drain that is drained out stays so when a phase is set. -/
theorem Publication.Allowed.drainedOut (h : publication.Allowed m n) {drainGeneration : Nat}
    (hle : drainGeneration ≤ m.phaseWatch.drainGeneration)
    (hdrained : DrainedOut m n drainGeneration)
    (hgeneration : m.transition.drainGeneration = drainGeneration)
    (hphase : publication.phase ≠ .running) :
    n .guard = 0 := by
  cases publication with
  | run => exact absurd rfl hphase
  -- a drain out of `Running` has drawn a generation that is not published yet
  | drain generation =>
    have := h.2.1
    omega
  | drainToStop =>
    have := h.2
    omega
  | awaitCancellation =>
    have hdraining : m.shared.phase = .draining := h
    exact hdrained hgeneration (by simp [hdraining])
  | stop => exact h.2

/-- What the holder of the mutex leaves after a step with which it keeps the mutex. -/
structure Held (m : ServiceLifecycle) (n : Role → Nat) (m' : ServiceLifecycle) (t' : Task) :
    Prop where
  inv : LifecycleInv m' n
  holder : t'.holdsMutex = true
  asserts : t'.Asserts m' n
  forward : Forward m n m' n

theorem Forward.refl (m : ServiceLifecycle) (n : Role → Nat) : Forward m n m n :=
  ⟨id, fun _ => Nat.le_refl _, id, Nat.le_refl _, fun _ _ h => h⟩

theorem Publication.failed_asserts (n : Role → Nat) (publication : Publication) (e : LifecycleError)
    (hsettled : Settled m) :
    (publication.failed e).holdsMutex = true ∧ (publication.failed e).Asserts m n := by
  cases publication <;> exact ⟨rfl, hsettled, by simp⟩

theorem publishNext_held {point : PublishPoint} (hinv : LifecycleInv m n)
    (hlocked : m.locked = true) (ha : (publishing point publication).Asserts m n) :
    Held m n (publishNext m publication point).1 (publishNext m publication point).2 := by
  have hnot : ∀ {P : Prop}, m.locked = false → P := by
    intro P h
    exact absurd h (by simp [hlocked])
  cases point with
  | advanceRevision =>
    rw [publishNext]
    split
    · have hfailed := Publication.failed_asserts n publication .transitionRevisionExhausted ha.1
      exact ⟨hinv, hfailed.1, hfailed.2, .refl m n⟩
    next transitionRevision _ =>
      have haside : Aside m n { m with shared := { m.shared with transitionRevision } } n :=
        ⟨rfl, rfl, rfl, fun _ => Nat.le_refl _⟩
      exact ⟨{ hinv with settled := hnot }, rfl, ⟨ha.1, ha.2.aside haside⟩, haside.forward⟩
  | setPhase =>
    obtain ⟨-, hallowed⟩ := ha
    refine ⟨?_, rfl, ⟨rfl, ?_⟩, ?_⟩
    · refine ⟨hinv.counted, hinv.mutex, rfl, hinv.generation, hallowed.guard_zero, ?_, hnot⟩
      intro hwatched
      exact absurd (hinv.watched hwatched) hallowed.ne_stopping
    · rintro drainGeneration rfl
      exact hallowed.2.2
    · refine ⟨fun h => absurd h hallowed.ne_stopping, fun _ => Nat.le_refl _,
        fun _ => publication.phase_ne_starting, Nat.le_refl _, ?_⟩
      intro drainGeneration hle hdrained hgeneration hphase
      exact hallowed.drainedOut hle hdrained hgeneration hphase
  | sendWatch =>
    obtain ⟨hphase, hdrain⟩ := ha
    have hforward : Forward m n (publishNext m publication .sendWatch).1 n :=
      ⟨id, fun _ => Nat.le_refl _, id, hinv.generation, fun _ _ h => h⟩
    have hsettled : Settled (publishNext m publication .sendWatch).1 := fun _ => rfl
    have hinv' : LifecycleInv (publishNext m publication .sendWatch).1 n := by
      refine ⟨hinv.counted, hinv.mutex, hinv.phase, Nat.le_refl _, hinv.stopped, ?_, hnot⟩
      intro hwatched
      exact hphase.trans hwatched
    cases publication with
    | run | stop => exact ⟨hinv', rfl, hsettled, hforward⟩
    | drain drainGeneration =>
      refine ⟨hinv', rfl, ⟨hsettled, ?_, ?_⟩, hforward⟩
      · show m.shared.phase ≠ .starting
        rw [hphase]
        exact Publication.phase_ne_starting _
      · exact Nat.le_of_eq (hdrain drainGeneration rfl)
    | drainToStop =>
      refine ⟨hinv', rfl, ⟨hsettled, ?_⟩, hforward⟩
      show m.shared.phase.isDraining = true
      rw [hphase]
      rfl
    | awaitCancellation => exact ⟨hinv', rfl, ⟨hsettled, by simp⟩, hforward⟩

theorem isClosing_of_isDraining {phase : LifecyclePhase} (h : phase.isDraining = true) :
    phase.isClosing = true := by
  cases phase <;> first | rfl | exact absurd h (by decide)

theorem ActiveCheck.next_held {check : ActiveCheck} (hinv : LifecycleInv m n)
    (ha : (checkingActive check).Asserts m n) : Held m n m (check.next m) := by
  obtain ⟨hsettled, ha⟩ := ha
  have hzero : m.shared.active = 0 → n .guard = 0 := by
    intro hactive
    have := hinv.counted
    omega
  cases check with
  | beginDrain =>
    have hphase : m.shared.phase = .awaitingCancellation := ha
    refine ⟨hinv, rfl, ⟨hsettled, ?_⟩, .refl m n⟩
    intro hanswer
    split at hanswer
    next hactive => exact ⟨by rw [hphase]; rfl, hzero hactive⟩
    · cases hanswer
  | finishDrainWait event =>
    obtain ⟨hphase, hevent⟩ := ha
    rw [next]
    split
    next hcompleted =>
      refine ⟨hinv, rfl, ⟨hsettled, fun _ => ⟨isClosing_of_isDraining hphase, ?_⟩⟩, .refl m n⟩
      rcases hcompleted with hactive | hseen
      · exact hzero hactive
      · exact hevent hseen
    · rw [hinv.phase]
      cases hcase : m.shared.phase with
      | draining => exact ⟨hinv, rfl, ⟨hsettled, hcase⟩, .refl m n⟩
      | awaitingCancellation => exact ⟨hinv, rfl, ⟨hsettled, by simp⟩, .refl m n⟩
      | starting | running | stopping => exact absurd hphase (by rw [hcase]; decide)
  | requestStop =>
    rw [next]
    split
    · exact ⟨hinv, rfl, ⟨hsettled, by simp⟩, .refl m n⟩
    next hactive => exact ⟨hinv, rfl, ⟨hsettled, ha, hzero (by simpa using hactive)⟩, .refl m n⟩

theorem snapshotNext_held {point : SnapshotPoint} (hinv : LifecycleInv m n) (hsettled : Settled m) :
    Held m n m (snapshotNext m.shared point) := by
  cases point with
  | revisionAfter revision before active after =>
    rw [snapshotNext]
    split
    · exact ⟨hinv, rfl, ⟨hsettled, by simp⟩, .refl m n⟩
    · exact ⟨hinv, rfl, hsettled, .refl m n⟩
  | revisionBefore | before | activeRequests | after => exact ⟨hinv, rfl, hsettled, .refl m n⟩

end Mutex

/-! ## The outline -/

/-- What a step of one task leaves for itself and for the others. -/
structure Stepped (m : ServiceLifecycle) (n : Role → Nat) (t : Task) (m' : ServiceLifecycle)
    (n' : Role → Nat) (t' : Task) : Prop where
  inv : LifecycleInv m' n'
  asserts : t'.Asserts m' n'
  forward : Forward m n m' n'
  aside : t.holdsMutex = false → m.locked = true → Aside m n m' n'
  returns : ∀ result, t' = .finished (.drain result) →
    t = .unlocking (.drain result) ∧ m' = { m with locked := false }

theorem weight_of_holdsMutex (h : t.holdsMutex = true) :
    t.weight .guard = 0 ∧ t.weight .entering = 0 ∧ t.weight .holder = 1 := by
  cases t with
  | publishing | checkingActive | snapshotting | unlockingToWait | unlocking =>
    exact ⟨rfl, rfl, rfl⟩
  | entering | observing | notifyingWaiters | notifyingOne | guard | locking | waiting | finished =>
    exact absurd h (by simp [holdsMutex])

theorem weight_holder (h : t.holdsMutex = false) : t.weight .holder = 0 := by
  show t.holdsMutex.toNat = 0
  rw [h]
  rfl

section Steps

variable {m : ServiceLifecycle} {t t' : Task} {rest : Role → Nat}

/-- A task that holds the mutex finds it held. -/
theorem LifecycleInv.locked_of_pos {n : Role → Nat} (hinv : LifecycleInv m n)
    (hpos : 0 < n .holder) :
    m.locked = true := by
  rw [hinv.mutex] at hpos
  cases hlocked : m.locked with
  | true => rfl
  | false => exact absurd hpos (by simp [hlocked])

theorem LifecycleInv.locked (hinv : LifecycleInv m (t.weight + rest)) (ht : t.holdsMutex = true) :
    m.locked = true := by
  refine hinv.locked_of_pos ?_
  rw [Pi.add_apply, (weight_of_holdsMutex ht).2.2]
  omega

theorem Quiet.stepped (h : Quiet m.shared t s t') (ht : t.holdsMutex = false)
    (hinv : LifecycleInv m (t.weight + rest)) :
    Stepped m (t.weight + rest) t { m with shared := s } (t'.weight + rest) t' := by
  have haside : Aside m (t.weight + rest) { m with shared := s } (t'.weight + rest) := by
    refine ⟨h.phase, rfl, rfl, ?_⟩
    intro hphase
    exact Nat.add_le_add_right (h.guard hphase) _
  refine ⟨?_, h.plain.1 _ _, haside.forward, fun _ _ => haside, fun r hr => absurd hr (h.plain.2 r)⟩
  have hcounted := hinv.counted
  have hactive := h.active
  have hmutex := hinv.mutex
  simp only [Pi.add_apply, weight_holder ht] at hcounted hmutex
  refine ⟨?_, ?_, ?_, hinv.generation, ?_, ?_, ?_⟩
  · show s.active = t'.weight .guard + rest .guard + (t'.weight .entering + rest .entering)
    omega
  · rw [Pi.add_apply, weight_holder h.holder]
    exact hmutex
  · exact hinv.phase.trans h.phase.symm
  · intro hstopping
    have hbefore : m.shared.phase = .stopping := h.phase.symm.trans hstopping
    exact haside.guard_zero (by simp [hbefore]) (hinv.stopped hbefore)
  · intro hwatched
    exact h.phase.trans (hinv.watched hwatched)
  · intro hlocked
    exact haside.settled (hinv.settled hlocked)

/-- The tally stays while the holder of the mutex keeps it. -/
theorem weight_eq_of_holdsMutex (ht : t.holdsMutex = true) (ht' : t'.holdsMutex = true) :
    t'.weight = t.weight := by
  obtain ⟨hguard, hentering, hholder⟩ := weight_of_holdsMutex ht
  obtain ⟨hguard', hentering', hholder'⟩ := weight_of_holdsMutex ht'
  ext role
  cases role with
  | guard => rw [hguard, hguard']
  | entering => rw [hentering, hentering']
  | holder => rw [hholder, hholder']

theorem ne_finished_of_holdsMutex {answer : Answer} (h : t.holdsMutex = true) :
    t ≠ .finished answer := by
  rintro rfl
  exact absurd h (by simp [holdsMutex])

theorem Held.stepped {m' : ServiceLifecycle} (h : Held m (t.weight + rest) m' t')
    (ht : t.holdsMutex = true) : Stepped m (t.weight + rest) t m' (t'.weight + rest) t' := by
  rw [weight_eq_of_holdsMutex ht h.holder]
  refine ⟨h.inv, h.asserts, h.forward, ?_, fun _ hr =>
    absurd hr (ne_finished_of_holdsMutex h.holder)⟩
  intro hnot
  rw [ht] at hnot
  cases hnot

theorem Entered.stepped {transition : Transition} {r : TransitionState × Task}
    (hinv : LifecycleInv m ((locking transition).weight + rest)) (hlocked : m.locked = false)
    (h : Entered m ((locking transition).weight + rest) r) :
    Stepped m ((locking transition).weight + rest) (.locking transition) (m.lockedWith r.1)
      (r.2.weight + rest) r.2 := by
  obtain ⟨hguard, hentering, hholder⟩ := weight_of_holdsMutex h.holder
  have hsame : (r.2.weight + rest) .guard = ((locking transition).weight + rest) .guard := by
    rw [Pi.add_apply, hguard]
    rfl
  have hle : m.transition.drainGeneration ≤ r.1.drainGeneration := by
    rcases h.generation with heq | ⟨-, hle⟩
    · exact Nat.le_of_eq (by rw [heq])
    · exact hle
  refine ⟨?_, ?_, ⟨id, fun _ => Nat.le_of_eq hsame, id, Nat.le_refl _, ?_⟩, ?_,
    fun _ hr => absurd hr (ne_finished_of_holdsMutex h.holder)⟩
  · have hcounted := hinv.counted
    have hmutex := hinv.mutex
    rw [hlocked] at hmutex
    refine ⟨?_, ?_, h.phase.trans hinv.phase, Nat.le_trans hinv.generation hle, ?_,
      hinv.watched, ?_⟩
    · rw [hsame, Pi.add_apply r.2.weight rest, hentering]
      exact hcounted
    · rw [Pi.add_apply, hholder]
      change 0 + rest .holder = 0 at hmutex
      show 1 + rest .holder = 1
      omega
    · rw [hsame]
      exact hinv.stopped
    · intro hunlocked
      exact absurd hunlocked (by simp [ServiceLifecycle.lockedWith])
  · exact h.asserts.aside h.holder ⟨rfl, rfl, rfl, fun _ => Nat.le_of_eq hsame⟩
  · intro drainGeneration _ hdrained hgeneration hphase
    rw [hsame]
    rcases h.generation with heq | ⟨hrunning, -⟩
    · exact hdrained ((congrArg TransitionState.drainGeneration heq).symm.trans hgeneration) hphase
    · exact absurd hrunning hphase
  · intro _ hnot
    rw [hlocked] at hnot
    cases hnot

/-- Releasing the mutex. -/
theorem stepped_unlock (hinv : LifecycleInv m (t.weight + rest)) (ht : t.holdsMutex = true)
    (hsettled : Settled m) (hweight : t'.weight = 0)
    (ha : t'.Asserts { m with locked := false } rest)
    (hreturns : ∀ result, t' = .finished (.drain result) → t = .unlocking (.drain result)) :
    Stepped m (t.weight + rest) t { m with locked := false } (t'.weight + rest) t' := by
  obtain ⟨hguard, hentering, hholder⟩ := weight_of_holdsMutex ht
  have hmutex := hinv.mutex
  have hcounted := hinv.counted
  rw [hinv.locked ht, Pi.add_apply, hholder] at hmutex
  rw [hweight, zero_add]
  have hsame : (t.weight + rest) .guard = rest .guard := by
    rw [Pi.add_apply, hguard, zero_add]
  refine ⟨⟨?_, ?_, hinv.phase, hinv.generation, ?_, hinv.watched, fun _ => hsettled⟩, ha,
    ⟨id, fun _ => Nat.le_of_eq hsame.symm, id, Nat.le_refl _, ?_⟩, ?_, fun r hr =>
    ⟨hreturns r hr, rfl⟩⟩
  · rw [hsame, Pi.add_apply, hentering, zero_add] at hcounted
    exact hcounted
  · change 1 + rest .holder = 1 at hmutex
    show rest .holder = 0
    omega
  · intro hstopping
    rw [← hsame]
    exact hinv.stopped hstopping
  · intro drainGeneration _ hdrained hgeneration hphase
    rw [← hsame]
    exact hdrained hgeneration hphase
  · intro hnot
    rw [ht] at hnot
    cases hnot

/-- Only a task that waits can do anything but proceed. -/
theorem Task.waits_or_proceeds {k : Choice} {r : ServiceLifecycle × Task}
    (h : t.next k m = some r) :
    (∃ g point, t = .waiting g point) ∨ (∀ g point, t ≠ .waiting g point) ∧ ∃ tick,
    k = .proceed tick := by
  cases t with
  | waiting g point => exact .inl ⟨g, point, rfl⟩
  | _ =>
    cases k with
    | proceed tick => exact .inr ⟨nofun, tick, rfl⟩
    | _ => exact absurd h (by simp [next])

/-- **One step.** It keeps the invariant, comes to a point whose assertion holds, and leaves the
    others what they rely on. -/
theorem Task.next_stepped {k : Choice} {m' : ServiceLifecycle}
    (hinv : LifecycleInv m (t.weight + rest)) (ha : t.Asserts m (t.weight + rest))
    (h : t.next k m = some (m', t')) : Stepped m (t.weight + rest) t m' (t'.weight + rest) t' := by
  rcases waits_or_proceeds h with ⟨drainGeneration, point, rfl⟩ | ⟨hmoves, tick, rfl⟩
  · rw [next, map_eq_some_iff] at h
    obtain ⟨u, hwait, hu⟩ := h
    cases hu
    obtain ⟨hweight, hasserts, hsilent⟩ := waitNext_asserts hinv ha hwait
    have hsame : (waiting drainGeneration point).weight = t'.weight := by
      rw [hweight]
      ext role
      cases role <;> rfl
    rw [hsame] at hinv hasserts ⊢
    exact ⟨hinv, hasserts, .refl _ _, fun _ _ => ⟨rfl, rfl, rfl, fun _ => Nat.le_refl _⟩,
      fun r hr => absurd hr (hsilent r)⟩
  cases t with
  | entering point =>
    cases h
    refine (enterNext_quiet ?_).stepped rfl hinv
    have hcounted := hinv.counted
    simp only [Pi.add_apply] at hcounted
    omega
  | observing point after =>
    cases h
    exact (observeNext_quiet tick m.shared point after).stepped rfl hinv
  | notifyingWaiters by_ =>
    cases h
    have hquiet : Quiet m.shared (.notifyingWaiters by_)
        { m.shared with zeroActive := m.shared.zeroActive + 1 } (.notifyingOne by_) :=
      .of_weight
    exact hquiet.stepped rfl hinv
  | notifyingOne by_ =>
    cases h
    have hquiet : Quiet m.shared (.notifyingOne by_) { m.shared with idleZeroActive := true }
        by_.returned := .of_returned by_ rfl rfl rfl rfl
    exact hquiet.stepped rfl hinv
  | guard =>
    cases h
    refine (decrementActive_quiet .guardDrop ?_ rfl).stepped rfl hinv
    have hcounted := hinv.counted
    change m.shared.active = 1 + rest .guard + (0 + rest .entering) at hcounted
    omega
  | locking transition =>
    simp only [next] at h
    split at h
    · cases h
    next hlocked =>
    rw [Bool.not_eq_true] at hlocked
    cases h
    exact (enter_entered hinv (hinv.settled hlocked) ha).stepped hinv hlocked
  | publishing point publication =>
    have hr : publishNext m publication point = (m', t') := some.inj h
    have hheld := publishNext_held hinv (hinv.locked rfl) ha
    rw [hr] at hheld
    exact hheld.stepped rfl
  | checkingActive check =>
    cases h
    exact (next_held hinv ha).stepped rfl
  | snapshotting point =>
    cases h
    exact (snapshotNext_held hinv ha).stepped rfl
  | unlockingToWait drainGeneration =>
    cases h
    exact stepped_unlock hinv rfl ha.1 (by ext role; cases role <;> rfl) ha.2 nofun
  | unlocking answer =>
    cases h
    refine stepped_unlock hinv rfl ha.1 (by ext role; cases role <;> rfl) trivial ?_
    intro result hanswer
    cases hanswer
    rfl
  | waiting g point => exact absurd rfl (hmoves g point)
  | finished answer => exact absurd h (by simp [next])

end Steps

theorem lifecycle_outline : Outline start next weight LifecycleInv Asserts where
  weightless c := by
    ext role
    cases c <;> cases role <;> rfl
  call m n c _ := by cases c <;> trivial
  own k m t rest m' t' hinv ha h :=
    have hstep := next_stepped hinv ha h
    ⟨hstep.inv, hstep.asserts⟩
  other k m t u rest m' t' hinv ha hu h := by
    have hstep := next_stepped hinv ha h
    cases hholds : u.holdsMutex with
    | false => exact hu.forward hholds hstep.forward
    | true =>
      -- the mutex is taken, so the task that moved did not have it
      have hholder := (weight_of_holdsMutex hholds).2.2
      have hlocked : m.locked = true := hinv.locked_of_pos
        (by simp only [Pi.add_apply, hholder]; omega)
      have ht : t.holdsMutex = false := by
        rw [← Bool.not_eq_true]
        intro ht
        have hsum := hinv.mutex
        simp only [Pi.add_apply, hholder, (weight_of_holdsMutex ht).2.2, hlocked,
          Bool.toNat_true] at hsum
        omega
      exact hu.aside hholds (hstep.aside ht hlocked)

/-- All assertions hold in a pool. -/
abbrev LifecyclePool.Sound (p : LifecyclePool) : Prop := Asserted weight LifecycleInv Asserts p

theorem sound_new (tick : Nat) : (new tick).Sound := by
  exact ⟨⟨rfl, rfl, rfl, Nat.le_refl _, nofun, nofun, fun _ _ => rfl⟩, nofun⟩

theorem sound_step (p : LifecyclePool) (move : LifecycleMove) (q : LifecyclePool) (hp : p.Sound)
    (h : lifecycleStep p move = some q) : q.Sound :=
  lifecycle_outline.step p move q hp h

theorem sound_run {tick : Nat} (h : run lifecycleStep (.new tick) moves = some p) : p.Sound :=
  (Along.of_step sound_step (sound_new tick)).last h

/-! ## Runs -/

/-- The phase of a pool. -/
def LifecyclePool.phase (p : LifecyclePool) : LifecyclePhase := p.memory.shared.phase

theorem stepped_of_next {i : Nat} {k : Choice} {m : ServiceLifecycle} {u : Task} (hp : p.Sound)
    (ht : p.tasks[i]? = some t) (hnext : t.next k p.memory = some (m, u)) :
    Stepped p.memory (tally weight p.tasks) t m (tally weight (p.tasks.set i u)) u := by
  obtain ⟨before, after, hl, hset⟩ := exists_split_set ht u
  obtain ⟨hinv, hasserts⟩ := hp
  have ha := hasserts t (List.mem_of_getElem? ht)
  rw [hset]
  rw [hl] at hinv ha ⊢
  rw [tally_split] at hinv ha ⊢
  rw [tally_split]
  exact next_stepped hinv ha hnext

theorem forward_step (hp : p.Sound) (h : lifecycleStep p move = some q) :
    Forward p.memory (tally weight p.tasks) q.memory (tally weight q.tasks) := by
  cases move with
  | call c =>
    cases h
    rw [tally_split, lifecycle_outline.weightless, zero_add, List.append_nil]
    exact .refl _ _
  | advance i k =>
    obtain ⟨t, m, u, ht, hnext, rfl⟩ := taskStep_advance_eq_some.mp h
    exact (stepped_of_next hp ht hnext).forward

/-- Out of `Running`, no step makes a guard. -/
theorem guards_step (hp : p.Sound) (hphase : p.phase ≠ .running)
    (h : lifecycleStep p move = some q) :
    q.guards ≤ p.guards := by
  rw [← tally_guard, ← tally_guard]
  exact (forward_step hp h).guard hphase

/-- While the phase stays closing, a pool without guards stays without. -/
theorem guards_zero_run (hp : p.Sound) (hguards : p.guards = 0)
    (hclosing : Along lifecycleStep (fun s => s.phase.isClosing = true) p moves)
    (h : run lifecycleStep p moves = some q) : q.guards = 0 := by
  induction moves generalizing p with
  | nil =>
    cases h
    exact hguards
  | cons move moves ih =>
    rw [run, bind_eq_some_iff] at h
    obtain ⟨s, hs, hrest⟩ := h
    have hle := guards_step hp (ne_running_of_isClosing hclosing.1) hs
    exact ih (sound_step p move s hp hs) (by omega) (hclosing.2 s hs) hrest

/-- `Stopping` is never left. -/
theorem stopping_run (hp : p.Sound) (hphase : p.phase = .stopping)
    (h : run lifecycleStep p moves = some q) :
    q.Sound ∧ q.phase = .stopping := by
  have hstep : ∀ (s : LifecyclePool) (move : LifecycleMove) (t : LifecyclePool),
      s.Sound ∧ s.phase = .stopping → lifecycleStep s move = some t → t.Sound ∧
      t.phase = .stopping := by
    intro s move t hs ht
    exact ⟨sound_step s move t hs.1 ht, (forward_step hs.1 ht).stopped hs.2⟩
  exact (Along.of_step hstep ⟨hp, hphase⟩).last h

theorem guards_of_stopping (hp : p.Sound) (hphase : p.phase = .stopping) : p.guards = 0 := by
  rw [← tally_guard]
  exact hp.1.stopped hphase

/-- With this move call `i` of `try_enter` returns `Ok`. -/
def ReturnsGuard (p q : LifecyclePool) (i : Nat) : Prop :=
  p.tasks[i]? ≠ some .guard ∧ q.tasks[i]? = some .guard

/-- With this move call `i` of `begin_drain` returns this outcome. -/
def ReturnsDrain (p q : LifecyclePool) (i : Nat) (outcome : DrainOutcome) : Prop :=
  p.tasks[i]? ≠ some (.finished (.drain (.ok outcome))) ∧
    q.tasks[i]? = some (.finished (.drain (.ok outcome)))

theorem guards_pos {i : Nat} (h : p.tasks[i]? = some .guard) : 0 < p.guards :=
  List.countP_pos_iff.mpr ⟨.guard, List.mem_of_getElem? h, rfl⟩

/-- A call that returns from `begin_drain` with a completed drain has the mutex until then, in a
    closing phase and with no guard alive. -/
theorem returnsDrain_completed {i : Nat} (hp : p.Sound) (h : lifecycleStep p move = some q)
    (hreturns : ReturnsDrain p q i .completed) : q.phase.isClosing = true ∧ q.guards = 0 := by
  obtain ⟨hbefore, hafter⟩ := hreturns
  cases move with
  | call c =>
    cases h
    rcases Outcome.of_getElem?_concat hafter with hsame | ⟨-, hnew⟩
    · exact absurd hsame hbefore
    · cases c <;> cases hnew
  | advance j k =>
    have hforward := forward_step hp h
    obtain ⟨t, m, u, ht, hnext, rfl⟩ := taskStep_advance_eq_some.mp h
    rcases eq_or_ne j i with rfl | hne
    · have hlt : j < p.tasks.length := (List.getElem?_eq_some_iff.mp ht).1
      rw [List.getElem?_set_self hlt, some.injEq] at hafter
      obtain ⟨rfl, rfl⟩ := (stepped_of_next hp ht hnext).returns _ hafter
      obtain ⟨hphase, hguard⟩ := (hp.2 _ (List.mem_of_getElem? ht)).2 rfl
      refine ⟨hphase, ?_⟩
      have hle := hforward.guard (ne_running_of_isClosing hphase)
      rw [tally_guard ⟨_, p.tasks.set j u⟩] at hle
      omega
    · rw [List.getElem?_set_ne hne] at hafter
      exact absurd hafter hbefore

/-- **Safety of the lifecycle.** In every interleaving: `active` is the number of live guards and of
    calls that have counted themselves and are not yet admitted or rolled back; once the phase is
    `Stopping`, no guard is alive and no call of `try_enter` returns `Ok` any more; and when
    `begin_drain` returns `Completed`, no guard is alive, then and for as long as the phase is still
    `Draining`, `AwaitingCancellation` or `Stopping`. -/
theorem lifecycle_safe (tick : Nat) (moves : List LifecycleMove) (p : LifecyclePool)
    (hrun : run lifecycleStep (.new tick) moves = some p) :
    p.memory.shared.active = p.guards + p.entering ∧
    (p.phase = .stopping → ∀ later q, run lifecycleStep p later = some q →
      q.guards = 0 ∧ ∀ move r i, lifecycleStep q move = some r → ¬ ReturnsGuard q r i) ∧
    (∀ move q i, lifecycleStep p move = some q → ReturnsDrain p q i .completed →
      q.guards = 0 ∧ ∀ later r, run lifecycleStep q later = some r →
        Along lifecycleStep (fun s => s.phase.isClosing = true) q later → r.guards = 0) := by
  have hp := sound_run hrun
  refine ⟨?_, ?_, ?_⟩
  · rw [← tally_guard, ← tally_entering]
    exact hp.1.counted
  · intro hphase later q hq
    obtain ⟨hsound, hstopping⟩ := stopping_run hp hphase hq
    refine ⟨guards_of_stopping hsound hstopping, ?_⟩
    rintro move r i hr ⟨-, hguard⟩
    have hpos := guards_pos hguard
    have hzero := guards_of_stopping (sound_step q move r hsound hr)
      ((forward_step hsound hr).stopped hstopping)
    omega
  · intro move q i hq hreturns
    obtain ⟨-, hguards⟩ := returnsDrain_completed hp hq hreturns
    refine ⟨hguards, ?_⟩
    intro later r hr hclosing
    exact guards_zero_run (sound_step p move q hp hq) hguards hclosing hr

/-- Task `i` takes `count` steps. -/
def steps (i count : Nat) : List LifecycleMove := List.replicate count (.advance i (.proceed 0))

/-- The service runs, a request is admitted, a drain begins and waits, and the guard is dropped. All
    that is left is that the drain releases the mutex and returns. -/
def drainedMoves : List LifecycleMove :=
  .call .markRunning :: steps 0 10 ++ (.call .tryEnter :: steps 1 5) ++
    (.call .beginDrain :: steps 2 9) ++ steps 1 5 ++ steps 2 4

theorem lifecycle_safe_drained : ∃ p q, run lifecycleStep (.new 0) drainedMoves = some p ∧
    lifecycleStep p (.advance 2 (.proceed 0)) = some q ∧ ReturnsDrain p q 2 .completed ∧
    p.memory.shared.active = p.guards + p.entering ∧ q.guards = 0 := by
  obtain ⟨p, hrun⟩ : ∃ p, run lifecycleStep (.new 0) drainedMoves = some p :=
    isSome_iff_exists.mp (by decide +kernel)
  have hq : ((run lifecycleStep (.new 0) drainedMoves).bind fun p =>
      lifecycleStep p (.advance 2 (.proceed 0))).isSome = true := by decide +kernel
  have hbefore : ((run lifecycleStep (.new 0) drainedMoves).bind fun p => p.tasks[2]?) =
      some (.unlocking (.drain (.ok .completed))) := by decide +kernel
  have hafter : ((run lifecycleStep (.new 0) drainedMoves).bind fun p =>
      (lifecycleStep p (.advance 2 (.proceed 0))).bind fun q => q.tasks[2]?) =
      some (.finished (.drain (.ok .completed))) := by decide +kernel
  rw [hrun, bind_some] at hq hbefore hafter
  obtain ⟨q, hstep⟩ := isSome_iff_exists.mp hq
  rw [hstep, bind_some] at hafter
  have hreturned : ReturnsDrain p q 2 .completed := ⟨by rw [hbefore]; simp, hafter⟩
  have hsafe := lifecycle_safe 0 drainedMoves p hrun
  exact ⟨p, q, hrun, hstep, hreturned, hsafe.1, (hsafe.2.2 _ q 2 hstep hreturned).1⟩

end Wokcore.Server
