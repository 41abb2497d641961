import Wokcore.Server.LifecycleSafety

/-!
# What `snapshot` returns (`crates/wokcore-server/src/lifecycle/service.rs`)

`ServiceLifecycle::snapshot` takes no lock. It loads the revision, the phase, the active requests,
the phase and the revision again, and starts over unless both pairs agree. `publish_phase` advances
the revision before it stores the phase, so equal revisions do not exclude a store in between, and
the phase may well have been stored after the first load. They exclude a second one: only the holder
of the mutex publishes, and each store has a revision of its own. With one store in between and the
same phase at both ends, the phase was that one when the requests were counted.
-/

set_option autoImplicit false

namespace Wokcore.Server

open Lib Server.Task

variable {t t' : Task} {m m' : ServiceLifecycle} {p q : LifecyclePool} {move : LifecycleMove}

/-! ## The stores of the phase -/

/-- A task that has advanced the revision and not yet set the phase. -/
def Task.isStoring : Task → Bool
  | .publishing .setPhase _ => true
  | _ => false

theorem Task.holdsMutex_of_isStoring (h : t.isStoring = true) : t.holdsMutex = true := by
  unfold Task.isStoring at h
  split at h
  · rfl
  · cases h

def LifecyclePool.isStoring (p : LifecyclePool) : Bool := p.tasks.any Task.isStoring

def LifecyclePool.revision (p : LifecyclePool) : Nat := p.memory.shared.transitionRevision

/-- A step that leaves the revision sets the phase only as the store that was pending. -/
structure Stores (m : ServiceLifecycle) (t : Task) (m' : ServiceLifecycle) (t' : Task) : Prop where
  revision : m.shared.transitionRevision ≤ m'.shared.transitionRevision
  phase : m'.shared.transitionRevision = m.shared.transitionRevision →
    t'.isStoring = false ∧ (m'.shared.phase = m.shared.phase ∨ t.isStoring = true)

theorem Stores.of_same (hrevision : m'.shared.transitionRevision = m.shared.transitionRevision)
    (hphase : m'.shared.phase = m.shared.phase) (ht : t'.isStoring = false) : Stores m t m' t' :=
  ⟨Nat.le_of_eq hrevision.symm, fun _ => ⟨ht, .inl hphase⟩⟩

theorem publishNext_stores {point : PublishPoint} {publication : Publication}
    (h : publishNext m publication point = (m', t')) :
    Stores m (.publishing point publication) m' t' := by
  cases point with
  | advanceRevision =>
    rw [publishNext] at h
    split at h <;> cases h
    · exact .of_same rfl rfl (by cases publication <;> rfl)
    · grind [Stores, checkedAdd]
  | setPhase =>
    cases h
    exact ⟨Nat.le_refl _, fun _ => ⟨rfl, .inr rfl⟩⟩
  | sendWatch =>
    cases h
    exact .of_same rfl rfl (by cases publication <;> rfl)

theorem next_stores {k : Choice} (h : t.next k m = some (m', t')) : Stores m t m' t' := by
  rcases waits_or_proceeds h with ⟨drainGeneration, point, rfl⟩ | ⟨hmoves, tick, rfl⟩
  · rw [next, Option.map_eq_some_iff] at h
    obtain ⟨u, hwait, hu⟩ := h
    cases hu
    rcases waitNext_eq_some hwait with ⟨point, rfl⟩ | rfl | ⟨event, rfl, -⟩ <;> exact .of_same
      rfl rfl rfl
  cases t with
  | waiting drainGeneration point => exact absurd rfl (hmoves drainGeneration point)
  | finished answer => cases h
  | publishing point publication => exact publishNext_stores (Option.some.inj h)
  | locking transition =>
    simp only [next, Option.ite_none_left_eq_some] at h
    cases h.2
    cases transition <;> exact .of_same rfl rfl (by grind [Transition.enter, Task.isStoring])
  | entering point =>
    cases h
    cases point <;> grind [enterNext, decrementActive, checkedDecrement, Stores,
      ServiceLifecycle.withShared, Task.isStoring, Decrementer.returned]
  | observing point after =>
    cases h
    cases point with
    | storeTick => exact .of_same rfl rfl rfl
    | advanceRevision => rcases after with _ | ⟨_ | _ | _, _ | _⟩ <;> exact .of_same rfl rfl rfl
  | guard =>
    cases h
    grind [decrementActive, checkedDecrement, Stores, ServiceLifecycle.withShared, Task.isStoring,
      Decrementer.returned]
  | notifyingOne by_ =>
    cases h
    cases by_ <;> exact .of_same rfl rfl rfl
  | checkingActive check =>
    cases h
    cases check <;> exact .of_same rfl rfl (by grind [ActiveCheck.next, Task.isStoring])
  | snapshotting point =>
    cases h
    cases point <;> exact .of_same rfl rfl (by grind [snapshotNext, Task.isStoring])
  | notifyingWaiters | unlockingToWait | unlocking =>
    cases h
    exact .of_same rfl rfl rfl

/-- **One store for a revision.** A move that leaves the revision leaves the phase and starts no
    store, or it is the store that was pending, and there is no other. -/
theorem stores_step (hp : p.Sound) (h : lifecycleStep p move = some q) :
    p.revision ≤ q.revision ∧ (q.revision = p.revision →
      q.phase = p.phase ∧ (p.isStoring = false → q.isStoring = false) ∨
        p.isStoring = true ∧ q.isStoring = false) := by
  cases move with
  | call c =>
    cases h
    refine ⟨Nat.le_refl _, fun _ => .inl ⟨rfl, ?_⟩⟩
    intro hp
    cases c <;> simpa [LifecyclePool.isStoring, start, Task.isStoring] using hp
  | advance i k =>
    obtain ⟨t, m, u, ht, hnext, rfl⟩ := taskStep_advance_eq_some.mp h
    obtain ⟨before, after, hl, hset⟩ := exists_split_set ht u
    have hstores := next_stores hnext
    refine ⟨hstores.revision, ?_⟩
    intro hrevision
    obtain ⟨hu, hphase⟩ := hstores.phase hrevision
    have hsplit : ∀ v : Task, (before ++ v :: after).any Task.isStoring =
        (v.isStoring || (before ++ after).any Task.isStoring) := by
      intro v
      simp [Bool.or_left_comm]
    simp only [LifecyclePool.isStoring]
    rw [hset, hl, hsplit, hsplit, hu, Bool.false_or, Bool.or_eq_false_iff]
    rcases hphase with hphase | hstoring
    · exact .inl ⟨hphase, And.right⟩
    -- the task that stores holds the mutex, so no other is publishing
    refine .inr ⟨by rw [hstoring, Bool.true_or], ?_⟩
    have hmutex := hp.1.mutex
    have hone := Bool.toNat_le p.memory.locked
    have hcount : tally weight (before ++ after) .holder = (before ++ after).countP holdsMutex :=
      tally_apply plays _ .holder
    rw [hl, tally_split, Pi.add_apply,
      (weight_of_holdsMutex (holdsMutex_of_isStoring hstoring)).2.2, hcount] at hmutex
    have hnone : (before ++ after).countP holdsMutex = 0 := by omega
    rw [List.any_eq_false]
    intro v hv hstoring
    exact List.countP_eq_zero.mp hnone v hv (holdsMutex_of_isStoring hstoring)

/-- **A phase has its revision.** From any moment of a run on the revision does not fall, and while
    it is the same, no store pending at that moment, the phase is the same and no store is
    pending. -/
theorem revision_dates_phase (tick : Nat) (moves : List LifecycleMove) :
    Along lifecycleStep (fun p => ∀ later, Along lifecycleStep (fun q => p.revision ≤ q.revision ∧
      (q.revision = p.revision → p.isStoring = false → q.phase = p.phase ∧ q.isStoring = false))
      p later) (.new tick) moves := by
  refine (Along.of_step sound_step (sound_new tick)).imp fun p hp later => ?_
  refine .imp (fun q h => h.2) (Along.of_step (I := fun q => q.Sound ∧ _) ?_
    ⟨hp, Nat.le_refl _, fun _ h => ⟨rfl, h⟩⟩)
  intro s move t ⟨hs, hle, hsame⟩ hstep
  obtain ⟨hrise, hstores⟩ := stores_step hs hstep
  refine ⟨sound_step s move t hs hstep, Nat.le_trans hle hrise, fun hrevision hnone => ?_⟩
  obtain ⟨hphase, hstoring⟩ := hsame (by omega) hnone
  rcases hstores (by omega) with ⟨hkept, hstill⟩ | ⟨hpending, -⟩
  · exact ⟨hkept.trans hphase, hstill hstoring⟩
  · exact absurd hpending (by simp [hstoring])

/-! ## The reader -/

inductive SnapshotMove where
  /-- A move of the pool. -/
  | other (move : LifecycleMove)
  /-- The reader's next load. -/
  | load

/-- A call of `snapshot` beside a pool: between two of its loads the tasks of the pool move as they
    like. A call made under the mutex is one whose task stands still meanwhile. -/
def snapshotStep : LifecyclePool × SnapshotPoint → SnapshotMove →
    Option (LifecyclePool × SnapshotPoint)
  | (p, point), .other move => (lifecycleStep p move).map (·, point)
  | (p, point), .load =>
      match snapshotNext p.memory.shared point with
      | .snapshotting next => some (p, next)
      | _ => none

variable {Seen : LifecyclePhase → Nat → Prop} {point next last : SnapshotPoint}
  {moves : List SnapshotMove} {r r' : LifecyclePool × SnapshotPoint} {phase : LifecyclePhase}
  {active : Nat} {s : LifecycleSnapshot}

/-- What a reader may rely on that has passed the moments of `Seen`. Between the two loads of the
    phase, as long as the revision is the first one, a phase that is not `before` is there to
    stay. -/
def Reading (Seen : LifecyclePhase → Nat → Prop) (p : LifecyclePool) : SnapshotPoint → Prop
  | .revisionBefore => True
  | .before revision => revision ≤ p.revision
  | .activeRequests revision before =>
      revision ≤ p.revision ∧ (revision = p.revision → p.phase = before ∨ p.isStoring = false)
  | .after revision before active =>
      revision ≤ p.revision ∧
        (revision = p.revision → Seen before active ∨ p.phase ≠ before ∧ p.isStoring = false)
  | .revisionAfter revision before active after =>
      revision ≤ p.revision ∧ (revision = p.revision → before = after → Seen before active)

theorem Reading.other (hpoint : Reading Seen p point) (hp : p.Sound)
    (h : lifecycleStep p move = some q) :
    Reading Seen q point := by
  obtain ⟨hle, hsame⟩ := stores_step hp h
  cases point with
  | revisionBefore => trivial
  | before revision => exact Nat.le_trans hpoint hle
  | activeRequests | after | revisionAfter =>
    obtain ⟨hrevision, hread⟩ := hpoint
    refine ⟨Nat.le_trans hrevision hle, ?_⟩
    intro hlast
    have hq : q.revision = p.revision := by omega
    grind

theorem Reading.load (hpoint : Reading Seen p point)
    (h : snapshotNext p.memory.shared point = .snapshotting next) :
    Reading (fun phase active => Seen phase active ∨ p.phase = phase ∧ p.memory.shared.active =
      active) p next := by
  cases point with
  | revisionBefore =>
    cases h
    exact Nat.le_refl p.revision
  | before revision =>
    cases h
    exact ⟨hpoint, fun _ => .inl rfl⟩
  | activeRequests revision before =>
    cases h
    refine ⟨hpoint.1, ?_⟩
    intro hrevision
    by_cases hphase : p.phase = before
    · exact .inl (.inr ⟨hphase, rfl⟩)
    · exact .inr ⟨hphase, (hpoint.2 hrevision).resolve_left hphase⟩
  | after revision before active =>
    cases h
    refine ⟨hpoint.1, ?_⟩
    intro hrevision hafter
    rcases hpoint.2 hrevision with hseen | ⟨hphase, -⟩
    · exact .inl hseen
    · exact absurd hafter.symm hphase
  | revisionAfter revision before active after =>
    rw [snapshotNext] at h
    split at h <;> cases h
    trivial

/-- The run passes a moment at which the service is in this phase and has that many active
    requests. -/
def Passes (r : LifecyclePool × SnapshotPoint) (moves : List SnapshotMove) (phase : LifecyclePhase)
    (active : Nat) : Prop :=
  ∃ before after p point, moves = before ++ after ∧ run snapshotStep r before = some (p, point) ∧
    p.phase = phase ∧ p.memory.shared.active = active

theorem Passes.cons {move : SnapshotMove} (h : Passes r' moves phase active)
    (hstep : snapshotStep r move = some r') : Passes r (move :: moves) phase active := by
  obtain ⟨before, after, p, point, rfl, hrun, hmoment⟩ := h
  refine ⟨move :: before, after, p, point, rfl, ?_, hmoment⟩
  rw [run, hstep, Option.bind_some, hrun]

theorem seen_or_passes (hp : p.Sound) (hpoint : Reading Seen p point)
    (h : run snapshotStep (p, point) moves = some (q, last))
    (hreturn : snapshotNext q.memory.shared last = .unlocking (.snapshot (.ok s))) :
    Seen s.phase s.activeRequests ∨ Passes (p, point) moves s.phase s.activeRequests := by
  induction moves generalizing p point Seen with
  | nil =>
    cases h
    cases last with
    | revisionBefore | before | activeRequests | after => cases hreturn
    | revisionAfter revision before active after =>
      rw [snapshotNext] at hreturn
      split at hreturn <;> cases hreturn
      next hsame => exact .inl (hsame.2 ▸ hpoint.2 hsame.1 hsame.2)
  | cons move moves ih =>
    rw [run, Option.bind_eq_some_iff] at h
    obtain ⟨r, hr, hrest⟩ := h
    cases move with
    | other move =>
      obtain ⟨p', hp', rfl⟩ := Option.map_eq_some_iff.mp hr
      exact (ih (sound_step p move p' hp hp') (hpoint.other hp hp') hrest).imp_right (·.cons hr)
    | load =>
      have hload := hr
      rw [snapshotStep] at hload
      split at hload <;> cases hload
      next next hnext =>
      rcases ih hp (hpoint.load hnext) hrest with (hseen | hmoment) | hpasses
      · exact .inl hseen
      · exact .inr ⟨[], _, p, point, rfl, rfl, hmoment⟩
      · exact .inr (hpasses.cons hr)

/-- **A snapshot was so.** Whatever the other calls did before and do between its loads, `snapshot`
    returns a phase and a count that the service had at one moment of the call. -/
theorem snapshot_passed {tick : Nat} {earlier : List LifecycleMove}
    (hp : run lifecycleStep (.new tick) earlier = some p)
    (h : run snapshotStep (p, .revisionBefore) moves = some (q, last))
    (hreturn : snapshotNext q.memory.shared last = .unlocking (.snapshot (.ok s))) :
    Passes (p, .revisionBefore) moves s.phase s.activeRequests := by
  have hseen : Reading (fun _ _ => False) p .revisionBefore := trivial
  exact (seen_or_passes (sound_run hp) hseen h hreturn).resolve_left id

/-- `mark_running` takes the mutex and publishes between the two loads of the phase, and the call
    starts over. -/
theorem snapshot_passed_after_retry :
    ∃ p, run lifecycleStep (.new 0) [.call .markRunning] = some p ∧
      Passes (p, .revisionBefore)
        [.load, .load, .other (.advance 0 (.proceed 0)), .other (.advance 0 (.proceed 0)), .load,
          .other (.advance 0 (.proceed 0)), .load, .load, .load, .load, .load, .load] .running 0 :=
  ⟨_, rfl, snapshot_passed (s := ⟨.running, 0⟩)
    (rfl : run lifecycleStep (.new 0) [.call .markRunning] = some _) rfl rfl⟩

end Wokcore.Server
