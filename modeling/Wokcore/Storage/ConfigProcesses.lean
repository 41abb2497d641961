import Wokcore.Lib.Tasks
import Wokcore.Storage.ConfigStore

/-!
# Commits of several processes

Any number of processes commit to one configuration file. A commit is taken apart into the steps
another process can see or that can fail: it validates its candidate, waits for the lock file, reads
the document, compares the revision, writes the temporary file, renames it over the document, syncs
the directory and gives the lock back. Each system call can fail, and a process can die at any
point, which gives its lock back.

The commits are tasks over one memory, the document and the lock. The memory also remembers the
commits that have replaced the document, in order. The invariant is the chain they form: the commit
at place `r` was made with expected revision `r`, and the document holds the candidate of the last
one at the revision that is the length of the chain. Only the holder of the lock can replace the
document, so what a commit read stays true until its rename.
-/

set_option autoImplicit false

namespace Wokcore.Storage

open Lib Wokcore.Core List

/-! ## Steps of a commit -/

/-- The arguments of a commit. -/
structure CommitCall where
  expectedRevision : Nat
  candidate : AppConfig
deriving DecidableEq

/-- What the call stores, if it stores anything. -/
def CommitCall.committed (c : CommitCall) : VersionedConfig := ⟨c.expectedRevision + 1, c.candidate⟩

/-- How far a commit is. -/
inductive CommitPhase (codec : Codec) where
  | called
  | locking
  | locked
  | loaded (current : VersionedConfig)
  | writing (document : codec.Document)
  | replacing (document : codec.Document)
  | syncing
  | unlocking (result : Result VersionedConfig)
  | returned (result : Result VersionedConfig)
  | died

/-- A commit that is under way, and whether its rename has taken place. -/
structure CommitTask (codec : Codec) where
  call : CommitCall
  phase : CommitPhase codec
  renamed : Bool

def CommitTask.start (codec : Codec) (call : CommitCall) : CommitTask codec :=
    ⟨call, .called, false⟩

/-- Whether the lock file is held in a phase. -/
def CommitPhase.holds {codec : Codec} : CommitPhase codec → Bool
  | .called | .locking | .returned _ | .died => false
  | .locked | .loaded _ | .writing _ | .replacing _ | .syncing | .unlocking _ => true

/-- The document and the lock, with the commits that have replaced the document. -/
structure ConfigDisk (codec : Codec) where
  document : Disk codec
  locked : Bool
  chain : List CommitCall

def ConfigDisk.initial (codec : Codec) : ConfigDisk codec := ⟨none, false, []⟩

/-- What becomes of the system call of a step, or of the process. -/
inductive CallOutcome where
  | succeeds
  | fails
  | dies
deriving DecidableEq

/-- The answer of a commit: a failure to unlock replaces a success. -/
def afterUnlock (fails : Bool) : Result VersionedConfig → Result VersionedConfig
  | .error e => .error e
  | .ok committed => if fails then .error .io else .ok committed

section Model

variable (parseUrl : UrlParser) (codec : Codec)

/-- What `commit_locked` does with the configuration it has read. -/
def CommitCall.prepare (c : CommitCall) (current : VersionedConfig) : Result codec.Document :=
  if c.expectedRevision ≠ current.revision
    then .error (.revisionConflict c.expectedRevision current.revision)
  else
    match checkedAdd u64Max current.revision 1 with
    | none => .error (.invalidConfig "configuration revision cannot exceed u64::MAX")
    | some revision =>
        match codec.encode ⟨revision, c.candidate⟩ with
        | none => .error (.serializeConfig "configuration could not be encoded")
        | some document => .ok document

/-- The next step of a commit whose process lives. -/
def CommitTask.advance (fails : Bool) (m : ConfigDisk codec) (t : CommitTask codec) :
    Option (ConfigDisk codec × CommitTask codec) :=
  match t.phase with
  | .called =>
      match validate parseUrl t.call.candidate with
      | .error e => some (m, { t with phase := .returned (.error e) })
      | .ok () => some (m, { t with phase := .locking })
  | .locking =>
      if fails then some (m, { t with phase := .returned (.error .io) })
      else if m.locked then none
      else some ({ m with locked := true }, { t with phase := .locked })
  | .locked =>
      match load parseUrl codec m.document fails with
      | .error e => some (m, { t with phase := .unlocking (.error e) })
      | .ok current => some (m, { t with phase := .loaded current })
  | .loaded current =>
      match t.call.prepare codec current with
      | .error e => some (m, { t with phase := .unlocking (.error e) })
      | .ok document => some (m, { t with phase := .writing document })
  | .writing document =>
      if fails then some (m, { t with phase := .unlocking (.error .io) })
      else some (m, { t with phase := .replacing document })
  | .replacing document =>
      if fails then some (m, { t with phase := .unlocking (.error .io) })
      else some ({ m with document := some document, chain := m.chain ++ [t.call] },
        { t with phase := .syncing, renamed := true })
  | .syncing =>
      if fails then some (m, { t with phase := .unlocking (.error .io) })
      else some (m, { t with phase := .unlocking (.ok t.call.committed) })
  | .unlocking result =>
      -- Closing the lock file gives the lock back, whether or not unlocking it succeeded.
      some ({ m with locked := false }, { t with phase := .returned (afterUnlock fails result) })
  | .returned _ | .died => none

/-- The end of a process in the middle of a commit. -/
def CommitTask.die (m : ConfigDisk codec) (t : CommitTask codec) :
    Option (ConfigDisk codec × CommitTask codec) :=
  match t.phase with
  | .returned _ | .died => none
  | phase => some ({ m with locked := m.locked && !phase.holds }, { t with phase := .died })

def CommitTask.next (outcome : CallOutcome) (m : ConfigDisk codec) (t : CommitTask codec) :
    Option (ConfigDisk codec × CommitTask codec) :=
  match outcome with
  | .succeeds => t.advance parseUrl codec false m
  | .fails => t.advance parseUrl codec true m
  | .dies => t.die codec m

/-- The commits of all processes over one file. -/
abbrev ConfigPool (codec : Codec) := TaskPool (ConfigDisk codec) (CommitTask codec)

def ConfigPool.initial (codec : Codec) : ConfigPool codec := ⟨.initial codec, []⟩

def configStep : ConfigPool codec → TaskMove CommitCall CallOutcome → Option (ConfigPool codec) :=
  taskStep (CommitTask.start codec) (CommitTask.next parseUrl codec)

/-- The pool after some moves; a task that cannot move, because it waits for the lock or has ended,
    stays. -/
def configRun (p : ConfigPool codec) (moves : List (TaskMove CommitCall CallOutcome)) :
    ConfigPool codec :=
  moves.foldl (fun p move => (configStep parseUrl codec p move).getD p) p

end Model

/-! ## A commit that runs alone -/

open CommitTask (advance)

section Alone

variable (parseUrl : UrlParser) (codec : Codec)

/-- The moves of a commit that is not disturbed, each with the fault of its system call. -/
def soloMoves (faults : CommitFaults) : List (TaskMove CommitCall CallOutcome) :=
  [false, faults.lock, faults.read, false, faults.write, faults.rename, faults.syncParent,
    faults.unlock].map fun fails => .advance 0 (if fails then .fails else .succeeds)

/-- One move of it. -/
def soloStep (s : ConfigDisk codec × CommitTask codec) (fails : Bool) :
    ConfigDisk codec × CommitTask codec :=
  (s.2.advance parseUrl codec fails s.1).getD s

theorem configRun_solo (m : ConfigDisk codec) (t : CommitTask codec) (faults : List Bool) :
    configRun parseUrl codec ⟨m, [t]⟩
      (faults.map fun fails => .advance 0 (if fails then .fails else .succeeds)) =
        ⟨(faults.foldl (soloStep parseUrl codec) (m, t)).1,
          [(faults.foldl (soloStep parseUrl codec) (m, t)).2]⟩ := by
  induction faults generalizing m t with
  | nil => rfl
  | cons fails faults ih =>
    have hstep :
        (configStep parseUrl codec ⟨m, [t]⟩ (.advance 0 (if fails then .fails else .succeeds))).getD
        ⟨m, [t]⟩ = ⟨(soloStep parseUrl codec (m, t) fails).1,
          [(soloStep parseUrl codec (m, t) fails).2]⟩ := by
      have hnext : t.next parseUrl codec (if fails then .fails else .succeeds) m =
          t.advance parseUrl codec fails m := by
        cases fails with
        | false | true => rfl
      show (taskStep _ _ _ _).getD _ = _
      simp only [taskStep, getElem?_cons_zero, hnext, soloStep]
      cases t.advance parseUrl codec fails m with
      | none | some => rfl
    show configRun parseUrl codec ((configStep parseUrl codec _ _).getD _) _ = _
    rw [hstep]
    exact ih _ _

theorem commitLocked_eq_prepare (disk : Disk codec) (c : CommitCall) (faults : CommitFaults) :
    commitLocked parseUrl codec disk c.expectedRevision c.candidate faults =
      match load parseUrl codec disk faults.read with
      | .error e => (disk, .error e)
      | .ok current =>
          match c.prepare codec current with
          | .error e => (disk, .error e)
          | .ok document =>
              match replaceAtomically codec disk document faults with
              | (disk, .error e) => (disk, .error e)
              | (disk, .ok ()) => (disk, .ok c.committed) := by
  unfold commitLocked CommitCall.prepare
  cases load parseUrl codec disk faults.read with
  | error e => rfl
  | ok current =>
    dsimp only
    split
    · rfl
    · next hrevision =>
      have hsame : c.expectedRevision = current.revision := not_not.mp hrevision
      cases hadd : checkedAdd u64Max current.revision 1 with
      | none => rfl
      | some revision =>
        obtain ⟨-, rfl⟩ := checkedAdd_eq_some.mp hadd
        dsimp only
        rw [CommitCall.committed, hsame]
        cases codec.encode ⟨current.revision + 1, c.candidate⟩ with
        | none | some => rfl

/-- **The steps are those of `commit`.** A commit that nothing disturbs leaves the document and
    gives the answer that `commit` does. -/
theorem configRun_soloMoves (disk : Disk codec) (chain : List CommitCall) (c : CommitCall)
    (faults : CommitFaults) :
    ∃ chain' renamed,
      configRun parseUrl codec ⟨⟨disk, false, chain⟩, [.start codec c]⟩ (soloMoves faults) =
      ⟨⟨(commit parseUrl codec disk c.expectedRevision c.candidate faults).1, false, chain'⟩,
        [⟨c, .returned (commit parseUrl codec disk c.expectedRevision c.candidate faults).2,
          renamed⟩]⟩ := by
  rw [soloMoves, configRun_solo, commit, commitLocked_eq_prepare]
  obtain ⟨lock, read, write, rename, syncParent, unlock⟩ := faults
  simp only [foldl_cons, foldl_nil, CommitTask.start]
  -- Up to the rename every failure is an early answer; from there on the document is replaced.
  cases hvalid : validate parseUrl c.candidate with
  | error e => exact ⟨chain, false, by simp [soloStep, advance, hvalid]⟩
  | ok u =>
  cases lock with
  | true => exact ⟨chain, false, by simp [soloStep, advance, hvalid]⟩
  | false =>
  cases hload : load parseUrl codec disk read with
  | error e => exact ⟨chain, false, by simp [soloStep, advance, afterUnlock, hvalid, hload]⟩
  | ok current =>
  cases hprepare : c.prepare codec current with
  | error e =>
    exact ⟨chain, false, by simp [soloStep, advance, afterUnlock, hvalid, hload, hprepare]⟩
  | ok document =>
  cases write with
  | true =>
    exact ⟨chain, false, by
      simp [soloStep, advance, afterUnlock, replaceAtomically, hvalid, hload, hprepare]⟩
  | false =>
  cases rename with
  | true =>
    exact ⟨chain, false, by
      simp [soloStep, advance, afterUnlock, replaceAtomically, hvalid, hload, hprepare]⟩
  | false =>
  cases syncParent with
  | true =>
    exact ⟨chain ++ [c], true, by
      simp [soloStep, advance, afterUnlock, replaceAtomically, hvalid, hload, hprepare]⟩
  | false =>
    refine ⟨chain ++ [c], true, ?_⟩
    cases unlock with
    | true | false =>
      simp [soloStep, advance, afterUnlock, replaceAtomically, hvalid, hload, hprepare]

end Alone

/-! ## Assertions -/

variable {parseUrl : UrlParser} {codec : Codec}

/-- A document that was encoded from a valid configuration is loaded as that configuration. -/
theorem load_encoded {v : VersionedConfig} {document : codec.Document}
    (hvalid : validate parseUrl v.config = .ok ()) (hencode : codec.encode v = some document) :
    load parseUrl codec (some document) false = .ok v := by
  unfold load
  simp only [Bool.false_eq_true, if_false, codec.round_trip _ _ hencode, hvalid]

/-- What a chain of commits leaves in the file. -/
def latestConfig (chain : List CommitCall) : VersionedConfig :=
  match chain.getLast? with
  | none => ⟨0, .initial⟩
  | some c => c.committed

/-- The chain of commits, and the document it leaves. -/
structure ConfigDisk.Chained (parseUrl : UrlParser) (m : ConfigDisk codec) : Prop where
  place : ∀ r (c : CommitCall), m.chain[r]? = some c → c.expectedRevision = r
  stored : load parseUrl codec m.document false = .ok (latestConfig m.chain)

theorem ConfigDisk.Chained.revision {m : ConfigDisk codec} (h : m.Chained parseUrl) :
    (latestConfig m.chain).revision = m.chain.length := by
  unfold latestConfig
  split
  · next hempty =>
    rw [getLast?_eq_none_iff.mp hempty]
    rfl
  · next c hlast =>
    have hplace := h.place (m.chain.length - 1) c (by rw [← getLast?_eq_getElem?]; exact hlast)
    have hpos : 0 < m.chain.length := length_pos_of_ne_nil
      (by rintro hnil; rw [hnil] at hlast; cases hlast)
    show c.expectedRevision + 1 = m.chain.length
    omega

/-- How often a task holds the lock, and how often it has replaced the document at a revision. -/
def CommitTask.weight (t : CommitTask codec) : Nat × (Nat → Nat) :=
  (t.phase.holds.toNat, fun r => (t.renamed && t.call.expectedRevision == r).toNat)

/-- **The assertion about the file.** The lock is held once or not at all, and the chain has one
    commit for each revision below its length, and none for the others. -/
structure DiskOk (parseUrl : UrlParser) (m : ConfigDisk codec) (n : Nat × (Nat → Nat)) : Prop where
  holders : n.1 = m.locked.toNat
  counted : ∀ r, n.2 r = if r < m.chain.length then 1 else 0
  chained : m.Chained parseUrl

/-- What a commit answers. -/
def Answers (renamed : Bool) (c : CommitCall) (result : Result VersionedConfig) : Prop :=
  if renamed then result = .ok c.committed ∨ result = .error .io else ∃ e, result = .error e

/-- What is known in a phase. -/
def CommitTask.Knows (parseUrl : UrlParser) (m : ConfigDisk codec) (t : CommitTask codec) : Prop :=
  match t.phase with
  | .called => t.renamed = false
  | .locking | .locked => t.renamed = false ∧ validate parseUrl t.call.candidate = .ok ()
  | .loaded current => t.renamed = false ∧ validate parseUrl t.call.candidate = .ok () ∧
      load parseUrl codec m.document false = .ok current
  | .writing document | .replacing document =>
      t.renamed = false ∧ validate parseUrl t.call.candidate = .ok () ∧
      (∃ old, load parseUrl codec m.document false = .ok ⟨t.call.expectedRevision, old⟩) ∧
      codec.encode t.call.committed = some document
  | .syncing => t.renamed = true
  | .unlocking result | .returned result => Answers t.renamed t.call result
  | .died => True

/-- **The assertion about a commit.** -/
structure TaskOk (parseUrl : UrlParser) (m : ConfigDisk codec) (n : Nat × (Nat → Nat))
    (t : CommitTask codec) : Prop where
  recorded : t.renamed = true → t.call ∈ m.chain
  knows : t.Knows parseUrl m

/-! ## Steps -/

section Steps

variable {m m' : ConfigDisk codec} {t t' u : CommitTask codec} {outcome : CallOutcome}
  {c : CommitCall} {document : codec.Document} {renamed : Bool}

/-- A step that leaves the document alone. -/
structure Quiet (parseUrl : UrlParser) (m : ConfigDisk codec) (t : CommitTask codec)
    (m' : ConfigDisk codec) (t' : CommitTask codec) : Prop where
  document : m'.document = m.document
  chain : m'.chain = m.chain
  call : t'.call = t.call
  renamed : t'.renamed = t.renamed
  lock : m'.locked.toNat + t.phase.holds.toNat = m.locked.toNat + t'.phase.holds.toNat
  knows : t'.Knows parseUrl m'

/-- The step that replaces the document. -/
structure Renames (m : ConfigDisk codec) (t : CommitTask codec) (document : codec.Document)
    (m' : ConfigDisk codec) (t' : CommitTask codec) : Prop where
  phase : t.phase = .replacing document
  disk : m' = { m with document := some document, chain := m.chain ++ [t.call] }
  task : t' = { t with phase := .syncing, renamed := true }

theorem prepare_eq_ok {current : VersionedConfig} (h : c.prepare codec current = .ok document) :
    current.revision = c.expectedRevision ∧ codec.encode c.committed = some document := by
  unfold CommitCall.prepare at h
  split at h
  · cases h
  · next hrevision =>
    have hsame : c.expectedRevision = current.revision := not_not.mp hrevision
    split at h
    · cases h
    · next revision hadd =>
      obtain ⟨-, rfl⟩ := checkedAdd_eq_some.mp hadd
      split at h
      · cases h
      · next encoded hencode =>
        cases h
        refine ⟨hsame.symm, ?_⟩
        rw [CommitCall.committed, hsame]
        exact hencode

theorem answers_error {e : StorageError} (h : renamed = false) : Answers renamed c (.error e) := by
  rw [h]
  exact ⟨e, rfl⟩

/-- An answer stays one when the lock file cannot be unlocked. -/
theorem answers_of_unlock {fails : Bool} {result : Result VersionedConfig}
    (h : Answers renamed c result) : Answers renamed c (afterUnlock fails result) := by
  cases renamed with
  | false =>
    obtain ⟨e, rfl⟩ := h
    exact ⟨e, rfl⟩
  | true =>
    rcases h with rfl | rfl
    · cases fails with
      | false => exact .inl rfl
      | true => exact .inr rfl
    · exact .inr rfl

theorem answers_of_returned {result : Result VersionedConfig} (hphase : t.phase = .returned result)
    (h : t.Knows parseUrl m) : Answers t.renamed t.call result := by
  rw [CommitTask.Knows, hphase] at h
  exact h

/-- A step that changes neither the document nor the lock. -/
theorem quiet_of_phase {phase : CommitPhase codec} (hholds : phase.holds = t.phase.holds)
    (hknows : CommitTask.Knows parseUrl m { t with phase }) :
    Quiet parseUrl m t m { t with phase } := by
  refine ⟨rfl, rfl, rfl, rfl, ?_, hknows⟩
  rw [hholds]

section

variable (hlock : t.phase.holds = true → m.locked = true)
include hlock

theorem advance_cases {fails : Bool} (hknows : t.Knows parseUrl m)
    (h : t.advance parseUrl codec fails m = some (m', t')) :
    Quiet parseUrl m t m' t' ∨ ∃ document, Renames m t document m' t' := by
  obtain ⟨call, phase, renamed⟩ := t
  cases phase <;> dsimp only [advance] at h
  case called =>
    have hrenamed : renamed = false := hknows
    split at h
    · next e hvalid =>
      cases h
      exact .inl (quiet_of_phase rfl (answers_error hrenamed))
    · next hvalid =>
      cases h
      exact .inl (quiet_of_phase rfl ⟨hrenamed, hvalid⟩)
  case locking =>
    obtain ⟨hrenamed, hvalid⟩ := hknows
    split at h
    · cases h
      exact .inl (quiet_of_phase rfl (answers_error hrenamed))
    · split at h
      · cases h
      · next hfree =>
        cases h
        refine .inl ⟨rfl, rfl, rfl, rfl, ?_, hrenamed, hvalid⟩
        rw [Bool.eq_false_iff.mpr hfree]
        rfl
  case locked =>
    obtain ⟨hrenamed, hvalid⟩ := hknows
    split at h
    · next e hload =>
      cases h
      exact .inl (quiet_of_phase rfl (answers_error hrenamed))
    · next current hload =>
      cases h
      refine .inl (quiet_of_phase rfl ⟨hrenamed, hvalid, ?_⟩)
      cases fails with
      | false => exact hload
      | true => cases hload
  case loaded current =>
    obtain ⟨hrenamed, hvalid, hload⟩ := hknows
    split at h
    · next e hprepare =>
      cases h
      exact .inl (quiet_of_phase rfl (answers_error hrenamed))
    · next document hprepare =>
      cases h
      obtain ⟨hrevision, hencode⟩ := prepare_eq_ok hprepare
      refine .inl (quiet_of_phase rfl ⟨hrenamed, hvalid, ⟨current.config, ?_⟩, hencode⟩)
      rw [hload, ← hrevision]
  case writing document =>
    split at h
    · cases h
      exact .inl (quiet_of_phase rfl (answers_error hknows.1))
    · cases h
      exact .inl (quiet_of_phase rfl hknows)
  case replacing document =>
    split at h
    · cases h
      exact .inl (quiet_of_phase rfl (answers_error hknows.1))
    · cases h
      exact .inr ⟨document, rfl, rfl, rfl⟩
  case syncing =>
    obtain rfl : renamed = true := hknows
    split at h
    · cases h
      exact .inl (quiet_of_phase rfl (.inr rfl))
    · cases h
      exact .inl (quiet_of_phase rfl (.inl rfl))
  case unlocking result =>
    cases h
    refine .inl ⟨rfl, rfl, rfl, rfl, ?_, ?_⟩
    · rw [hlock rfl]
      rfl
    · exact answers_of_unlock hknows
  case returned | died => cases h

theorem die_quiet (h : t.die codec m = some (m', t')) : Quiet parseUrl m t m' t' := by
  obtain ⟨call, phase, renamed⟩ := t
  have hdied : ∀ holds : Bool, (holds = true → m.locked = true) →
      (m.locked && !holds).toNat + holds.toNat = m.locked.toNat + false.toNat := by
    intro holds hholds
    cases holds with
    | false => rw [Bool.not_false, Bool.and_true]
    | true => rw [hholds rfl]; rfl
  unfold CommitTask.die at h
  split at h
  any_goals cases h
  exact ⟨rfl, rfl, rfl, rfl, hdied _ hlock, trivial⟩

/-- **What a step of a commit can do.** -/
theorem next_cases (hknows : t.Knows parseUrl m)
    (h : t.next parseUrl codec outcome m = some (m', t')) :
    Quiet parseUrl m t m' t' ∨ ∃ document, Renames m t document m' t' := by
  cases outcome with
  | succeeds | fails => exact advance_cases hlock hknows h
  | dies => exact .inl (die_quiet hlock h)

end

/-! ## The outline -/

theorem knows_congr (hdocument : m'.document = m.document) (h : u.Knows parseUrl m) :
    u.Knows parseUrl m' := by
  obtain ⟨call, phase, renamed⟩ := u
  cases phase with
  | loaded current => exact ⟨h.1, h.2.1, hdocument ▸ h.2.2⟩
  | writing | replacing => exact ⟨h.1, h.2.1, hdocument ▸ h.2.2.1, h.2.2.2⟩
  | called | locking | locked | syncing | unlocking | returned => exact h
  | died => trivial

/-- A commit that does not hold the lock knows nothing about the document. -/
theorem knows_of_not_holds (hholds : u.phase.holds = false) (h : u.Knows parseUrl m) :
    u.Knows parseUrl m' := by
  obtain ⟨call, phase, renamed⟩ := u
  cases phase with
  | called | locking | returned => exact h
  | died => trivial
  | locked | loaded | writing | replacing | syncing | unlocking => cases hholds

/-- The chain with the commit that has just replaced the document. -/
theorem ConfigDisk.Chained.concat (h : m.Chained parseUrl)
    (hvalid : validate parseUrl t.call.candidate = .ok ())
    (hread : ∃ old, load parseUrl codec m.document false = .ok ⟨t.call.expectedRevision, old⟩)
    (hencode : codec.encode t.call.committed = some document) :
    t.call.expectedRevision = m.chain.length ∧
      ConfigDisk.Chained parseUrl
      { m with document := some document, chain := m.chain ++ [t.call] } := by
  have hlength : t.call.expectedRevision = m.chain.length := by
    obtain ⟨old, hload⟩ := hread
    have hsame : latestConfig m.chain = ⟨t.call.expectedRevision, old⟩ :=
      Except.ok.inj (h.stored.symm.trans hload)
    rw [← h.revision, hsame]
  refine ⟨hlength, ?_, ?_⟩
  · intro r c hc
    rcases Outcome.of_getElem?_concat hc with hold | ⟨rfl, rfl⟩
    · exact h.place r c hold
    · exact hlength
  · show load parseUrl codec (some document) false = .ok (latestConfig (m.chain ++ [t.call]))
    rw [latestConfig, getLast?_concat]
    exact load_encoded hvalid hencode

theorem holds_locked {n : Nat × (Nat → Nat)} (hdisk : DiskOk parseUrl m (t.weight + n))
    (hholds : t.phase.holds = true) :
    m.locked = true := by
  have hcount : t.phase.holds.toNat + n.1 = m.locked.toNat := hdisk.holders
  rw [hholds] at hcount
  cases hlocked : m.locked with
  | true => rfl
  | false =>
    rw [hlocked] at hcount
    simp at hcount

theorem commit_outline :
    Outline (CommitTask.start codec) (CommitTask.next parseUrl codec) CommitTask.weight
      (DiskOk parseUrl) (TaskOk parseUrl) where
  weightless := fun c => rfl
  call := fun m n c _ => ⟨nofun, rfl⟩
  own := by
    intro outcome m t rest m' t' hdisk htask hnext
    rcases next_cases (holds_locked hdisk) htask.knows hnext with hquiet | ⟨document, hphase,
      rfl, rfl⟩
    · refine ⟨⟨?_, ?_, ?_⟩, ⟨?_, hquiet.knows⟩⟩
      · have hcount : t.phase.holds.toNat + rest.1 = m.locked.toNat := hdisk.holders
        have hlock := hquiet.lock
        show t'.phase.holds.toNat + rest.1 = m'.locked.toNat
        omega
      · intro r
        rw [hquiet.chain, ← hdisk.counted r]
        show (t'.renamed && t'.call.expectedRevision == r).toNat + rest.2 r =
          (t.renamed && t.call.expectedRevision == r).toNat + rest.2 r
        rw [hquiet.renamed, hquiet.call]
      · refine ⟨?_, ?_⟩
        · rw [hquiet.chain]
          exact hdisk.chained.place
        · rw [hquiet.chain, hquiet.document]
          exact hdisk.chained.stored
      · rw [hquiet.renamed, hquiet.call, hquiet.chain]
        exact htask.recorded
    · have hknows := htask.knows
      rw [CommitTask.Knows, hphase] at hknows
      obtain ⟨hrenamed, hvalid, hread, hencode⟩ := hknows
      obtain ⟨hlength, hchained⟩ := hdisk.chained.concat hvalid hread hencode
      refine ⟨⟨?_, ?_, hchained⟩, ⟨?_, rfl⟩⟩
      · have hcount : t.phase.holds.toNat + rest.1 = m.locked.toNat := hdisk.holders
        rw [hphase] at hcount
        exact hcount
      · intro r
        have hcount : (t.renamed && t.call.expectedRevision == r).toNat + rest.2 r =
            if r < m.chain.length then 1 else 0 := hdisk.counted r
        rw [hrenamed, Bool.false_and, Bool.toNat_false, Nat.zero_add] at hcount
        show (true && t.call.expectedRevision == r).toNat + rest.2 r =
          if r < (m.chain ++ [t.call]).length then 1 else 0
        rw [hcount, hlength, Bool.true_and, length_append, length_singleton]
        by_cases hr : m.chain.length = r
        · simp [hr]
        · have hlt : r < m.chain.length + 1 ↔ r < m.chain.length := by omega
          simp [hr, hlt]
      · exact fun _ => mem_append_right _ (mem_singleton.mpr rfl)
  other := by
    intro outcome m t u rest m' t' hdisk htask hother hnext
    rcases next_cases (holds_locked hdisk) htask.knows hnext with hquiet | ⟨document, hphase,
      rfl, rfl⟩
    · exact ⟨by rw [hquiet.chain]; exact hother.recorded, knows_congr hquiet.document hother.knows⟩
    · refine ⟨fun h => mem_append_left _ (hother.recorded h), ?_⟩
      -- The lock has one holder, and that is the commit that replaces the document.
      refine knows_of_not_holds ?_ hother.knows
      have hcount : t.phase.holds.toNat + (u.phase.holds.toNat + rest.1) = m.locked.toNat :=
        hdisk.holders
      have hone : m.locked.toNat ≤ 1 := Bool.toNat_le m.locked
      rw [hphase] at hcount
      cases hholds : u.phase.holds with
      | false => rfl
      | true =>
        rw [hholds] at hcount
        have htwo : 1 + (1 + rest.1) = m.locked.toNat := hcount
        omega

end Steps

/-! ## All interleavings -/

/-- The assertions hold in a pool. -/
abbrev ConfigPool.Ok (parseUrl : UrlParser) (p : ConfigPool codec) : Prop :=
  Asserted CommitTask.weight (DiskOk parseUrl) (TaskOk parseUrl) p

theorem ConfigPool.Ok.initial : ConfigPool.Ok parseUrl (ConfigPool.initial codec) :=
  ⟨⟨rfl, fun _ => rfl, fun _ _ h => (by cases h), rfl⟩, fun _ h => absurd h not_mem_nil⟩

theorem ConfigPool.Ok.run {p : ConfigPool codec} (h : p.Ok parseUrl)
    (moves : List (TaskMove CommitCall CallOutcome)) :
    (configRun parseUrl codec p moves).Ok parseUrl := by
  induction moves generalizing p with
  | nil => exact h
  | cons move moves ih =>
    refine ih ?_
    show ConfigPool.Ok parseUrl ((configStep parseUrl codec p move).getD p)
    cases hstep : configStep parseUrl codec p move with
    | none => exact h
    | some q => exact commit_outline.step p move q h hstep

/-- **What commits have done to the file.** -/
structure CommitsLinearize (parseUrl : UrlParser) (p : ConfigPool codec) : Prop where
  /-- For every revision at most one commit that expects it has replaced the document. -/
  once : ∀ r, (p.tasks.countP fun t => t.renamed && t.call.expectedRevision == r) ≤ 1
  /-- A commit that answers `Ok` is one that has replaced the document, with its own candidate. -/
  ok : ∀ t ∈ p.tasks, ∀ v, t.phase = .returned (.ok v) → t.renamed = true ∧ v = t.call.committed
  /-- A commit that answers with an error other than an I/O error has not. -/
  refused : ∀ t ∈ p.tasks, ∀ e, t.phase = .returned (.error e) → e ≠ .io → t.renamed = false
  /-- The file can be loaded, and it is the default or what one commit stored. -/
  loads : ∃ v, load parseUrl codec p.memory.document false = .ok v ∧
    (v = ⟨0, .initial⟩ ∨ ∃ t ∈ p.tasks, t.renamed = true ∧ v = t.call.committed)

/-- **What one step does to the file.** It leaves the document, or it is the rename of one commit,
    which has not replaced the document before, expects the revision that is stored, and stores its
    candidate at the next one. -/
def StepKeepsChain (parseUrl : UrlParser) (p q : ConfigPool codec) : Prop :=
  (q.memory.document = p.memory.document ∧
    ∀ (i : Nat) (t u : CommitTask codec), p.tasks[i]? = some t → q.tasks[i]? = some u →
    u.renamed = t.renamed) ∨
  ∃ (i : Nat) (t u : CommitTask codec) (old : AppConfig),
    p.tasks[i]? = some t ∧ q.tasks = p.tasks.set i u ∧ t.renamed = false ∧ u.renamed = true ∧
    u.call = t.call ∧ load parseUrl codec p.memory.document false =
    .ok ⟨t.call.expectedRevision, old⟩ ∧ load parseUrl codec q.memory.document false =
      .ok t.call.committed

section Linearize

variable {p q : ConfigPool codec}

theorem tally_weight (p : ConfigPool codec) (r : Nat) :
    (tally CommitTask.weight p.tasks).2 r = p.tasks.countP fun t =>
    t.renamed && t.call.expectedRevision == r := by
  rw [← tally_apply fun (t : CommitTask codec) r => t.renamed && t.call.expectedRevision == r,
    snd_tally]
  rfl

/-- A commit of the chain is that of a task that has replaced the document. -/
theorem ConfigPool.Ok.exists_of_mem_chain (h : p.Ok parseUrl) {r : Nat} {c : CommitCall}
    (hc : p.memory.chain[r]? = some c) : ∃ t ∈ p.tasks, t.renamed = true ∧ t.call = c := by
  have hlt : r < p.memory.chain.length := (List.getElem?_eq_some_iff.mp hc).1
  have hcount : (p.tasks.countP fun t => t.renamed && t.call.expectedRevision == r) = 1 := by
    rw [← tally_weight, h.1.counted r, if_pos hlt]
  obtain ⟨t, ht, hrenamed⟩ := countP_pos_iff.mp (Nat.lt_of_lt_of_eq Nat.one_pos hcount.symm)
  rw [Bool.and_eq_true, beq_iff_eq] at hrenamed
  obtain ⟨i, hi⟩ := mem_iff_getElem?.mp ((h.2 t ht).recorded hrenamed.1)
  have hplace : i = r := (h.1.chained.place i t.call hi).symm.trans hrenamed.2
  rw [hplace, hc] at hi
  exact ⟨t, ht, hrenamed.1, (Option.some.inj hi).symm⟩

theorem ConfigPool.Ok.linearize (h : p.Ok parseUrl) : CommitsLinearize parseUrl p where
  once := by
    intro r
    rw [← tally_weight, h.1.counted r]
    split
    · exact le_refl 1
    · exact Nat.zero_le 1
  ok := by
    intro t ht v hphase
    have hanswer := answers_of_returned hphase (h.2 t ht).knows
    cases hrenamed : t.renamed with
    | false =>
      rw [hrenamed] at hanswer
      obtain ⟨e, he⟩ := hanswer
      cases he
    | true =>
      rw [hrenamed] at hanswer
      rcases hanswer with hok | herror
      · exact ⟨rfl, Except.ok.inj hok⟩
      · cases herror
  refused := by
    intro t ht e hphase hio
    have hanswer := answers_of_returned hphase (h.2 t ht).knows
    cases hrenamed : t.renamed with
    | false => rfl
    | true =>
      rw [hrenamed] at hanswer
      rcases hanswer with hok | herror
      · cases hok
      · exact absurd (Except.error.inj herror) hio
  loads := by
    refine ⟨_, h.1.chained.stored, ?_⟩
    unfold latestConfig
    split
    · exact .inl rfl
    · next c hlast =>
      rw [getLast?_eq_getElem?] at hlast
      obtain ⟨t, ht, hrenamed, rfl⟩ := h.exists_of_mem_chain hlast
      exact .inr ⟨t, ht, hrenamed, rfl⟩

theorem ConfigPool.Ok.step (h : p.Ok parseUrl) {move : TaskMove CommitCall CallOutcome}
    (hstep : configStep parseUrl codec p move = some q) : StepKeepsChain parseUrl p q := by
  cases move with
  | call c =>
    cases hstep
    refine .inl ⟨rfl, ?_⟩
    intro i t u ht hu
    have hlt : i < p.tasks.length := (List.getElem?_eq_some_iff.mp ht).1
    rw [getElem?_append_left hlt, ht] at hu
    cases hu
    rfl
  | advance i outcome =>
    obtain ⟨t, m, u, ht, hnext, rfl⟩ := taskStep_advance_eq_some.mp hstep
    have htask := h.2 t (mem_of_getElem? ht)
    have hlock : t.phase.holds = true → p.memory.locked = true := by
      obtain ⟨before, after, hl, -⟩ := exists_split_set ht t
      have hdisk := h.1
      rw [hl, tally_split] at hdisk
      exact holds_locked hdisk
    rcases next_cases hlock htask.knows hnext with hquiet | ⟨document, hphase, hm, hu⟩
    · refine .inl ⟨hquiet.document, ?_⟩
      intro j t' u' ht' hu'
      by_cases hij : i = j
      · subst hij
        rw [List.getElem?_set_self (List.getElem?_eq_some_iff.mp ht).1] at hu'
        rw [ht] at ht'
        cases ht'
        cases hu'
        exact hquiet.renamed
      · rw [getElem?_set_ne hij, ht'] at hu'
        cases hu'
        rfl
    · have hknows := htask.knows
      rw [CommitTask.Knows, hphase] at hknows
      obtain ⟨hrenamed, hvalid, ⟨old, hold⟩, hencode⟩ := hknows
      refine .inr ⟨i, t, u, old, ht, rfl, hrenamed, ?_, ?_, hold, ?_⟩
      · rw [hu]
      · rw [hu]
      · rw [hm]
        exact load_encoded hvalid hencode

end Linearize

/-- **Commits form one chain.** Whatever any number of processes do, in whatever order their steps
    come and whatever fails, and from any state they can reach. -/
theorem configRun_linearizes (parseUrl : UrlParser) (codec : Codec)
    (moves : List (TaskMove CommitCall CallOutcome)) :
    CommitsLinearize parseUrl (configRun parseUrl codec (.initial codec) moves) ∧
      ∀ move q, configStep parseUrl codec (configRun parseUrl codec (.initial codec) moves) move =
        some q → StepKeepsChain parseUrl (configRun parseUrl codec (.initial codec) moves) q := by
  have hok : (configRun parseUrl codec (.initial codec) moves).Ok parseUrl :=
    ConfigPool.Ok.initial.run moves
  exact ⟨hok.linearize, fun move q => hok.step⟩

end Wokcore.Storage
