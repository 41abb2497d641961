import Mathlib.Data.List.Dedup
import Mathlib.Data.List.Perm.Subperm
import Wokcore.Lib.Table
import Wokcore.Lib.Word

/-!
# The cooldown of failure snapshots (`crates/wokcore-diagnostics/src/snapshot.rs`)

A snapshot is written if its key, a cause and a correlation, was not let through in the last minute
and the bytes of that minute leave room for it. The keys let through are kept in a list of bounded
length. A new key goes to the end, and a full list loses its first entry for it, but a key that is
still listed keeps its place. So what counts is how many other keys were let through since a key
entered the list, not since it was last let through.
-/

set_option autoImplicit false

namespace Wokcore.Diagnostics

open Lib Table
open Prod (fst)

def snapshotCooldownSeconds : Nat := 60

def maxCooldownKeys : Nat := 256

def maxFailureSnapshotBytes : Nat := 2 * 1024 * 1024

inductive SnapshotCause where
  | upstreamFailure | providerUnavailable | protocolViolation | storageFailure | internalFailure
deriving DecidableEq

structure SnapshotKey where
  cause : SnapshotCause
  request : BitVec 128
deriving DecidableEq

inductive SnapshotError where
  | invalidPolicy | io | tooLarge
deriving DecidableEq

inductive SnapshotProcessOutcome where
  | idle | written | writtenCleanupDeferred | suppressed
deriving DecidableEq

/-- A request, with what `encoded_len_for` and `write_snapshot` answer for its snapshot. -/
structure SnapshotRequest where
  key : SnapshotKey
  observedAtSeconds : Nat
  encodedLen : Except SnapshotError Nat
  writeSnapshot : Except SnapshotError Bool

structure SnapshotOwner where
  writeBudgetPerMinute : Nat
  cooldowns : List (SnapshotKey × Nat)
  budgetClock : Nat
  budgetBuckets : List (Nat × Nat)

namespace SnapshotOwner

/-- `SnapshotRecorder::with_policy`. -/
def withPolicy (writeBudgetPerMinute : Nat) : SnapshotOwner := ⟨writeBudgetPerMinute, [], 0, []⟩

/-- A full list without the key loses its first entry. -/
def makeRoom (key : SnapshotKey) (cooldowns : List (SnapshotKey × Nat)) :
    List (SnapshotKey × Nat) :=
  if find fst key cooldowns = none ∧ cooldowns.length = maxCooldownKeys then cooldowns.drop 1
    else cooldowns

/-- `record_cooldown`. A key has one entry. -/
def recordCooldown (key : SnapshotKey) (observedAtSeconds : Nat)
    (cooldowns : List (SnapshotKey × Nat)) :
    List (SnapshotKey × Nat) :=
  put fst (key, observedAtSeconds) (makeRoom key cooldowns)

/-- `account_published`. -/
def accountPublished (o : SnapshotOwner) (snapshotBytes : Nat) (cleanupDeferred : Bool) :
    SnapshotProcessOutcome × SnapshotOwner :=
  let bytes := match find fst o.budgetClock o.budgetBuckets with
    | some bucket => satAdd u64Max bucket.2 snapshotBytes
    | none => snapshotBytes
  (if cleanupDeferred then .writtenCleanupDeferred else .written,
    { o with budgetBuckets := put fst (o.budgetClock, bytes) o.budgetBuckets })

/-- `process` up to `record_cooldown`: the size of a snapshot that is let through, and the budget of
    the minute. -/
def check (o : SnapshotOwner) (r : SnapshotRequest) :
    Except (Except SnapshotError SnapshotProcessOutcome) Nat × SnapshotOwner :=
  if (find fst r.key o.cooldowns).any fun entry =>
      r.observedAtSeconds - entry.2 < snapshotCooldownSeconds
  then (.error (.ok .suppressed), o)
  else match r.encodedLen with
    | .error e => (.error (.error e), o)
    | .ok snapshotBytes =>
      if snapshotBytes > maxFailureSnapshotBytes then (.error (.error .tooLarge), o)
      else
        let clock := max o.budgetClock r.observedAtSeconds
        let buckets := o.budgetBuckets.filter fun bucket => clock - bucket.1 < 60
        let o := { o with budgetClock := clock, budgetBuckets := buckets }
        match checkedAdd u64Max (buckets.foldl (fun total bucket => satAdd u64Max total bucket.2) 0)
          snapshotBytes with
        | none => (.error (.error .tooLarge), o)
        | some nextBudget =>
          if nextBudget > o.writeBudgetPerMinute then (.error (.ok .suppressed), o)
            else (.ok snapshotBytes, o)

def process (o : SnapshotOwner) (r : SnapshotRequest) :
    Except SnapshotError SnapshotProcessOutcome × SnapshotOwner :=
  match o.check r with
  | (.error answer, o) => (answer, o)
  | (.ok snapshotBytes, o) =>
    let o := { o with cooldowns := recordCooldown r.key r.observedAtSeconds o.cooldowns }
    match r.writeSnapshot with
    | .error e => (.error e, o)
    | .ok cleanupDeferred =>
      let (outcome, o) := o.accountPublished snapshotBytes cleanupDeferred
      (.ok outcome, o)

/-- The request passes the checks of the cooldown and of the budget. -/
def passes (o : SnapshotOwner) (r : SnapshotRequest) : Bool := (o.check r).1.isOk

def processAll (o : SnapshotOwner) (rs : List SnapshotRequest) : SnapshotOwner :=
  rs.foldl (fun o r => (o.process r).2) o

/-- The requests of a run that pass the checks. -/
def passed (o : SnapshotOwner) : List SnapshotRequest → List SnapshotRequest
  | [] => []
  | r :: rs => (if o.passes r then [r] else []) ++ passed (o.process r).2 rs

/-! ## Runs -/

/-- When the key was last let through, if it was at `last` and then the requests of `passed`
    were. -/
def lastPassed (key : SnapshotKey) (last : Nat) (passed : List SnapshotRequest) : Nat :=
  passed.foldl (fun last r => if r.key = key then r.observedAtSeconds else last) last

variable {key k : SnapshotKey} {last t : Nat} {others : List SnapshotKey}
  {cooldowns : List (SnapshotKey × Nat)} {o : SnapshotOwner} {r : SnapshotRequest}
  {rs : List SnapshotRequest}

theorem find_eq_none_iff : find fst k cooldowns = none ↔ k ∉ cooldowns.map fst := by
  simp only [find_eq_none, List.mem_map, not_exists, not_and, ne_eq]

theorem find_makeRoom (h : find fst k cooldowns = none) :
    find fst k (makeRoom k cooldowns) = none := by
  rw [find_eq_none, makeRoom] at *
  split
  · exact fun e he => h e (List.mem_of_mem_drop he)
  · exact h

/-- The key is listed as let through at `last`, and only `others` stand behind it. -/
def Listed (key : SnapshotKey) (last : Nat) (others : List SnapshotKey)
    (cooldowns : List (SnapshotKey × Nat)) : Prop :=
  ∃ before after, cooldowns = before ++ (key, last) :: after ∧ key ∉ before.map fst ∧
    (after.map fst).Nodup ∧ after.map fst ⊆ others

theorem Listed.find (h : Listed key last others cooldowns) :
    Table.find fst key cooldowns = some (key, last) := by
  obtain ⟨before, after, rfl, hbefore, -⟩ := h
  have hnone := find_eq_none_iff.mpr hbefore
  rw [Table.find] at hnone ⊢
  simp [List.find?_append, hnone]

/-- A key is let through. A key that is listed keeps its place. For another, a full list loses its
    first entry, but not this key, for the keys behind it are too few to fill the list. -/
theorem Listed.recordCooldown (h : Listed key last others cooldowns) (hmem : k ≠ key → k ∈ others)
    (hfew : others.length < maxCooldownKeys) :
    Listed key (if k = key then t else last) others (recordCooldown k t cooldowns) := by
  obtain ⟨before, after, rfl, hbefore, hnodup, hafter⟩ := h
  rw [SnapshotOwner.recordCooldown]
  cases hfind : Table.find fst k (before ++ (key, last) :: after) with
  | some entry =>
    have hkeys : ∀ entries, (modify fst k (fun _ => (k, t)) entries).map fst = entries.map fst :=
      fun _ => map_modify fun _ _ => rfl
    have hroom : makeRoom k (before ++ (key, last) :: after) = before ++ (key, last) :: after :=
      if_neg (by simp [hfind])
    rw [hroom, put, hfind]
    refine ⟨modify fst k (fun _ => (k, t)) before, modify fst k (fun _ => (k, t)) after, ?_, ?_⟩
    · by_cases hkey : k = key
      · simp [Table.modify, hkey]
      · simp [Table.modify, hkey, Ne.symm hkey]
    · rw [hkeys, hkeys]
      exact ⟨hbefore, hnodup, hafter⟩
  | none =>
    have hnew := find_eq_none.mp hfind
    have hne : k ≠ key := Ne.symm (hnew (key, last) (by simp))
    have hbehind : ((after ++ [(k, t)]).map fst).Nodup := nodup_concat hnodup fun e he =>
      hnew e (by simp [he])
    have hothers : (after ++ [(k, t)]).map fst ⊆ others := by simp [hafter, hmem hne]
    rw [put_of_find_none (find_makeRoom hfind), makeRoom, if_neg hne]
    split
    · next hfull =>
      cases before with
      | nil =>
        have hle := (hbehind.subperm hothers).length_le
        have hlength := hfull.2
        simp only [List.length_map, List.length_append, List.nil_append,
          List.length_cons] at hlength hle
        omega
      | cons first before =>
        exact ⟨before, after ++ [(k, t)], by simp, fun hin => hbefore (List.mem_cons_of_mem _ hin),
          hbehind, hothers⟩
    · exact ⟨before, after ++ [(k, t)], by simp, hbefore, hbehind, hothers⟩

theorem cooldowns_process : (o.process r).2.cooldowns =
    if o.passes r then recordCooldown r.key r.observedAtSeconds o.cooldowns else o.cooldowns := by
  have hsame : (o.check r).2.cooldowns = o.cooldowns := by
    unfold check
    grind
  rw [process, passes, ← hsame]
  obtain ⟨_ | snapshotBytes, o'⟩ := o.check r
  · rfl
  · cases r.writeSnapshot <;> rfl

theorem Listed.processAll (h : Listed key last others o.cooldowns)
    (hothers : ∀ r ∈ o.passed rs, r.key ≠ key → r.key ∈ others)
    (hfew : others.length < maxCooldownKeys) :
    Listed key (lastPassed key last (o.passed rs)) others (o.processAll rs).cooldowns := by
  induction rs generalizing o last with
  | nil => exact h
  | cons r rs ih =>
    rw [passed, List.forall_mem_append] at hothers
    have hnext := @cooldowns_process o r
    rw [passed, lastPassed, List.foldl_append]
    cases hpasses : o.passes r with
    | false =>
      rw [hpasses] at hnext
      exact ih (hnext ▸ h) hothers.2
    | true =>
      rw [hpasses] at hnext hothers
      exact ih (hnext ▸ h.recordCooldown (hothers.1 r (by simp)) hfew) hothers.2

/-- **A key is suppressed while few others are let through.** When a request was let through whose
    key was not listed, and fewer than `MAX_COOLDOWN_KEYS` other keys were let through since, a
    request with its key is suppressed for the time of the cooldown, from when the key was last let
    through. -/
theorem suppressed_of_entered (o : SnapshotOwner) (first next : SnapshotRequest)
    (rs : List SnapshotRequest) (hpassed : o.passes first = true)
    (hentered : find Prod.fst first.key o.cooldowns = none) (hnext : next.key = first.key)
    (hfew : ((((o.process first).2.passed rs).map (·.key)).filter (· ≠ first.key)).dedup.length <
      maxCooldownKeys)
    (hsoon : next.observedAtSeconds < lastPassed first.key first.observedAtSeconds
      ((o.process first).2.passed rs) + snapshotCooldownSeconds) :
    ((o.processAll (first :: rs)).process next).1 = .ok .suppressed := by
  have hlisted : Listed first.key first.observedAtSeconds
      ((((o.process first).2.passed rs).map (·.key)).filter (· ≠ first.key)).dedup
      (o.process first).2.cooldowns := by
    have hroom := find_makeRoom hentered
    rw [cooldowns_process, if_pos hpassed, recordCooldown, put_of_find_none hroom]
    exact ⟨_, [], rfl, find_eq_none_iff.mp hroom, List.nodup_nil, List.nil_subset _⟩
  have hfind := (hlisted.processAll (fun r hr hne => by simpa [hne] using ⟨r, hr, rfl⟩) hfew).find
  rw [← hnext] at hfind
  rw [processAll, List.foldl_cons, ← processAll, process, check, hfind, hnext, if_pos]
  rw [snapshotCooldownSeconds] at hsoon ⊢
  simp only [Option.any_some, decide_eq_true_eq]
  omega

/-- A request of the correlation `n`, whose snapshot of 1000 bytes can be written. -/
def requestOf (n observedAtSeconds : Nat) : SnapshotRequest :=
  ⟨⟨.upstreamFailure, n⟩, observedAtSeconds, .ok 1000, .ok false⟩

theorem suppressed_of_entered_twice :
    (((withPolicy 4000).processAll [requestOf 0 0, requestOf 1 0, requestOf 0 60]).process
      (requestOf 0 119)).1 = .ok .suppressed :=
  suppressed_of_entered (withPolicy 4000) (requestOf 0 0) (requestOf 0 119)
    [requestOf 1 0, requestOf 0 60] (by decide) (by decide) rfl (by decide) (by decide)

/-- A full list with the key 0 at its front. -/
def filled : SnapshotOwner := (withPolicy 4000000).processAll
    ((List.range maxCooldownKeys).map (requestOf · 0))

/-- The key is let through again, and the next new key takes its place. -/
theorem written_after_refresh :
    filled.passes (requestOf 0 60) = true ∧
      ((filled.processAll [requestOf 0 60, requestOf 256 60]).process (requestOf 0 61)).1 =
        .ok .written := by
  decide +kernel

end SnapshotOwner

end Wokcore.Diagnostics
