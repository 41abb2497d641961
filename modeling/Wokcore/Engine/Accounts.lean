import Mathlib.Data.Finset.Card
import Mathlib.Data.List.FinRange
import Mathlib.Data.List.Sort
import Wokcore.Lib.Word
import Wokcore.Core.Id

/-!
# The account health table (`crates/wokcore-engine/src/accounts.rs`)

The table keeps one `AccountState` for each registered account, spread over 64 locked maps by a hash
of the identifier, and one atomic counter from which every selection draws a number. Every operation
of the source that takes `&self` and changes something behind a lock is a function that returns the
new table next to its result, so that a call that fails half way still shows what it changed: a scan
that ends in `NoEligibleAccount` has normalised the accounts it looked at.

`u8`, `u32` and `u64` values are natural numbers and saturation and wrapping are explicit. A
`BTreeMap` is a `Std.TreeMap` and a `BTreeSet` a `Finset`. The one structural fact the locks rely
on, that an account only ever sits in its own shard, is a field of the table.
-/

set_option autoImplicit false

namespace Wokcore.Engine

open Lib Wokcore.Core

/-! ## Constants, policy and candidates -/

/-- `ACCOUNT_SHARDS`. -/
def accountShards : Nat := 64

/-- `MAX_ACCOUNTS`. -/
def maxAccounts : Nat := 256

/-- `MAX_WEIGHT`. -/
def maxWeight : Nat := 100

/-- `MAX_COOLDOWN_MS`. -/
def maxCooldownMs : Nat := 24 * 60 * 60 * 1000

inductive AccountStateError where
  | invalidPolicy
  | invalidWeight
  | duplicateAccount
  | tooManyAccounts
  | unknownAccount
  | invalidSnapshot
deriving DecidableEq, Repr

inductive SelectionError where
  | accountState (e : AccountStateError)
  | noEligibleAccount
deriving DecidableEq, Repr

inductive AccountAuthentication where
  | forward
  | oauth
  | apiKey
  | local
deriving DecidableEq, Repr

/-- A policy that passed `AccountHealthPolicy::new`. -/
structure AccountHealthPolicy where
  baseCooldownMs : Nat
  maxCooldown : Nat
  base_pos : baseCooldownMs ≠ 0
  base_le : baseCooldownMs ≤ maxCooldown
  max_le : maxCooldown ≤ maxCooldownMs
deriving DecidableEq

def AccountHealthPolicy.new (baseCooldownMs maxCooldown : Nat) :
    Except AccountStateError AccountHealthPolicy :=
  if h : baseCooldownMs = 0 ∨ maxCooldown < baseCooldownMs ∨ maxCooldown > maxCooldownMs then
    .error .invalidPolicy
  else
    .ok ⟨baseCooldownMs, maxCooldown, by omega, by omega, by omega⟩

/-- A candidate that passed `AccountCandidate::new`. -/
structure AccountCandidate where
  accountId : AccountId
  authentication : AccountAuthentication
  weight : Nat
  weight_pos : weight ≠ 0
  weight_le : weight ≤ maxWeight
deriving DecidableEq

def AccountCandidate.new (accountId : AccountId) (authentication : AccountAuthentication)
    (weight : Nat) : Except AccountStateError AccountCandidate :=
  if h : weight = 0 ∨ weight > maxWeight then
    .error .invalidWeight
  else
    .ok ⟨accountId, authentication, weight, by omega, by omega⟩

inductive AccountObservation where
  | success
  | rateLimited (retryAfterMs : Option Nat)
  | temporaryFailure (retryAfterMs : Option Nat)
  | invalidCredentials
  | invalidRequest
  | policyRejected
  | quota (remaining resetsAtMs : Nat)
deriving DecidableEq, Repr

inductive AccountStatusKind where
  | healthy
  | coolingDown
  | quotaExhausted
  | quarantined
deriving DecidableEq, Repr

/-! ## The state of one account -/

/-- `AccountState`. The source's `AccountStatus` and `AccountHealthSnapshot` carry the same data
    next to a kind or an identifier, so both wrap this record. -/
structure AccountState where
  consecutiveFailures : Nat := 0
  cooldownUntilMs : Option Nat := none
  quarantined : Bool := false
  quotaRemaining : Option Nat := none
  quotaResetsAtMs : Option Nat := none
  selectionCount : Nat := 0
  lastSelectedSequence : Nat := 0
  updatedAtMs : Nat := 0
deriving DecidableEq, Repr

structure AccountStatus where
  kind : AccountStatusKind
  consecutiveFailures : Nat
  cooldownUntilMs : Option Nat
  quotaRemaining : Option Nat
  quotaResetsAtMs : Option Nat
  selectionCount : Nat
  lastSelectedSequence : Nat
  updatedAtMs : Nat
deriving DecidableEq, Repr

structure AccountHealthSnapshot where
  accountId : AccountId
  state : AccountState
deriving DecidableEq

namespace AccountState

variable (s : AccountState)

/-- Drop a cooldown and a quota record that have run out. -/
def normalize (nowMs : Nat) : AccountState :=
  let s := if s.cooldownUntilMs.any (· ≤ nowMs) then { s with cooldownUntilMs := none } else s
  if s.quotaResetsAtMs.any (· ≤ nowMs) then
    { s with quotaRemaining := none, quotaResetsAtMs := none }
  else s

def kind : AccountStatusKind :=
  if s.quarantined then .quarantined
  else if s.cooldownUntilMs.isSome then .coolingDown
  else if s.quotaRemaining = some 0 then .quotaExhausted
  else .healthy

def status : AccountStatus where
  kind := s.kind
  consecutiveFailures := s.consecutiveFailures
  cooldownUntilMs := s.cooldownUntilMs
  quotaRemaining := s.quotaRemaining
  quotaResetsAtMs := s.quotaResetsAtMs
  selectionCount := s.selectionCount
  lastSelectedSequence := s.lastSelectedSequence
  updatedAtMs := s.updatedAtMs

/-- How long a failed account is left alone: the base doubled for every failure after the first, or
    the upstream's own hint when that is longer, both cut at the policy's maximum. -/
def cooldownDuration (policy : AccountHealthPolicy) (failures : Nat) (retryAfterMs : Option Nat) :
    Nat :=
  let exponent := min (failures - 1) 63
  let exponential := min (satMul u64Max policy.baseCooldownMs (2 ^ exponent)) policy.maxCooldown
  let hinted := min (retryAfterMs.getD 0) policy.maxCooldown
  max exponential hinted

/-- The shared arm of `RateLimited` and `TemporaryFailure`. -/
def coolDown (policy : AccountHealthPolicy) (retryAfterMs : Option Nat)
    (nowMs : Nat) : AccountState :=
  let failures := satAdd u8Max s.consecutiveFailures 1
  { s with
    consecutiveFailures := failures
    cooldownUntilMs := some (satAdd u64Max nowMs (cooldownDuration policy failures retryAfterMs)) }

/-- The `match observation` of `observe`. -/
def record (policy : AccountHealthPolicy) (observation : AccountObservation)
    (nowMs : Nat) : AccountState :=
  match observation with
  | .success =>
      { s with
        consecutiveFailures := 0, cooldownUntilMs := none, quarantined := false
        quotaRemaining := none, quotaResetsAtMs := none }
  | .rateLimited retryAfterMs => s.coolDown policy retryAfterMs nowMs
  | .temporaryFailure retryAfterMs => s.coolDown policy retryAfterMs nowMs
  | .invalidCredentials =>
      { s with
        consecutiveFailures := satAdd u8Max s.consecutiveFailures 1
        cooldownUntilMs := none, quarantined := true }
  | .invalidRequest => s
  | .policyRejected => s
  | .quota remaining resetsAtMs =>
      if resetsAtMs ≤ nowMs then { s with quotaRemaining := none, quotaResetsAtMs := none }
      else { s with quotaRemaining := some remaining, quotaResetsAtMs := some resetsAtMs }

/-- `updated_at_ms` never moves back. -/
def touch (nowMs : Nat) : AccountState :=
  { s with updatedAtMs := max s.updatedAtMs nowMs }

/-- Everything `observe` does to the state it finds. -/
def observe (policy : AccountHealthPolicy) (observation : AccountObservation)
    (nowMs : Nat) : AccountState :=
  ((s.normalize nowMs).record policy observation nowMs).touch nowMs

/-- The locked half of `mark_selected`, with the number that was drawn. -/
def mark (sequence nowMs : Nat) : AccountState :=
  { s with
    selectionCount := satAdd u64Max s.selectionCount 1
    lastSelectedSequence := sequence
    updatedAtMs := max s.updatedAtMs nowMs }

end AccountState

/-! ## The table -/

/-- The snapshots `restore` refuses. -/
def AccountHealthSnapshot.rejected (snapshot : AccountHealthSnapshot) : Bool :=
  snapshot.state.consecutiveFailures > 64
    || snapshot.state.selectionCount > snapshot.state.lastSelectedSequence
    || (snapshot.state.selectionCount == 0 && snapshot.state.lastSelectedSequence != 0)
    || (snapshot.state.cooldownUntilMs.isSome && snapshot.state.quarantined)
    || (snapshot.state.quotaRemaining.isSome != snapshot.state.quotaResetsAtMs.isSome)

/-- FNV-1a over the identifier's bytes, reduced to a shard number. -/
def accountHash (accountId : AccountId) : Nat :=
  (bytesOf accountId.text).foldl
    (fun hash byte => (hash ^^^ byte.toNat) * 0x00000100000001b3 % 2 ^ 64) 0xcbf29ce484222325

def accountShard (accountId : AccountId) : Fin accountShards :=
  ⟨accountHash accountId % accountShards, Nat.mod_lt _ (by decide)⟩

/-- One locked map. -/
abbrev Shard := Std.TreeMap AccountId AccountState

structure AccountHealthTable where
  policy : AccountHealthPolicy
  shards : Fin accountShards → Shard
  selectionSequence : Nat
  homed : ∀ i id, id ∈ shards i → accountShard id = i

namespace AccountHealthTable

variable (t : AccountHealthTable)

/-- The state registered for an account: `lock_shard` and `get`. -/
def get? (id : AccountId) : Option AccountState :=
  (t.shards (accountShard id))[id]?

/-- `lock_shard(id).insert(id, state)`. -/
def insert (id : AccountId) (state : AccountState) : AccountHealthTable where
  policy := t.policy
  shards := Function.update t.shards (accountShard id)
    ((t.shards (accountShard id)).insert id state)
  selectionSequence := t.selectionSequence
  homed := by
    intro i k hk
    by_cases hi : i = accountShard id
    · subst hi
      simp only [Function.update_self, Std.TreeMap.mem_insert, compare_eq_iff_eq] at hk
      rcases hk with rfl | hk
      · rfl
      · exact t.homed _ k hk
    · rw [Function.update_of_ne hi] at hk
      exact t.homed i k hk

/-- `lock_shard(id)` and a change to the state `get_mut` finds there. -/
def modify (id : AccountId) (f : AccountState → AccountState) : AccountHealthTable where
  policy := t.policy
  shards := Function.update t.shards (accountShard id) ((t.shards (accountShard id)).modify id f)
  selectionSequence := t.selectionSequence
  homed := by
    intro i k hk
    by_cases hi : i = accountShard id
    · subst hi
      rw [Function.update_self, Std.TreeMap.mem_modify] at hk
      exact t.homed _ k hk
    · rw [Function.update_of_ne hi] at hk
      exact t.homed i k hk

/-- One pass over all shards that changes every state in place. -/
def mapStates (f : AccountState → AccountState) : AccountHealthTable where
  policy := t.policy
  shards := fun i => (t.shards i).map fun _ s => f s
  selectionSequence := t.selectionSequence
  homed := by
    intro i k hk
    rw [Std.TreeMap.mem_map] at hk
    exact t.homed i k hk

/-- The table with no account. -/
def empty (policy : AccountHealthPolicy) : AccountHealthTable where
  policy := policy
  shards := fun _ => {}
  selectionSequence := 0
  homed := by
    intro i k hk
    exact absurd hk Std.TreeMap.not_mem_emptyc

def new (policy : AccountHealthPolicy) (accounts : List AccountId) :
    Except AccountStateError AccountHealthTable :=
  if accounts.toFinset.card ≠ accounts.length then .error .duplicateAccount
  else if accounts.length > maxAccounts then .error .tooManyAccounts
  else .ok (accounts.foldl (fun t account => t.insert account {}) (empty policy))

/-- The loop of `restore`: `restored` holds the identifiers seen so far and `maximum` the largest
    sequence number. -/
def restoreLoop (nowMs : Nat) :
    List AccountHealthSnapshot → AccountHealthTable → Finset AccountId → Nat →
      Except AccountStateError AccountHealthTable
  | [], t, _, maximum => .ok { t with selectionSequence := maximum }
  | snapshot :: rest, t, restored, maximum =>
      if snapshot.accountId ∈ restored then .error .invalidSnapshot
      else if snapshot.rejected then .error .invalidSnapshot
      else match t.get? snapshot.accountId with
        | none => .error .unknownAccount
        | some _ =>
            restoreLoop nowMs rest
              (t.modify snapshot.accountId fun _ => snapshot.state.normalize nowMs)
              (Insert.insert snapshot.accountId restored)
              (max maximum snapshot.state.lastSelectedSequence)

def restore (policy : AccountHealthPolicy) (accounts : List AccountId)
    (snapshots : List AccountHealthSnapshot) (nowMs : Nat) :
    Except AccountStateError AccountHealthTable :=
  match new policy accounts with
  | .error e => .error e
  | .ok table => restoreLoop nowMs snapshots table ∅ 0

def observe (accountId : AccountId) (observation : AccountObservation)
    (nowMs : Nat) : AccountHealthTable × Except AccountStateError Unit :=
  match t.get? accountId with
  | none => (t, .error .unknownAccount)
  | some _ => (t.modify accountId fun s => s.observe t.policy observation nowMs, .ok ())

/-- `status` normalises the account it reports on. -/
def status (accountId : AccountId) (nowMs : Nat) :
    AccountHealthTable × Except AccountStateError AccountStatus :=
  match t.get? accountId with
  | none => (t, .error .unknownAccount)
  | some s => (t.modify accountId fun s => s.normalize nowMs, .ok (s.normalize nowMs).status)

/-- The snapshots in shard order, before the final sort. -/
def shardSnapshots : List AccountHealthSnapshot :=
  (List.finRange accountShards).flatMap fun i => (t.shards i).toList.map fun p => ⟨p.1, p.2⟩

/-- `snapshots` normalises every account and reports the states sorted by identifier. -/
def snapshots (nowMs : Nat) : AccountHealthTable × List AccountHealthSnapshot :=
  let t := t.mapStates fun s => s.normalize nowMs
  (t, t.shardSnapshots.insertionSort fun left right => left.accountId ≤ right.accountId)

def reconfigured (accounts : List AccountId) (nowMs : Nat) :
    AccountHealthTable × Except AccountStateError AccountHealthTable :=
  let (t, snapshots) := t.snapshots nowMs
  let retained := accounts.toFinset
  (t, restore t.policy accounts (snapshots.filter fun s => s.accountId ∈ retained) nowMs)

/-! ## Selection -/

inductive AccountChoiceOrigin where
  | affinity
  | weightedLeastRecentlyUsed
deriving DecidableEq, Repr

structure AccountChoice where
  accountId : AccountId
  origin : AccountChoiceOrigin
deriving DecidableEq

abbrev Selection := Except SelectionError AccountChoice

/-- Selections per weight, and the older last selection on a tie. -/
def compareWeightedUsage (left : AccountCandidate) (leftStatus : AccountStatus)
    (right : AccountCandidate) (rightStatus : AccountStatus) : Ordering :=
  (compare (leftStatus.selectionCount * right.weight)
    (rightStatus.selectionCount * left.weight)).then
    (compare leftStatus.lastSelectedSequence rightStatus.lastSelectedSequence)

/-- The best candidate of a scan so far. -/
abbrev Best := Option (AccountCandidate × AccountStatus)

/-- What one turn of the candidate loop decides: go on with a best candidate, choose at once, or
    fail. -/
inductive ScanStep where
  | next (best : Best)
  | choose (choice : AccountChoice)
  | fail (e : SelectionError)
deriving DecidableEq

/-- The arguments of one `select_from` call besides the candidates. -/
structure SelectionArgs where
  authentication : AccountAuthentication
  affinityAccount : Option AccountId
  nowMs : Nat
deriving DecidableEq

/-- One turn of the candidate loop. It takes at most one lock, in `status`. -/
def scanOne (args : SelectionArgs) (t : AccountHealthTable) (candidate : AccountCandidate)
    (best : Best) : AccountHealthTable × ScanStep :=
  if candidate.authentication ≠ args.authentication then (t, .next best)
  else
    match t.status candidate.accountId args.nowMs with
    | (t, .error e) => (t, .fail (.accountState e))
    | (t, .ok status) =>
        if status.kind ≠ .healthy then (t, .next best)
        else if args.affinityAccount = some candidate.accountId then
          (t, .choose ⟨candidate.accountId, .affinity⟩)
        else
          match best with
          | none => (t, .next (some (candidate, status)))
          | some (current, currentStatus) =>
              if compareWeightedUsage candidate status current currentStatus = .lt then
                (t, .next (some (candidate, status)))
              else (t, .next best)

/-- What the call does once the candidates are used up. -/
def conclude : Best → Selection
  | none => .error .noEligibleAccount
  | some (candidate, _) => .ok ⟨candidate.accountId, .weightedLeastRecentlyUsed⟩

/-- The candidate loop: the choice `select_from` is going to mark, if there is one. -/
def scan (args : SelectionArgs) :
    List AccountCandidate → AccountHealthTable → Best →
      AccountHealthTable × Selection
  | [], t, best => (t, conclude best)
  | candidate :: rest, t, best =>
      match scanOne args t candidate best with
      | (t, .next best) => scan args rest t best
      | (t, .choose choice) => (t, .ok choice)
      | (t, .fail e) => (t, .error e)

/-- `fetch_add(1)` on the counter: the table after it and the number drawn. The counter wraps, the
    number drawn from it saturates. -/
def drawSequence : AccountHealthTable × Nat :=
  ({ t with selectionSequence := wrapAdd u64Max t.selectionSequence 1 },
    satAdd u64Max t.selectionSequence 1)

/-- The locked half of `mark_selected`. -/
def writeSelection (accountId : AccountId) (sequence nowMs : Nat) :
    AccountHealthTable × Except SelectionError Unit :=
  match t.get? accountId with
  | none => (t, .error (.accountState .unknownAccount))
  | some _ => (t.modify accountId fun s => s.mark sequence nowMs, .ok ())

def markSelected (accountId : AccountId) (nowMs : Nat) :
    AccountHealthTable × Except SelectionError Unit :=
  let (t, sequence) := t.drawSequence
  t.writeSelection accountId sequence nowMs

def selectFrom (candidates : List AccountCandidate) (args : SelectionArgs) :
    AccountHealthTable × Selection :=
  match scan args candidates t none with
  | (t, .error e) => (t, .error e)
  | (t, .ok choice) =>
      match t.markSelected choice.accountId args.nowMs with
      | (t, .error e) => (t, .error e)
      | (t, .ok ()) => (t, .ok choice)

/-- `select` is `select_from` on a slice. -/
def select (candidates : List AccountCandidate) (args : SelectionArgs) :
    AccountHealthTable × Selection :=
  t.selectFrom candidates args

end AccountHealthTable

end Wokcore.Engine
