import Wokcore.Lib.Precedence
import Wokcore.Engine.ConcurrentSelect

/-!
# A restored table and the table it was taken from

`snapshots` writes the state of every account down and `restore` builds a table from it. The server
does this across a restart and around every change of the configuration, so the new table has to
answer as the old one would have. `Agree` is what makes two tables answer alike: the same policy,
the same states and the same selection counter. The states do come back as they were. The counter is
not written down; `restore` takes the largest sequence number among the accounts, which is the
counter as long as it has not wrapped.

`CounterCurrent` says that it has not, and the main result is that this is all it takes: the two
tables give the same answer to every later call exactly if the counter is current, and in a run of
fewer than 2⁶⁴ selections it always is.
-/

set_option autoImplicit false

namespace Wokcore.Engine

open Lib Wokcore.Core AccountState AccountHealthSnapshot

namespace AccountHealthTable

variable {t u v : AccountHealthTable} {id k : AccountId} {nowMs : Nat}
  {snapshots : List AccountHealthSnapshot} {policy : AccountHealthPolicy}
  {accounts : List AccountId} {s : AccountState} {restored : Finset AccountId}
  {args : SelectionArgs}

/-! ## Calls and their answers -/

/-- A call that a table answers. -/
inductive TableCall where
  | observe (accountId : AccountId) (observation : AccountObservation) (nowMs : Nat)
  | status (accountId : AccountId) (nowMs : Nat)
  | select (candidates : List AccountCandidate) (args : SelectionArgs)

inductive TableAnswer where
  | observed (result : Except AccountStateError Unit)
  | status (result : Except AccountStateError AccountStatus)
  | selected (result : Selection)

/-- The instant a call is made at. -/
def TableCall.time : TableCall → Nat
  | .observe _ _ nowMs => nowMs
  | .status _ nowMs => nowMs
  | .select _ args => args.nowMs

def TableCall.answer (t : AccountHealthTable) : TableCall → AccountHealthTable × TableAnswer
  | .observe accountId observation nowMs =>
      let (t, result) := t.observe accountId observation nowMs
      (t, .observed result)
  | .status accountId nowMs =>
      let (t, result) := t.status accountId nowMs
      (t, .status result)
  | .select candidates args =>
      let (t, result) := t.select candidates args
      (t, .selected result)

/-- What a table answers to one call after another. -/
def answers (t : AccountHealthTable) : List TableCall → List TableAnswer
  | [] => []
  | call :: rest => (call.answer t).2 :: answers (call.answer t).1 rest

/-! ## Tables that answer alike -/

/-- Two tables that differ in nothing a call can see. -/
structure Agree (t u : AccountHealthTable) : Prop where
  policy : t.policy = u.policy
  sequence : t.selectionSequence = u.selectionSequence
  states : ∀ k, t.get? k = u.get? k

/-- Two calls that answer the same and leave tables that agree. -/
def Alike {α : Type} (x y : AccountHealthTable × α) : Prop := Agree x.1 y.1 ∧ x.2 = y.2

theorem Alike.elim {α : Type} {x y : AccountHealthTable × α} (h : Alike x y) :
    ∃ t u a, x = (t, a) ∧ y = (u, a) ∧ Agree t u :=
  ⟨x.1, y.1, x.2, rfl, by rw [h.2], h.1⟩

section

variable (h : Agree t u)
include h

theorem Agree.modify (id : AccountId) (f : AccountState → AccountState) :
    Agree (t.modify id f) (u.modify id f) := by
  refine ⟨h.policy, h.sequence, fun k => ?_⟩
  rw [get?_modify, get?_modify, h.states]

theorem Agree.observe (id : AccountId) (observation : AccountObservation) (nowMs : Nat) :
    Alike (t.observe id observation nowMs) (u.observe id observation nowMs) := by
  unfold AccountHealthTable.observe
  rw [h.states id, h.policy]
  cases u.get? id with
  | none => exact ⟨h, rfl⟩
  | some s => exact ⟨h.modify id _, rfl⟩

theorem Agree.status (id : AccountId) (nowMs : Nat) :
    Alike (t.status id nowMs) (u.status id nowMs) := by
  unfold AccountHealthTable.status
  rw [h.states id]
  cases u.get? id with
  | none => exact ⟨h, rfl⟩
  | some s => exact ⟨h.modify id _, rfl⟩

theorem Agree.scanOne (args : SelectionArgs) (candidate : AccountCandidate) (best : Best) :
    Alike (scanOne args t candidate best) (scanOne args u candidate best) := by
  obtain ⟨t', u', r, ht, hu, hagree⟩ := (h.status candidate.accountId args.nowMs).elim
  unfold AccountHealthTable.scanOne
  split
  · exact ⟨h, rfl⟩
  rw [ht, hu]
  -- From here on both sides take the same branch, with tables that agree.
  cases r with
  | error e => exact ⟨hagree, rfl⟩
  | ok status =>
    dsimp only
    split
    · exact ⟨hagree, rfl⟩
    split
    · exact ⟨hagree, rfl⟩
    cases best with
    | none => exact ⟨hagree, rfl⟩
    | some b =>
      dsimp only
      split <;> exact ⟨hagree, rfl⟩

theorem Agree.scan (args : SelectionArgs) (candidates : List AccountCandidate) (best : Best) :
    Alike (scan args candidates t best) (scan args candidates u best) := by
  induction candidates generalizing t u best with
  | nil => exact ⟨h, rfl⟩
  | cons candidate rest ih =>
    obtain ⟨t', u', r, ht, hu, hagree⟩ := (h.scanOne args candidate best).elim
    rw [scan, scan, ht, hu]
    cases r with
    | next best => exact ih hagree best
    | choose | fail => exact ⟨hagree, rfl⟩

theorem Agree.markSelected (id : AccountId) (nowMs : Nat) :
    Alike (t.markSelected id nowMs) (u.markSelected id nowMs) := by
  have hdraw : Agree t.drawSequence.1 u.drawSequence.1 :=
    ⟨h.policy, congrArg (wrapAdd u64Max · 1) h.sequence, h.states⟩
  have hnumber : t.drawSequence.2 = u.drawSequence.2 := congrArg (satAdd u64Max · 1) h.sequence
  unfold AccountHealthTable.markSelected AccountHealthTable.writeSelection
  dsimp only
  rw [hdraw.states id, hnumber]
  cases u.drawSequence.1.get? id with
  | none => exact ⟨hdraw, rfl⟩
  | some s => exact ⟨hdraw.modify id _, rfl⟩

theorem Agree.select (candidates : List AccountCandidate) (args : SelectionArgs) :
    Alike (t.select candidates args) (u.select candidates args) := by
  obtain ⟨t', u', r, ht, hu, hagree⟩ := (h.scan args candidates none).elim
  unfold AccountHealthTable.select selectFrom
  rw [ht, hu]
  cases r with
  | error e => exact ⟨hagree, rfl⟩
  | ok choice =>
    obtain ⟨t'', u'', m, hmt, hmu, hagree'⟩ :=
      (hagree.markSelected choice.accountId args.nowMs).elim
    dsimp only
    rw [hmt, hmu]
    cases m with
    | error | ok => exact ⟨hagree', rfl⟩

theorem Agree.answer (call : TableCall) : Alike (call.answer t) (call.answer u) := by
  cases call with
  | observe id observation nowMs =>
    obtain ⟨hagree, hresult⟩ := h.observe id observation nowMs
    exact ⟨hagree, congrArg TableAnswer.observed hresult⟩
  | status id nowMs =>
    obtain ⟨hagree, hresult⟩ := h.status id nowMs
    exact ⟨hagree, congrArg TableAnswer.status hresult⟩
  | select candidates args =>
    obtain ⟨hagree, hresult⟩ := h.select candidates args
    exact ⟨hagree, congrArg TableAnswer.selected hresult⟩

/-- **Simulation.** Tables that agree answer every sequence of calls alike. -/
theorem Agree.answers (calls : List TableCall) : t.answers calls = u.answers calls := by
  induction calls generalizing t u with
  | nil => rfl
  | cons call rest ih =>
    obtain ⟨hagree, hanswer⟩ := h.answer call
    rw [answers, answers, hanswer, ih hagree]

end

/-! ## What `restore` brings back -/

theorem restoreLoop_nodup {maximum : Nat} (h : restoreLoop nowMs snapshots t restored maximum =
    .ok u) :
    (snapshots.map accountId).Nodup ∧
      ∀ snapshot ∈ snapshots, snapshot.accountId ∉ restored := by
  induction snapshots generalizing t restored maximum with
  | nil => exact ⟨List.nodup_nil, by simp⟩
  | cons snapshot rest ih =>
    rw [restoreLoop] at h
    split at h
    · cases h
    next hnew =>
    split at h
    · cases h
    split at h
    · cases h
    exact nodup_of_insert hnew (ih h)

/-- The restore loop writes every snapshot down and takes the largest sequence number. -/
theorem restoreLoop_states {maximum : Nat} (h : restoreLoop nowMs snapshots t restored maximum =
    .ok u) :
    (∀ snapshot ∈ snapshots, u.get? snapshot.accountId = some (snapshot.state.normalize nowMs)) ∧
      (∀ k, k ∉ snapshots.map accountId → u.get? k = t.get? k) ∧
      ∀ m, u.selectionSequence ≤ m ↔
        maximum ≤ m ∧ ∀ snapshot ∈ snapshots, snapshot.state.lastSelectedSequence ≤ m := by
  have hnd := (restoreLoop_nodup h).1
  induction snapshots generalizing t restored maximum with
  | nil =>
    simp only [restoreLoop, Except.ok.injEq] at h
    subst h
    exact ⟨by simp, fun _ _ => rfl, by simp⟩
  | cons snapshot rest ih =>
    rw [restoreLoop] at h
    split at h
    · cases h
    split at h
    · cases h
    split at h
    · cases h
    next s hs =>
    rw [List.map_cons, List.nodup_cons] at hnd
    obtain ⟨hwritten, hother, hmax⟩ := ih h hnd.2
    refine ⟨?_, ?_, ?_⟩
    · rw [List.forall_mem_cons]
      refine ⟨?_, hwritten⟩
      -- No later snapshot is of this account.
      rw [hother _ hnd.1, get?_modify_self, hs]
      rfl
    · intro k hk
      rw [List.map_cons, List.mem_cons, not_or] at hk
      rw [hother k hk.2, get?_modify, if_neg fun heq => hk.1 heq.symm]
    · intro m
      rw [hmax, List.forall_mem_cons, max_le_iff, and_assoc]

/-- The accounts a table was made for, and the numbers in it that fit a word. -/
structure Holds (policy : AccountHealthPolicy) (accounts : List AccountId)
    (t : AccountHealthTable) :
    Prop where
  policy_eq : t.policy = policy
  registered : ∀ k, (t.get? k).isSome = true ↔ k ∈ accounts
  counter_le : t.selectionSequence ≤ u64Max
  last_le : All (fun s => s.lastSelectedSequence ≤ u64Max) t

/-- The counter is the largest sequence number among the accounts, or zero. -/
def CounterCurrent (t : AccountHealthTable) : Prop :=
  ∀ m, t.selectionSequence ≤ m ↔ All (fun s => s.lastSelectedSequence ≤ m) t

/-- A table as a constructor returned it, from snapshots whose sequence numbers are words. -/
def StartedWith (policy : AccountHealthPolicy) (accounts : List AccountId)
    (t : AccountHealthTable) : Prop :=
  new policy accounts = .ok t ∨
    ∃ snapshots nowMs, (∀ snapshot ∈ snapshots, snapshot.state.lastSelectedSequence ≤ u64Max) ∧
      restore policy accounts snapshots nowMs = .ok t

/-- What `restore` builds from any snapshots it accepts. -/
theorem restore_states (h : restore policy accounts snapshots nowMs = .ok u) :
    u.policy = policy ∧ (∀ k, (u.get? k).isSome = true ↔ k ∈ accounts) ∧
      (∀ snapshot ∈ snapshots, u.get? snapshot.accountId = some (snapshot.state.normalize nowMs)) ∧
      (∀ k ∈ accounts, k ∉ snapshots.map accountId → u.get? k = some {}) ∧
      ∀ m, u.selectionSequence ≤ m ↔ ∀ snapshot ∈ snapshots,
      snapshot.state.lastSelectedSequence ≤ m := by
  unfold restore at h
  cases hnew : new policy accounts with
  | error e => rw [hnew] at h; cases h
  | ok t₀ =>
    rw [hnew] at h
    obtain ⟨hwritten, hother, hmax⟩ := restoreLoop_states h
    have hr := restoreLoop_restored h
    refine ⟨hr.policy_eq.trans (policy_new hnew), ?_, hwritten, ?_, ?_⟩
    · intro k
      rw [hr.registered, get?_new hnew]
      by_cases hk : k ∈ accounts <;> simp [hk]
    · intro k hk hnone
      rw [hother k hnone, get?_new hnew, if_pos hk]
    · intro m
      rw [hmax, and_iff_right (Nat.zero_le m)]

/-- The states of a table come back as `snapshots` left them, and the counter as the largest
    sequence number. -/
theorem restore_snapshots (ht : Holds policy accounts t)
    (h : restore policy accounts (t.snapshots nowMs).2 nowMs = .ok u) :
    u.policy = policy ∧ (∀ k, u.get? k = (t.snapshots nowMs).1.get? k) ∧
      ∀ m, u.selectionSequence ≤ m ↔ All (fun s => s.lastSelectedSequence ≤ m) t := by
  obtain ⟨hpolicy, hreg, hwritten, _, hmax⟩ := restore_states h
  refine ⟨hpolicy, ?_, ?_⟩
  · intro k
    rw [get?_snapshots]
    cases hk : t.get? k with
    | some s =>
      have hmem : ⟨k, s.normalize nowMs⟩ ∈ (t.snapshots nowMs).2 := mem_snapshots.mpr ⟨s, hk, rfl⟩
      rw [show u.get? k = _ from hwritten _ hmem]
      exact congrArg some normalize_normalize
    | none =>
      have hout : k ∉ accounts := fun hin => absurd ((ht.registered k).mpr hin) (by simp [hk])
      simpa using mt (hreg k).mp hout
  · intro m
    rw [hmax]
    constructor
    · intro hall k s hs
      simpa using hall ⟨k, s.normalize nowMs⟩ (mem_snapshots.mpr ⟨s, hs, rfl⟩)
    · rintro hall ⟨k, s⟩ hmem
      obtain ⟨s₀, hs₀, rfl⟩ := mem_snapshots.mp hmem
      simpa using hall k s₀ hs₀

/-- A constructor leaves the counter current. -/
theorem StartedWith.holds (h : StartedWith policy accounts t) : Holds policy accounts t ∧
    t.CounterCurrent := by
  rcases h with hnew | ⟨snapshots, nowMs, hwords, hrestore⟩
  · have hzero : ∀ m, All (fun s => s.lastSelectedSequence ≤ m) t := fun m =>
      all_new hnew (Nat.zero_le m)
    have hcounter := selectionSequence_new hnew
    refine ⟨⟨policy_new hnew, ?_, ?_, hzero _⟩, ?_⟩
    · intro k
      rw [get?_new hnew]
      by_cases hk : k ∈ accounts <;> simp [hk]
    · rw [hcounter]
      exact Nat.zero_le _
    · intro m
      rw [hcounter]
      exact ⟨fun _ => hzero m, fun _ => Nat.zero_le m⟩
  · obtain ⟨hpolicy, hreg, hwritten, hdefault, hmax⟩ := restore_states hrestore
    have hcurrent : t.CounterCurrent := by
      intro m
      rw [hmax]
      constructor
      · intro hall k s hs
        by_cases hmem : k ∈ snapshots.map accountId
        · obtain ⟨snapshot, hin, rfl⟩ := List.mem_map.mp hmem
          rw [hwritten snapshot hin] at hs
          cases hs
          simpa using hall snapshot hin
        · rw [hdefault k ((hreg k).mp (by rw [hs]; rfl)) hmem] at hs
          cases hs
          exact Nat.zero_le m
      · intro hall snapshot hin
        simpa using hall _ _ (hwritten snapshot hin)
    have hle : t.selectionSequence ≤ u64Max := (hmax u64Max).mpr hwords
    exact ⟨⟨hpolicy, hreg, hle, (hcurrent u64Max).mp hle⟩, hcurrent⟩

/-! ## What a run keeps -/

/-- The last selection of an account. -/
def last (t : AccountHealthTable) (id : AccountId) : Option Nat :=
  (t.get? id).map lastSelectedSequence

theorem all_last_iff {m : Nat} :
    All (fun s => s.lastSelectedSequence ≤ m) t ↔ ∀ k n, t.last k = some n → n ≤ m := by
  constructor
  · intro hall k n hn
    obtain ⟨s, hs, rfl⟩ := Option.map_eq_some_iff.mp hn
    exact hall k s hs
  · intro hall k s hs
    exact hall k _ (by rw [last, hs]; rfl)

/-- `u` has the policy, the accounts, the counter and the selections of `t`. -/
structure SameRecord (t u : AccountHealthTable) : Prop where
  policy_eq : u.policy = t.policy
  sequence_eq : u.selectionSequence = t.selectionSequence
  last_eq : ∀ k, u.last k = t.last k

theorem NormalizedFrom.sameRecord (h : NormalizedFrom nowMs t u) : SameRecord t u := by
  refine ⟨h.policy_eq, h.sequence_eq, fun k => ?_⟩
  rcases h.states k with hk | hk
  · rw [last, hk, last]
  · rw [last, hk, last, Option.map_map]
    congr 1
    funext s
    exact normalize_lastSelectedSequence

theorem SameRecord.modify (id : AccountId) {f : AccountState → AccountState}
    (hf : ∀ s, (f s).lastSelectedSequence = s.lastSelectedSequence) :
    SameRecord t (t.modify id f) := by
  refine ⟨rfl, rfl, fun k => ?_⟩
  rw [last, get?_modify, last]
  split
  · rw [Option.map_map]
    congr 1
    funext s
    exact hf s
  · rfl

theorem SameRecord.counterCurrent (h : SameRecord t u) (ht : t.CounterCurrent) :
    u.CounterCurrent := by
  intro m
  rw [h.sequence_eq, ht m, all_last_iff, all_last_iff]
  simp only [h.last_eq]

theorem observe_lastSelectedSequence (s : AccountState) (policy : AccountHealthPolicy)
    (observation : AccountObservation) (nowMs : Nat) :
    (s.observe policy observation nowMs).lastSelectedSequence = s.lastSelectedSequence := by
  have hnormal : (s.normalize nowMs).lastSelectedSequence = s.lastSelectedSequence :=
    normalize_lastSelectedSequence
  rw [← hnormal]
  cases observation with
  | quota remaining resetsAtMs =>
    simp only [AccountState.observe, AccountState.record, AccountState.touch]
    split <;> rfl
  | _ => rfl

/-- The account a turn of the scan is about is registered. -/
def ScanStep.Known (t : AccountHealthTable) : ScanStep → Prop
  | .next best => ∀ current ∈ best, (t.get? current.1.accountId).isSome = true
  | .choose choice => (t.get? choice.accountId).isSome = true
  | .fail _ => True

/-- A turn keeps or chooses only an account that it, or an earlier turn, has looked up. -/
theorem scanOne_known {candidate : AccountCandidate} {best : Best}
    (hbest : (ScanStep.next best).Known t) :
    (scanOne args t candidate best).2.Known (scanOne args t candidate best).1 := by
  obtain ⟨hframe, hnext | ⟨e, hfail⟩ | ⟨s, hs, -, hchoose | hnext⟩⟩ :=
    @scanOne_cases t args candidate best
  · rw [hnext]
    exact fun current hcurrent => hframe.registered.trans (hbest current hcurrent)
  · rw [hfail]
    trivial
  · rw [hchoose]
    exact hframe.registered.trans (by rw [hs]; rfl)
  · rw [hnext]
    rintro _ ⟨⟩
    exact hframe.registered.trans (by rw [hs]; rfl)

/-- An account that is chosen is registered. -/
theorem scan_known {candidates : List AccountCandidate} {best : Best} {choice : AccountChoice}
    (hbest : (ScanStep.next best).Known t) (h : (scan args candidates t best).2 = .ok choice) :
    ((scan args candidates t best).1.get? choice.accountId).isSome = true := by
  induction candidates generalizing t best with
  | nil =>
    cases best with
    | none => cases h
    | some b =>
      cases h
      exact hbest b rfl
  | cons candidate rest ih =>
    have hknown := @scanOne_known t args candidate best hbest
    rw [scan] at h ⊢
    cases hone : scanOne args t candidate best with
    | mk t' r =>
      rw [hone] at h hknown
      cases r with
      | next b => exact ih hknown h
      | choose c =>
        cases h
        exact hknown
      | fail e => cases h

/-- A selection that has drawn a number and written it to one account. -/
structure Draws (t u : AccountHealthTable) (id : AccountId) : Prop where
  policy_eq : u.policy = t.policy
  sequence_eq : u.selectionSequence = wrapAdd u64Max t.selectionSequence 1
  registered : (t.last id).isSome = true
  last_eq : ∀ k, u.last k = if id = k then some (satAdd u64Max t.selectionSequence 1) else t.last k

theorem select_record (candidates : List AccountCandidate) (args : SelectionArgs) :
    SameRecord t (t.select candidates args).1 ∨ ∃ id, Draws t (t.select candidates args).1 id := by
  have hframe := @scan_normalizedFrom t args candidates none
  have hknown := @scan_known t args candidates none
  unfold select selectFrom
  cases hscan : scan args candidates t none with
  | mk v r =>
    rw [hscan] at hframe hknown
    have hsame := hframe.sameRecord
    cases r with
    | error e => exact Or.inl hsame
    | ok choice =>
      have hreg : (v.get? choice.accountId).isSome = true :=
        hknown (fun current hcurrent => by cases hcurrent) rfl
      obtain ⟨s, hs⟩ := Option.isSome_iff_exists.mp hreg
      have hs' : v.drawSequence.1.get? choice.accountId = some s := hs
      refine Or.inr ⟨choice.accountId, ?_⟩
      simp only [markSelected, writeSelection, hs']
      refine ⟨hsame.policy_eq, congrArg (wrapAdd u64Max · 1) hsame.sequence_eq, ?_, ?_⟩
      · rw [← hsame.last_eq, last, hs]
        rfl
      · intro k
        rw [last, get?_modify]
        split
        next heq =>
          subst heq
          rw [hs', ← hsame.sequence_eq]
          rfl
        · exact hsame.last_eq k

/-- What a call does to the record: nothing, or it is a selection that draws a number. -/
theorem apply_record (op : TableOp) :
    SameRecord t (op.apply t) ∨ ∃ candidates args id, op = .select candidates args ∧
    Draws t (op.apply t) id := by
  cases op with
  | observe id observation nowMs =>
    refine .inl ?_
    show SameRecord t (t.observe id observation nowMs).1
    unfold observe
    cases t.get? id with
    | none => exact ⟨rfl, rfl, fun _ => rfl⟩
    | some s =>
      exact SameRecord.modify id fun s => observe_lastSelectedSequence s t.policy observation nowMs
  | select candidates args =>
    rcases @select_record t candidates args with hsame | ⟨id, hdraws⟩
    · exact .inl hsame
    · exact .inr ⟨candidates, args, id, rfl, hdraws⟩
  | status id nowMs => exact .inl (status_normalizedFrom id).sameRecord
  | snapshots nowMs =>
    refine .inl ⟨rfl, rfl, fun k => ?_⟩
    show (t.snapshots nowMs).1.last k = _
    rw [last, get?_snapshots, last, Option.map_map]
    congr 1
    funext s
    exact normalize_lastSelectedSequence

/-- The number of selections in a run. -/
def selections : List TableOp → Nat
  | [] => 0
  | .select _ _ :: rest => selections rest + 1
  | _ :: rest => selections rest

theorem SameRecord.holds (h : SameRecord t u) (hreg : ∀ k, (u.get? k).isSome = (t.get? k).isSome)
    (ht : Holds policy accounts t) : Holds policy accounts u := by
  refine ⟨h.policy_eq.trans ht.policy_eq, fun k => ?_, ?_, ?_⟩
  · rw [hreg, ht.registered]
  · rw [h.sequence_eq]
    exact ht.counter_le
  · rw [all_last_iff]
    simp only [h.last_eq]
    exact all_last_iff.mp ht.last_le

/-- No call changes the policy or the accounts, and all numbers stay words. -/
theorem holds_step (t : AccountHealthTable) (op : TableOp) (u : AccountHealthTable)
    (ht : Holds policy accounts t) (hu : tableStep t op = some u) : Holds policy accounts u := by
  cases hu
  have hreg : ∀ k, ((op.apply t).get? k).isSome = (t.get? k).isSome := fun k => registered_apply op
  rcases @apply_record t op with hsame | ⟨_, _, id, -, hdraws⟩
  · exact hsame.holds hreg ht
  · refine ⟨hdraws.policy_eq.trans ht.policy_eq, fun k => ?_, ?_, ?_⟩
    · rw [hreg, ht.registered]
    · rw [hdraws.sequence_eq, wrapAdd]
      exact Nat.lt_succ_iff.mp (Nat.mod_lt _ (Nat.succ_pos _))
    · rw [all_last_iff]
      intro k n hn
      rw [hdraws.last_eq] at hn
      split at hn
      · cases hn
        exact satAdd_le _ _ _
      · exact all_last_iff.mp ht.last_le k n hn

/-- A draw keeps the counter current, unless the counter is at its end. -/
theorem Draws.counterCurrent (hdraws : Draws t u id) (h : t.CounterCurrent)
    (hlt : t.selectionSequence < u64Max) :
    u.CounterCurrent := by
  intro m
  rw [hdraws.sequence_eq, wrapAdd_of_le (by omega), all_last_iff]
  simp only [hdraws.last_eq, satAdd_of_le (show t.selectionSequence + 1 ≤ u64Max by omega)]
  constructor
  · intro hm k n hn
    split at hn
    · cases hn
      exact hm
    · have hle := all_last_iff.mp ((h t.selectionSequence).mp le_rfl) k n hn
      omega
  · intro hall
    exact hall id _ (if_pos rfl)

/-- In a run that draws no more numbers than the counter has left, the counter stays current. -/
theorem counterCurrent_run {ops : List TableOp} (h : t.CounterCurrent)
    (hle : t.selectionSequence + selections ops ≤ u64Max) (hrun : run tableStep t ops = some u) :
    u.CounterCurrent := by
  induction ops generalizing t with
  | nil =>
    cases hrun
    exact h
  | cons op ops ih =>
    have hmore : selections ops ≤ selections (op :: ops) := by
      cases op <;> simp [selections]
    rcases @apply_record t op with hsame | ⟨candidates, args, id, rfl, hdraws⟩
    · exact ih (hsame.counterCurrent h) (by rw [hsame.sequence_eq]; omega) hrun
    · simp only [selections] at hle
      have hnext := hdraws.sequence_eq
      rw [wrapAdd_of_le (by omega)] at hnext
      exact ih (hdraws.counterCurrent h (by omega)) (by omega) hrun

/-- Without accounts no number is drawn. -/
theorem counterCurrent_step_nil (t : AccountHealthTable) (op : TableOp) (u : AccountHealthTable)
    (h : Holds policy [] t ∧ t.CounterCurrent) (hu : tableStep t op = some u) :
    Holds policy [] u ∧ u.CounterCurrent := by
  refine ⟨holds_step t op u h.1 hu, ?_⟩
  cases hu
  rcases @apply_record t op with hsame | ⟨_, _, id, -, hdraws⟩
  · exact hsame.counterCurrent h.2
  · have hid := hdraws.registered
    rw [last, Option.isSome_map, h.1.registered] at hid
    cases hid

/-! ## Telling two counters apart -/

/-- An account nothing is held against. -/
structure Clear (s : AccountState) : Prop where
  quarantined : s.quarantined = false
  cooldown : s.cooldownUntilMs = none
  remaining : s.quotaRemaining = none
  resets : s.quotaResetsAtMs = none

theorem Clear.normalize (h : Clear s) (nowMs : Nat) : s.normalize nowMs = s := by
  simp [AccountState.normalize, h.cooldown, h.resets]

theorem Clear.mark (h : Clear s) (sequence nowMs : Nat) : Clear (s.mark sequence nowMs) :=
  { h with }

/-- The call that offers one account. -/
def offerOne (id : AccountId) (nowMs : Nat) : TableCall :=
  .select [⟨id, .local, 1, primaryCandidate.4, primaryCandidate.5⟩] ⟨.local, none, nowMs⟩

/-- Offered alone, a clear account is chosen and marked with the next number. -/
theorem answer_offerOne (hs : t.get? id = some s) (hclear : Clear s) :
    ∃ u, (offerOne id nowMs).answer t = (u, .selected (.ok ⟨id, .weightedLeastRecentlyUsed⟩)) ∧
      u.get? id = some (s.mark (satAdd u64Max t.selectionSequence 1) nowMs) ∧
      u.selectionSequence = wrapAdd u64Max t.selectionSequence 1 := by
  have hkind : s.kind = .healthy := by
    simp [kind, hclear.quarantined, hclear.cooldown, hclear.remaining]
  have hnormal := hclear.normalize nowMs
  have hmod : ∀ w : AccountHealthTable, w.get? id = some s →
      (w.modify id fun s => s.normalize nowMs).get? id = some s := by
    intro w hw
    rw [get?_modify_self, hw, Option.map_some, hnormal]
  have hdrawn : (t.modify id fun s => s.normalize nowMs).drawSequence.1.get? id = some s :=
    hmod t hs
  refine ⟨(((t.modify id fun s => s.normalize nowMs).drawSequence.1).modify id fun s =>
    s.mark (satAdd u64Max t.selectionSequence 1) nowMs), ?_, ?_, rfl⟩
  · simp only [offerOne, TableCall.answer, select, selectFrom, scan, scanOne, status, hs, hnormal,
      AccountState.status, hkind, conclude, markSelected, writeSelection, hdrawn, ne_eq,
      not_true_eq_false, if_false, reduceCtorEq]
    rfl
  · rw [get?_modify_self, hdrawn]
    rfl

theorem answer_status (hs : t.get? id = some s) (hclear : Clear s) :
    ∃ u, (TableCall.status id nowMs).answer t = (u, .status (.ok s.status)) ∧ u.get? id = some s ∧
      u.selectionSequence = t.selectionSequence := by
  refine ⟨t.modify id fun s => s.normalize nowMs, ?_, ?_, rfl⟩
  · simp only [TableCall.answer, status, hs, hclear.normalize nowMs]
  · rw [get?_modify_self, hs, Option.map_some, hclear.normalize nowMs]

theorem answer_success (hs : t.get? id = some s) :
    ∃ u s', (TableCall.observe id .success nowMs).answer t = (u, .observed (.ok ())) ∧
      u.get? id = some s' ∧ Clear s' ∧ u.selectionSequence = t.selectionSequence := by
  refine ⟨_, s.observe t.policy .success nowMs, ?_, get?_observe_self hs, ⟨rfl, rfl, rfl, rfl⟩, ?_⟩
  · simp only [TableCall.answer]
    rw [observe, hs]
  · rw [observe, hs]
    rfl

/-- Calls that make an account clear, select it twice and ask for its state in between. -/
def probe (id : AccountId) (nowMs : Nat) : List TableCall :=
  [.observe id .success nowMs, offerOne id nowMs, .status id nowMs, offerOne id nowMs,
    .status id nowMs]

/-- The two numbers the probe reads. -/
theorem answers_probe (hs : t.get? id = some s) : ∃ s₁ s₂, t.answers (probe id nowMs) =
        [.observed (.ok ()), .selected (.ok ⟨id, .weightedLeastRecentlyUsed⟩), .status (.ok s₁),
          .selected (.ok ⟨id, .weightedLeastRecentlyUsed⟩), .status (.ok s₂)] ∧
      s₁.lastSelectedSequence = satAdd u64Max t.selectionSequence 1 ∧
      s₂.lastSelectedSequence = satAdd u64Max (wrapAdd u64Max t.selectionSequence 1) 1 := by
  obtain ⟨t₁, a, h₁, hget₁, hclear₁, hseq₁⟩ := @answer_success t id nowMs s hs
  obtain ⟨t₂, h₂, hget₂, hseq₂⟩ := @answer_offerOne t₁ id nowMs a hget₁ hclear₁
  obtain ⟨t₃, h₃, hget₃, hseq₃⟩ := @answer_status t₂ id nowMs _ hget₂ (hclear₁.mark _ _)
  obtain ⟨t₄, h₄, hget₄, hseq₄⟩ := @answer_offerOne t₃ id nowMs _ hget₃ (hclear₁.mark _ _)
  obtain ⟨t₅, h₅, _, _⟩ := @answer_status t₄ id nowMs _ hget₄ ((hclear₁.mark _ _).mark _ _)
  refine ⟨(a.mark (satAdd u64Max t₁.selectionSequence 1) nowMs).status,
    ((a.mark (satAdd u64Max t₁.selectionSequence 1) nowMs).mark
      (satAdd u64Max t₃.selectionSequence 1) nowMs).status, ?_, ?_, ?_⟩
  · simp only [probe, answers, h₁, h₂, h₃, h₄, h₅]
  · show satAdd u64Max t₁.selectionSequence 1 = _
    rw [hseq₁]
  · show satAdd u64Max t₃.selectionSequence 1 = _
    rw [hseq₃, hseq₂, hseq₁]

/-- Two numbers drawn in a row tell the counter they were drawn from. -/
theorem counter_of_draws {a b : Nat} (ha : a ≤ u64Max) (hb : b ≤ u64Max)
    (h₁ : satAdd u64Max a 1 = satAdd u64Max b 1)
    (h₂ : satAdd u64Max (wrapAdd u64Max a 1) 1 = satAdd u64Max (wrapAdd u64Max b 1) 1) : a = b := by
  have htop : 2 ≤ u64Max := by decide
  generalize u64Max = top at *
  have hwrap : ∀ n, n ≤ top → wrapAdd top n 1 = if n = top then 0 else n + 1 := by
    intro n hn
    split
    next heq => rw [heq, wrapAdd, Nat.mod_self]
    next hne => exact wrapAdd_of_le (by omega)
  rw [hwrap a ha, hwrap b hb] at h₂
  unfold satAdd at h₁ h₂
  split at h₂ <;> split at h₂ <;> omega

/-- Tables that answer a probe alike have the same counter. -/
theorem sequence_eq_of_probe {s' : AccountState} (ht : t.get? id = some s)
    (hu : u.get? id = some s') (htle : t.selectionSequence ≤ u64Max)
    (hule : u.selectionSequence ≤ u64Max) (h : t.answers (probe id nowMs) = u.answers
    (probe id nowMs)) :
    t.selectionSequence = u.selectionSequence := by
  obtain ⟨a₁, a₂, ha, ha₁, ha₂⟩ := @answers_probe t id nowMs s ht
  obtain ⟨b₁, b₂, hb, hb₁, hb₂⟩ := @answers_probe u id nowMs s' hu
  rw [ha, hb] at h
  simp only [List.cons.injEq, TableAnswer.status.injEq, Except.ok.injEq, true_and, and_true] at h
  refine counter_of_draws htle hule ?_ ?_
  · rw [← ha₁, ← hb₁, h.1]
  · rw [← ha₂, ← hb₂, h.2]

/-! ## The restored table answers as the original -/

/-- **Restoring is invisible while the counter is current.** A table that a run from a constructor
    has reached, and the table `restore` builds from its snapshots, give the same answers to all
    later calls exactly if the counter of the original is current; and it is current after every run
    whose selections the counter had room for. -/
theorem restore_answers_iff {policy : AccountHealthPolicy} {accounts : List AccountId}
    {t₀ t u : AccountHealthTable} {ops : List TableOp} {nowMs : Nat}
    (hstart : StartedWith policy accounts t₀) (hrun : run tableStep t₀ ops = some t)
    (hrestore : restore policy accounts (t.snapshots nowMs).2 nowMs = .ok u) :
    ((∀ calls : List TableCall, (∀ call ∈ calls, nowMs ≤ call.time) →
        u.answers calls = (t.snapshots nowMs).1.answers calls) ↔ t.CounterCurrent) ∧
      (t₀.selectionSequence + selections ops ≤ u64Max → t.CounterCurrent) := by
  obtain ⟨hholds₀, hcurrent₀⟩ := hstart.holds
  have hholds : Holds policy accounts t := (Along.of_step holds_step hholds₀).last hrun
  obtain ⟨hpolicy, hstates, hmax⟩ := restore_snapshots hholds hrestore
  have hcounter : u.selectionSequence = t.selectionSequence ↔ t.CounterCurrent := by
    constructor
    · intro heq m
      rw [← heq, hmax]
    · intro hcurrent
      exact le_antisymm ((hmax _).mpr ((hcurrent _).mp le_rfl))
        ((hcurrent _).mpr ((hmax _).mp le_rfl))
  refine ⟨⟨?_, ?_⟩, fun hroom => counterCurrent_run hcurrent₀ hroom hrun⟩
  · intro hsame
    cases accounts with
    | nil => exact ((Along.of_step counterCurrent_step_nil ⟨hholds₀, hcurrent₀⟩).last hrun).2
    | cons id rest =>
      have hprobe := hsame (probe id nowMs) (by simp [probe, offerOne, TableCall.time])
      obtain ⟨s, hs⟩ := Option.isSome_iff_exists.mp ((hholds.registered id).mpr (by simp))
      have hs' : (t.snapshots nowMs).1.get? id = some (s.normalize nowMs) := by
        rw [get?_snapshots, hs]
        rfl
      have hu : u.get? id = some (s.normalize nowMs) := (hstates id).trans hs'
      have hseq : u.selectionSequence = (t.snapshots nowMs).1.selectionSequence :=
        sequence_eq_of_probe hu hs' ((hmax _).mpr hholds.last_le) hholds.counter_le hprobe
      exact hcounter.mp hseq
  · intro hcurrent calls _
    have hagree : Agree u (t.snapshots nowMs).1 :=
      ⟨hpolicy.trans hholds.policy_eq.symm, hcounter.mpr hcurrent, hstates⟩
    exact hagree.answers calls

/-- The equivalence after one selection. -/
theorem restore_answers_iff_oneSelection :
    ∃ t₀ t u, new defaultPolicy [primaryAccount] = .ok t₀ ∧
      run tableStep t₀ [.select [primaryCandidate] primaryArgs] = some t ∧
      restore defaultPolicy [primaryAccount] (t.snapshots 5).2 5 = .ok u ∧
      ((∀ calls : List TableCall, (∀ call ∈ calls, 5 ≤ call.time) →
          u.answers calls = (t.snapshots 5).1.answers calls) ↔ t.CounterCurrent) ∧
      (t₀.selectionSequence + selections [.select [primaryCandidate] primaryArgs] ≤ u64Max →
        t.CounterCurrent) := by
  refine ⟨_, _, _, rfl, rfl, rfl, ?_⟩
  exact @restore_answers_iff defaultPolicy [primaryAccount] _ _ _
    [.select [primaryCandidate] primaryArgs] 5 (Or.inl rfl) rfl rfl

/-! ## A counter that has wrapped -/

/-- `restore` accepts what `snapshots` reports of restorable accounts. -/
theorem restore_isOk (nowMs : Nat) {t₀ : AccountHealthTable} (hnew : new policy accounts = .ok t₀)
    (ht : Holds policy accounts t) (hall : All Restorable t) :
    ∃ u, restore policy accounts (t.snapshots nowMs).2 nowMs = .ok u := by
  rw [restore, hnew]
  refine restoreLoop_isOk nodup_snapshots (by simp) ?_ ?_
  · rintro ⟨k, s⟩ hmem
    obtain ⟨s₀, hs₀, _⟩ := mem_snapshots.mp hmem
    rw [get?_new hnew, if_pos ((ht.registered k).mp (by rw [hs₀]; rfl))]
    rfl
  · rintro ⟨k, s⟩ hmem
    obtain ⟨s₀, hs₀, rfl⟩ := mem_snapshots.mp hmem
    exact (hall k s₀ hs₀).normalize nowMs

/-- The selection of the one account, as often as it takes. -/
def selectPrimary : TableOp :=
  .select [⟨primaryAccount, .local, 1, primaryCandidate.4, primaryCandidate.5⟩] ⟨.local, none, 0⟩

/-- The table after `n` selections of its one account, where the counter has wrapped at most
    once. -/
structure SelectedTimes (n : Nat) (t : AccountHealthTable) : Prop where
  counter : t.selectionSequence = n % (u64Max + 1)
  state : t.get? primaryAccount =
    some { selectionCount := min n u64Max, lastSelectedSequence := min n u64Max }

theorem SelectedTimes.select {n : Nat} (h : SelectedTimes n t) (hn : n ≤ u64Max) :
    SelectedTimes (n + 1) (selectPrimary.apply t) := by
  have hcounter : t.selectionSequence = n := by
    rw [h.counter]
    exact Nat.mod_eq_of_lt (by omega)
  obtain ⟨u, hanswer, hget, hseq⟩ := @answer_offerOne t primaryAccount 0 _ h.state
    ⟨rfl, rfl, rfl, rfl⟩
  have hu : selectPrimary.apply t = u := congrArg Prod.fst hanswer
  rw [hu]
  refine ⟨by rw [hseq, hcounter, wrapAdd], ?_⟩
  rw [hget, hcounter]
  have hsat : satAdd u64Max (min n u64Max) 1 = min (n + 1) u64Max := by unfold satAdd; omega
  simp only [mark, hsat]
  rfl

/-- Selecting on and on. -/
theorem SelectedTimes.run {n m : Nat} (h : SelectedTimes n t) (hm : n + m ≤ u64Max + 1) :
    ∃ u, Lib.run tableStep t (List.replicate m selectPrimary) = some u ∧
    SelectedTimes (n + m) u := by
  induction m generalizing n t with
  | zero => exact ⟨t, rfl, h⟩
  | succ m ih =>
    obtain ⟨u, hrun, hu⟩ := ih (h.select (by omega)) (by omega)
    refine ⟨u, hrun, ?_⟩
    rw [show n + (m + 1) = n + 1 + m by omega]
    exact hu

/-- After 2⁶⁴ selections of one account the counter is back at zero and the account's number is the
    largest there is. `restore` accepts the snapshot and sets the counter to that number; the next
    selections then draw different numbers on the two tables. -/
theorem restored_counter_differs :
    ∃ t₀ t u, new defaultPolicy [primaryAccount] = .ok t₀ ∧
      run tableStep t₀ (List.replicate (2 ^ 64) selectPrimary) = some t ∧
      restore defaultPolicy [primaryAccount] (t.snapshots 0).2 0 = .ok u ∧
      u.answers (probe primaryAccount 0) ≠ (t.snapshots 0).1.answers (probe primaryAccount 0) := by
  have hnew : new defaultPolicy [primaryAccount] =
      .ok ((empty defaultPolicy).insert primaryAccount {}) := rfl
  have hzero : SelectedTimes 0 ((empty defaultPolicy).insert primaryAccount {}) := ⟨rfl, rfl⟩
  obtain ⟨t, hrun, ht⟩ := hzero.run (show 0 + 2 ^ 64 ≤ u64Max + 1 by decide)
  have hholds : Holds defaultPolicy [primaryAccount] t :=
    (Along.of_step holds_step (StartedWith.holds (Or.inl hnew)).1).last hrun
  have hstate : t.get? primaryAccount =
      some { selectionCount := u64Max, lastSelectedSequence := u64Max } := ht.state
  have hcounter : t.selectionSequence = 0 := ht.counter
  have hall : All Restorable t := by
    intro k s hs
    have hk : k = primaryAccount := by simpa using (hholds.registered k).mp (by rw [hs]; rfl)
    rw [hk, hstate] at hs
    cases hs
    exact ⟨Nat.zero_le _, le_rfl, fun h => h, fun _ => rfl, rfl⟩
  obtain ⟨u, hu⟩ := restore_isOk 0 hnew hholds hall
  obtain ⟨_, hstates, hmax⟩ := restore_snapshots hholds hu
  refine ⟨_, t, u, hnew, hrun, hu, ?_⟩
  intro hsame
  have hs : (t.snapshots 0).1.get? primaryAccount =
      some ({ selectionCount := u64Max, lastSelectedSequence := u64Max } : AccountState) := by
    rw [get?_snapshots, hstate]
    rfl
  have hseq : u.selectionSequence = (t.snapshots 0).1.selectionSequence :=
    sequence_eq_of_probe ((hstates _).trans hs) hs
      ((hmax _).mpr hholds.last_le) hholds.counter_le hsame
  have hle : u64Max ≤ 0 :=
    (hmax 0).mp (by rw [hseq]; exact hcounter.le) primaryAccount _ hstate
  exact absurd hle (by decide)

end AccountHealthTable

end Wokcore.Engine
