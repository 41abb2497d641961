import Wokcore.Lib.Run
import Wokcore.Engine.AccountState
import Wokcore.Engine.AccountTable

/-!
# When a table can be rebuilt

`reconfigured` reads every account's state out of the table and hands the states to `restore`. The
callers in the server `expect` it to succeed, after the configuration it is called for has been
written to disk. This module settles when it does: a table can be rebuilt for every account list and
at every instant exactly when each of its states is restorable, and along a run that is so exactly
when every step meets `TableOp.Tolerated`.
-/

set_option autoImplicit false

namespace Wokcore.Engine

open Lib Wokcore.Core AccountState

namespace AccountHealthTable

variable {accounts : List AccountId} {f : AccountState → AccountState} {s : AccountState}
  {observation : AccountObservation}

/-! ## Properties of all states of a table -/

/-- Every registered account's state satisfies `P`. -/
def All (P : AccountState → Prop) (t : AccountHealthTable) : Prop :=
  ∀ id s, t.get? id = some s → P s

variable {P : AccountState → Prop} {t u : AccountHealthTable} {id k : AccountId}
  {nowMs maximum : Nat} {snapshots : List AccountHealthSnapshot}
  {policy : AccountHealthPolicy} {restored : Finset AccountId}

theorem All.modify (h : All P t) (hf : ∀ s, t.get? id = some s → P (f s)) :
    All P (t.modify id f) := by
  intro k s hk
  rw [get?_modify] at hk
  split at hk
  · next hid =>
    subst hid
    obtain ⟨s₀, hs₀, rfl⟩ := Option.map_eq_some_iff.mp hk
    exact hf s₀ hs₀
  · exact h k s hk

theorem all_new (h : new policy accounts = .ok t) (hP : P {}) : All P t := by
  intro k s hk
  rw [get?_new h] at hk
  split at hk
  · cases hk
    exact hP
  · cases hk

/-! ## `restore` -/

/-- What a successful run of the restore loop has established about the table it returns. -/
structure Restored (nowMs : Nat) (snapshots : List AccountHealthSnapshot) (t : AccountHealthTable)
    (maximum : Nat) (u : AccountHealthTable) : Prop where
  policy_eq : u.policy = t.policy
  registered : ∀ k, (u.get? k).isSome = (t.get? k).isSome
  accepted : ∀ snapshot ∈ snapshots, snapshot.state.Restorable
  maximum_le : maximum ≤ u.selectionSequence
  last_le : ∀ snapshot ∈ snapshots, snapshot.state.lastSelectedSequence ≤ u.selectionSequence
  all : ∀ P : AccountState → Prop, All P t →
    (∀ snapshot ∈ snapshots, P (snapshot.state.normalize nowMs)) → All P u

theorem isSome_get?_modify (f : AccountState → AccountState) :
    ((t.modify id f).get? k).isSome = (t.get? k).isSome := by
  rw [get?_modify]
  split
  · rw [Option.isSome_map]
  · rfl

theorem restoreLoop_restored (h : restoreLoop nowMs snapshots t restored maximum = .ok u) :
    Restored nowMs snapshots t maximum u := by
  induction snapshots generalizing t restored maximum with
  | nil =>
    simp only [restoreLoop, Except.ok.injEq] at h
    subst h
    exact ⟨rfl, fun _ => rfl, by simp, le_refl _, by simp, fun _ hP _ => hP⟩
  | cons snapshot rest ih =>
    rw [restoreLoop] at h
    split at h
    · cases h
    split at h
    · cases h
    next hrej =>
    split at h
    · cases h
    obtain ⟨hp, hreg, hacc, hmax, hlast, hall⟩ := ih h
    have hok : snapshot.state.Restorable := rejected_iff.mp (by simpa using hrej)
    refine ⟨hp, ?_, ?_, le_trans (le_max_left _ _) hmax, ?_, ?_⟩
    · intro k
      rw [hreg, isSome_get?_modify]
    · rw [List.forall_mem_cons]
      exact ⟨hok, hacc⟩
    · rw [List.forall_mem_cons]
      exact ⟨le_trans (le_max_right _ _) hmax, hlast⟩
    · intro P hPt hPs
      rw [List.forall_mem_cons] at hPs
      exact hall P (hPt.modify fun _ _ => hPs.1) hPs.2

/-- The restore loop succeeds on distinct, registered, acceptable snapshots. -/
theorem restoreLoop_isOk (hnd : (snapshots.map AccountHealthSnapshot.accountId).Nodup)
    (hnew : ∀ snapshot ∈ snapshots, snapshot.accountId ∉ restored)
    (hreg : ∀ snapshot ∈ snapshots, (t.get? snapshot.accountId).isSome)
    (hacc : ∀ snapshot ∈ snapshots, snapshot.state.Restorable) :
    ∃ u, restoreLoop nowMs snapshots t restored maximum = .ok u := by
  induction snapshots generalizing t restored maximum with
  | nil => exact ⟨_, rfl⟩
  | cons snapshot rest ih =>
    rw [List.map_cons, List.nodup_cons] at hnd
    rw [List.forall_mem_cons] at hnew hreg hacc
    obtain ⟨s, hs⟩ := Option.isSome_iff_exists.mp hreg.1
    have hrej : snapshot.rejected = false := rejected_iff.mpr hacc.1
    rw [restoreLoop, if_neg hnew.1, if_neg (by simp [hrej]), hs]
    refine ih hnd.2 ?_ ?_ hacc.2
    · intro other hother hmem
      rcases Finset.mem_insert.mp hmem with heq | hin
      · exact hnd.1 (List.mem_map.mpr ⟨other, hother, heq⟩)
      · exact hnew.2 other hother hin
    · intro other hother
      rw [isSome_get?_modify]
      exact hreg.2 other hother

/-! ## `reconfigured` -/

/-- The table can be rebuilt for every account list `new` accepts, at every instant. -/
def Reconfigurable (t : AccountHealthTable) : Prop :=
  ∀ accounts nowMs, accounts.Nodup → accounts.length ≤ maxAccounts →
    ∃ u, (t.reconfigured accounts nowMs).2 = .ok u

/-- The snapshots `reconfigured` hands to `restore`. -/
def retainedSnapshots (t : AccountHealthTable) (accounts : List AccountId) (nowMs : Nat) :
    List AccountHealthSnapshot :=
  (t.snapshots nowMs).2.filter fun s => s.accountId ∈ accounts.toFinset

theorem mem_retainedSnapshots :
    ⟨k, s⟩ ∈ t.retainedSnapshots accounts nowMs ↔
      k ∈ accounts ∧ ∃ s₀, t.get? k = some s₀ ∧ s = s₀.normalize nowMs := by
  rw [retainedSnapshots, List.mem_filter, mem_snapshots]
  simp [and_comm]

theorem nodup_retainedSnapshots :
    ((t.retainedSnapshots accounts nowMs).map AccountHealthSnapshot.accountId).Nodup :=
  List.Nodup.sublist (List.filter_sublist.map _) nodup_snapshots

theorem reconfigured_eq (accounts : List AccountId) :
    (t.reconfigured accounts nowMs).2 =
      restore t.policy accounts (t.retainedSnapshots accounts nowMs) nowMs := rfl

/-- A successful `restore` went through `new` and the loop. -/
theorem restore_inv (h : restore policy accounts snapshots nowMs = .ok u) :
    ∃ t, new policy accounts = .ok t ∧ Restored nowMs snapshots t 0 u := by
  unfold restore at h
  cases hn : new policy accounts with
  | error e => rw [hn] at h; cases h
  | ok t =>
    rw [hn] at h
    exact ⟨t, rfl, restoreLoop_restored h⟩

theorem all_retainedSnapshots (h : All Restorable t) :
    ∀ snapshot ∈ t.retainedSnapshots accounts nowMs, snapshot.state.Restorable := by
  rintro ⟨k, s⟩ hmem
  obtain ⟨_, s₀, hs₀, rfl⟩ := mem_retainedSnapshots.mp hmem
  exact (h k s₀ hs₀).normalize nowMs

theorem All.reconfigurable (h : All Restorable t) : t.Reconfigurable := by
  intro accounts nowMs hnd hlen
  have hnew : new t.policy accounts =
      .ok (accounts.foldl (fun t account => t.insert account {}) (empty t.policy)) :=
    new_eq_ok_iff.mpr ⟨hnd, hlen, rfl⟩
  rw [reconfigured_eq, restore, hnew]
  refine restoreLoop_isOk nodup_retainedSnapshots (by simp) ?_ (all_retainedSnapshots h)
  rintro ⟨k, s⟩ hmem
  rw [get?_new hnew, if_pos (mem_retainedSnapshots.mp hmem).1]
  rfl

/-- A table of restorable states is rebuilt into one, with exactly the accounts it was rebuilt
    for. -/
theorem All.reconfigured (h : All Restorable t) (hnd : accounts.Nodup)
    (hlen : accounts.length ≤ maxAccounts) :
    ∃ u, (t.reconfigured accounts nowMs).2 = .ok u ∧ All Restorable u ∧
      ∀ k, (u.get? k).isSome ↔ k ∈ accounts := by
  obtain ⟨u, hu⟩ := h.reconfigurable accounts nowMs hnd hlen
  refine ⟨u, hu, ?_, ?_⟩
  all_goals
    obtain ⟨t₀, hnew, hr⟩ := restore_inv hu
  · refine hr.all _ (all_new hnew restorable_default) fun snapshot hmem => ?_
    exact (hr.accepted snapshot hmem).normalize nowMs
  · intro k
    rw [hr.registered, get?_new hnew]
    by_cases hk : k ∈ accounts
    · simp [hk]
    · simp [hk]

/-- Rebuilding for one account at the instant zero shows that account's state as it is. -/
theorem Reconfigurable.all (hw : All Wellformed t) (h : t.Reconfigurable) : All Restorable t := by
  intro k s hk
  have hlen : [k].length ≤ maxAccounts := by
    rw [List.length_singleton]
    decide
  obtain ⟨u, hu⟩ := h [k] 0 (List.nodup_singleton k) hlen
  rw [reconfigured_eq] at hu
  obtain ⟨_, _, hr⟩ := restore_inv hu
  have hmem : ⟨k, s.normalize 0⟩ ∈ t.retainedSnapshots [k] 0 :=
    mem_retainedSnapshots.mpr ⟨by simp, s, hk, rfl⟩
  exact Restorable.of_normalize_zero (hw k s hk) (hr.accepted _ hmem)

/-! ## Frame of a scan -/

/-- `u` is `t` with some of its accounts normalised at `nowMs`. -/
structure NormalizedFrom (nowMs : Nat) (t u : AccountHealthTable) : Prop where
  policy_eq : u.policy = t.policy
  sequence_eq : u.selectionSequence = t.selectionSequence
  states : ∀ k, u.get? k = t.get? k ∨ u.get? k = (t.get? k).map fun s => s.normalize nowMs

theorem NormalizedFrom.refl (t : AccountHealthTable) : NormalizedFrom nowMs t t :=
  ⟨rfl, rfl, fun _ => Or.inl rfl⟩

theorem NormalizedFrom.trans {v : AccountHealthTable} (h₁ : NormalizedFrom nowMs t u)
    (h₂ : NormalizedFrom nowMs u v) : NormalizedFrom nowMs t v := by
  refine ⟨h₂.policy_eq.trans h₁.policy_eq, h₂.sequence_eq.trans h₁.sequence_eq, fun k => ?_⟩
  rcases h₂.states k with hv | hv <;> rcases h₁.states k with hu | hu
  · exact Or.inl (hv.trans hu)
  · exact Or.inr (hv.trans hu)
  · exact Or.inr (by rw [hv, hu])
  · refine Or.inr ?_
    rw [hv, hu, Option.map_map]
    congr 1
    funext s
    exact normalize_normalize

theorem NormalizedFrom.all (h : NormalizedFrom nowMs t u) (hP : ∀ s, P s → P (s.normalize nowMs))
    (ht : All P t) : All P u := by
  intro k s hk
  rcases h.states k with hu | hu
  · exact ht k s (hu ▸ hk)
  · rw [hu] at hk
    obtain ⟨s₀, hs₀, rfl⟩ := Option.map_eq_some_iff.mp hk
    exact hP s₀ (ht k s₀ hs₀)

/-- A normalised account has the selection record it had. -/
theorem NormalizedFrom.get?_inv (h : NormalizedFrom nowMs t u) (hk : u.get? k = some s) :
    ∃ s₀, t.get? k = some s₀ ∧ s₀.selectionCount = s.selectionCount ∧
      s₀.lastSelectedSequence = s.lastSelectedSequence := by
  rcases h.states k with hu | hu
  · exact ⟨s, hu ▸ hk, rfl, rfl⟩
  · rw [hu] at hk
    obtain ⟨s₀, hs₀, rfl⟩ := Option.map_eq_some_iff.mp hk
    exact ⟨s₀, hs₀, by simp, by simp⟩

theorem status_normalizedFrom (id : AccountId) : NormalizedFrom nowMs t (t.status id nowMs).1 := by
  unfold status
  cases h : t.get? id with
  | none => exact .refl t
  | some s =>
    refine ⟨rfl, rfl, fun k => ?_⟩
    rw [get?_modify]
    split
    · exact Or.inr rfl
    · exact Or.inl rfl

/-- What a turn of a scan does: it goes on, fails, or takes a candidate that is healthy. -/
theorem scanOne_cases (args : SelectionArgs) (candidate : AccountCandidate) (best : Best) :
    NormalizedFrom args.nowMs t (scanOne args t candidate best).1 ∧
      ((scanOne args t candidate best).2 = .next best ∨
        (∃ e, (scanOne args t candidate best).2 = .fail e) ∨ ∃ s, t.get? candidate.accountId =
          some s ∧ (s.normalize args.nowMs).kind = .healthy ∧
            ((scanOne args t candidate best).2 = .choose ⟨candidate.accountId, .affinity⟩ ∨
              (scanOne args t candidate best).2 = .next
              (some (candidate, (s.normalize args.nowMs).status)))) := by
  unfold scanOne
  split
  · exact ⟨.refl t, .inl rfl⟩
  have hs := @status_normalizedFrom t args.nowMs candidate.accountId
  cases hget : t.get? candidate.accountId with
  | none =>
    rw [status, hget]
    exact ⟨.refl t, .inr (.inl ⟨_, rfl⟩)⟩
  | some s =>
    rw [status, hget] at hs ⊢
    dsimp only at hs ⊢
    split
    · exact ⟨hs, .inl rfl⟩
    · next hkind =>
      have hhealthy := not_not.mp hkind
      split
      · exact ⟨hs, .inr (.inr ⟨s, rfl, hhealthy, .inl rfl⟩)⟩
      cases best with
      | none => exact ⟨hs, .inr (.inr ⟨s, rfl, hhealthy, .inr rfl⟩)⟩
      | some b =>
        dsimp only
        split
        · exact ⟨hs, .inr (.inr ⟨s, rfl, hhealthy, .inr rfl⟩)⟩
        · exact ⟨hs, .inl rfl⟩

theorem scan_normalizedFrom (args : SelectionArgs) (candidates : List AccountCandidate)
    (best : Best) :
    NormalizedFrom args.nowMs t (scan args candidates t best).1 := by
  induction candidates generalizing t best with
  | nil => exact .refl t
  | cons candidate rest ih =>
    have hone := (@scanOne_cases t args candidate best).1
    rw [scan]
    split
    · next heq => rw [heq] at hone; exact hone.trans (ih _)
    · next heq => rw [heq] at hone; exact hone
    · next heq => rw [heq] at hone; exact hone

/-! ## Whole runs -/

/-- A call on the table, as the server makes them. -/
inductive TableOp where
  | observe (accountId : AccountId) (observation : AccountObservation) (nowMs : Nat)
  | select (candidates : List AccountCandidate) (args : SelectionArgs)
  | status (accountId : AccountId) (nowMs : Nat)
  | snapshots (nowMs : Nat)

/-- The table after a call, whether the call answered with a value or an error. -/
def TableOp.apply (t : AccountHealthTable) : TableOp → AccountHealthTable
  | .observe accountId observation nowMs => (t.observe accountId observation nowMs).1
  | .select candidates args => (t.select candidates args).1
  | .status accountId nowMs => (t.status accountId nowMs).1
  | .snapshots nowMs => (t.snapshots nowMs).1

def tableStep (t : AccountHealthTable) (op : TableOp) : Option AccountHealthTable :=
  some (op.apply t)

/-- **The condition on a step.** An observation must be one its account tolerates, and the account a
    selection is going to mark must not have been selected more often than the counter has counted
    (which happens only once the 64-bit counter has wrapped). -/
def TableOp.Tolerated (t : AccountHealthTable) : TableOp → Prop
  | .observe accountId observation _ => ∀ s, t.get? accountId = some s → s.Tolerates observation
  | .select candidates args =>
      ∀ choice, (scan args candidates t none).2 = .ok choice →
        ∀ s, t.get? choice.accountId = some s →
          satAdd u64Max s.selectionCount 1 ≤ satAdd u64Max t.selectionSequence 1
  | .status _ _ => True
  | .snapshots _ => True

/-- A selection is a scan and, if the scan made a choice, one marked account. -/
theorem select_cases (candidates : List AccountCandidate) (args : SelectionArgs) :
    (∃ v, NormalizedFrom args.nowMs t v ∧
      (∃ e, (scan args candidates t none).2 = .error e) ∧ (t.select candidates args).1 = v) ∨
    (∃ v choice, NormalizedFrom args.nowMs t v ∧ (scan args candidates t none).2 = .ok choice ∧
      (t.select candidates args).1 =
        (v.drawSequence.1.writeSelection choice.accountId v.drawSequence.2 args.nowMs).1) := by
  have hframe := @scan_normalizedFrom t args candidates none
  unfold select selectFrom
  cases hscan : scan args candidates t none with
  | mk v r =>
    rw [hscan] at hframe
    cases r with
    | error e => exact Or.inl ⟨v, hframe, ⟨e, rfl⟩, rfl⟩
    | ok choice =>
      refine Or.inr ⟨v, choice, hframe, rfl, ?_⟩
      dsimp only [markSelected]
      cases v.drawSequence.1.writeSelection choice.accountId v.drawSequence.2 args.nowMs with
      | mk w r => cases r <;> rfl

theorem get?_writeSelection {sequence : Nat} :
    (t.writeSelection id sequence nowMs).1.get? k =
      if id = k then (t.get? k).map fun s => s.mark sequence nowMs else t.get? k := by
  unfold AccountHealthTable.writeSelection
  cases hid : t.get? id with
  | none =>
    by_cases heq : id = k
    · subst heq
      rw [if_pos rfl]
      rw [hid]
      rfl
    · rw [if_neg heq]
  | some s => exact get?_modify _

/-- The instant a call is made at. -/
def TableOp.time : TableOp → Nat
  | .observe _ _ nowMs => nowMs
  | .select _ args => args.nowMs
  | .status _ nowMs => nowMs
  | .snapshots nowMs => nowMs

/-- **What a call does to the state of an account.** -/
inductive Moves (t : AccountHealthTable) (k : AccountId) : TableOp → AccountState →
    AccountState → Prop
  | kept {op : TableOp} {s : AccountState} : Moves t k op s s
  | normalized {op : TableOp} {s : AccountState} : Moves t k op s (s.normalize op.time)
  | observed {observation : AccountObservation} {nowMs : Nat} {s : AccountState} :
      Moves t k (.observe k observation nowMs) s (s.observe t.policy observation nowMs)
  | marked {candidates : List AccountCandidate} {args : SelectionArgs} {choice : AccountChoice}
      {s s₁ : AccountState} (hchoice : (scan args candidates t none).2 = .ok choice)
      (hid : choice.accountId = k) (h : s₁ = s ∨ s₁ = s.normalize args.nowMs) :
      Moves t k (.select candidates args) s
      (s₁.mark (satAdd u64Max t.selectionSequence 1) args.nowMs)

theorem moves_apply (op : TableOp) (k : AccountId) :
    ∃ f, (op.apply t).get? k = (t.get? k).map f ∧ ∀ s, Moves t k op s (f s) := by
  have hnormal : ∀ u, NormalizedFrom op.time t u →
      ∃ f, u.get? k = (t.get? k).map f ∧ ∀ s, Moves t k op s (f s) := by
    intro u hu
    rcases hu.states k with h | h
    · exact ⟨_, h.trans Option.map_id'.symm, fun s => .kept⟩
    · exact ⟨_, h, fun s => .normalized⟩
  cases op with
  | observe id observation nowMs =>
    simp only [TableOp.apply, observe]
    cases t.get? id with
    | none => exact hnormal t (.refl t)
    | some s =>
      dsimp only
      rw [get?_modify]
      split
      · next hid =>
        subst hid
        exact ⟨_, rfl, fun s => .observed⟩
      · exact hnormal t (.refl t)
  | select candidates args =>
    rw [TableOp.apply]
    rcases @select_cases t candidates args with ⟨v, hframe, _, hv⟩ | ⟨v, choice, hframe,
      hchoice, hv⟩
    · rw [hv]
      exact hnormal v hframe
    · have hdrawn : v.drawSequence.2 = satAdd u64Max t.selectionSequence 1 := by
        rw [← hframe.sequence_eq]
        rfl
      rw [hv, get?_writeSelection, hdrawn, show v.drawSequence.1.get? k = v.get? k from rfl]
      split
      · next hid =>
        rcases hframe.states k with h | h <;> rw [h]
        · exact ⟨_, rfl, fun s => .marked hchoice hid (.inl rfl)⟩
        · exact ⟨_, Option.map_map .., fun s => .marked hchoice hid (.inr rfl)⟩
      · exact hnormal v hframe
  | status id nowMs => exact hnormal _ (status_normalizedFrom id)
  | snapshots nowMs => exact ⟨_, get?_snapshots, fun s => .normalized⟩

theorem NormalizedFrom.registered (h : NormalizedFrom nowMs t u) :
    (u.get? k).isSome = (t.get? k).isSome := by
  rcases h.states k with hu | hu
  · rw [hu]
  · rw [hu, Option.isSome_map]

/-- No call registers or drops an account. -/
theorem registered_apply (op : TableOp) : ((op.apply t).get? k).isSome = (t.get? k).isSome := by
  obtain ⟨f, hf, -⟩ := @moves_apply t op k
  rw [hf, Option.isSome_map]

theorem get?_apply {op : TableOp} {s' : AccountState} (h : (op.apply t).get? k = some s') :
    ∃ s, t.get? k = some s ∧ Moves t k op s s' := by
  obtain ⟨f, hf, hmoves⟩ := @moves_apply t op k
  rw [hf] at h
  obtain ⟨s, hs, rfl⟩ := Option.map_eq_some_iff.mp h
  exact ⟨s, hs, hmoves s⟩

/-- No step breaks what `Wellformed` says. -/
theorem wellformed_step (t : AccountHealthTable) (op : TableOp) (u : AccountHealthTable)
    (h : All Wellformed t) (hu : tableStep t op = some u) : All Wellformed u := by
  cases hu
  intro k s' hs'
  obtain ⟨s, hs, hmoves⟩ := get?_apply hs'
  have hwell := h k s hs
  cases hmoves with
  | kept => exact hwell
  | normalized => exact hwell.normalize _
  | observed => exact hwell.observe _ _ _
  | marked _ _ hs₁ =>
    rcases hs₁ with rfl | rfl
    · exact hwell.mark _ _
    · exact (hwell.normalize _).mark _ _

/-- A tolerated step keeps every state restorable. -/
theorem restorable_step (t : AccountHealthTable) (op : TableOp) (u : AccountHealthTable)
    (h : All Restorable t) (hop : op.Tolerated t) (hu : tableStep t op = some u) :
    All Restorable u := by
  cases hu
  intro k s' hs'
  obtain ⟨s, hs, hmoves⟩ := get?_apply hs'
  have hrest := h k s hs
  cases hmoves with
  | kept => exact hrest
  | normalized => exact hrest.normalize _
  | observed => exact hrest.observe _ _ (hop s hs)
  | marked hchoice hid hs₁ =>
    subst hid
    have hcount := hop _ hchoice s hs
    rcases hs₁ with rfl | rfl
    · exact (hrest.mark_iff _).mpr hcount
    · exact ((hrest.normalize _).mark_iff _).mpr (by simpa using hcount)

theorem get?_observe_self (h : t.get? id = some s) :
    (t.observe id observation nowMs).1.get? id = some (s.observe t.policy observation nowMs) := by
  unfold observe
  rw [h]
  rw [get?_modify_self, h]
  rfl

/-- A step that is not tolerated ends in a table that is not restorable. -/
theorem tolerated_of_step (t : AccountHealthTable) (op : TableOp) (u : AccountHealthTable)
    (hu : tableStep t op = some u) (hnext : All Restorable u) : op.Tolerated t := by
  cases hu
  cases op with
  | observe id observation nowMs =>
    intro s hs
    exact Tolerates.of_observe nowMs t.policy (hnext id _ (get?_observe_self hs))
  | select candidates args =>
    intro choice hchoice s hs
    rcases select_cases candidates args with ⟨_, _, ⟨e, he⟩, _⟩ | ⟨v, c, hframe, hc, hv⟩
    · rw [hchoice] at he
      cases he
    rw [hchoice] at hc
    cases hc
    -- The marked account exists in the scanned table, with the selection count it had before.
    obtain ⟨s', hs', hcount⟩ : ∃ s', v.drawSequence.1.get? choice.accountId = some s' ∧
        s'.selectionCount = s.selectionCount := by
      rcases hframe.states choice.accountId with hst | hst
      · exact ⟨s, by rw [← hs, ← hst]; rfl, rfl⟩
      · exact ⟨s.normalize args.nowMs, by rw [hs] at hst; exact hst, by simp⟩
    have hmarked : (TableOp.apply t (.select candidates args)).get? choice.accountId =
        some (s'.mark v.drawSequence.2 args.nowMs) := by
      show (t.select candidates args).1.get? choice.accountId = _
      rw [hv, writeSelection, hs']
      rw [get?_modify_self, hs']
      rfl
    have hle := (hnext _ _ hmarked).count_le
    rw [← hcount, ← hframe.sequence_eq]
    exact hle
  | status | snapshots => trivial

/-- **A table can be rebuilt throughout a run exactly when every step of the run is tolerated.** The
    table is any the constructor returns, and the run any sequence of calls. -/
theorem reconfigurable_along_iff_tolerated {policy : AccountHealthPolicy}
    {accounts : List AccountId} {t : AccountHealthTable} (hnew : new policy accounts = .ok t)
    (ops : List TableOp) :
    Along tableStep Reconfigurable t ops ↔
      StepsMeet tableStep (fun t op => op.Tolerated t) t ops := by
  have hwell : Along tableStep (All Wellformed) t ops :=
    Along.of_step wellformed_step (all_new hnew wellformed_default)
  constructor
  · intro h
    have hall : Along tableStep (All Restorable) t ops :=
      (hwell.and h).imp fun _ hs => hs.2.all hs.1
    have hen : ∀ s op, ∃ u, tableStep s op = some u := fun s op => ⟨op.apply s, rfl⟩
    refine StepsMeet.of_along hen ?_ hall
    intro s op u _ hu hnext
    exact tolerated_of_step s op u hu hnext
  · intro h
    exact (Along.of_stepsMeet restorable_step (all_new hnew restorable_default) h).imp
      fun _ hs => hs.reconfigurable

/-- The server's policy: `base_cooldown_ms` 1000 and `max_cooldown_ms` 60000. -/
def defaultPolicy : AccountHealthPolicy := ⟨1000, 60000, by decide, by decide, by decide⟩

def primaryAccount : AccountId := ⟨"primary", isValid_primary⟩

/-- A success after a quarantine is a tolerated run. -/
theorem reconfigurable_along_quarantine_recovery :
    ∃ t, new defaultPolicy [primaryAccount] = .ok t ∧
      Along tableStep Reconfigurable t
        [.observe primaryAccount .invalidCredentials 5, .observe primaryAccount .success 9] := by
  have hnew : new defaultPolicy [primaryAccount] =
      .ok ((empty defaultPolicy).insert primaryAccount {}) := rfl
  refine ⟨_, hnew, (reconfigurable_along_iff_tolerated hnew _).mpr ?_⟩
  refine ⟨fun s hs => ?_, fun u hu => ⟨fun s hs => trivial, fun _ _ => trivial⟩⟩
  cases hs
  exact Nat.zero_lt_succ 63

/-- A rejected credential and then a temporary failure leave the account quarantined and cooling
    down, and the table can no longer be rebuilt. -/
theorem not_reconfigurable_after_quarantined_failure :
    ∃ t u, new defaultPolicy [primaryAccount] = .ok t ∧
      run tableStep t
        [.observe primaryAccount .invalidCredentials 0,
          .observe primaryAccount (.temporaryFailure none) 0] = some u ∧
      (u.reconfigured [primaryAccount] 0).2 = .error .invalidSnapshot :=
  ⟨_, _, rfl, rfl, rfl⟩

end AccountHealthTable

end Wokcore.Engine
