import Wokcore.Engine.Accounts

/-!
# What the table operations do to each account

One lemma for each operation of the account health table, stated on `get?`. Nothing below this
module looks into a shard again: a table is its policy, its counter and the partial function from
identifiers to states, and `new`, `restore` and `snapshots` are described in those terms.
-/

set_option autoImplicit false

namespace Wokcore.Engine

open Wokcore.Core AccountHealthSnapshot Std.TreeMap

namespace AccountHealthTable

variable {t : AccountHealthTable} {id k : AccountId} {accounts : List AccountId}
    {policy : AccountHealthPolicy}

/-- A change to one account in its shard. -/
theorem getElem?_update {shard : Shard} {s : Option AccountState}
    (h : shard[k]? = if id = k then s else (t.shards (accountShard id))[k]?) :
    (Function.update t.shards (accountShard id) shard (accountShard k))[k]? = if id = k then s
    else t.get? k := by
  by_cases hs : accountShard k = accountShard id
  · rw [hs, Function.update_self, h, get?, hs]
  · have hne : id ≠ k := by
      rintro rfl
      exact hs rfl
    rw [Function.update_of_ne hs, if_neg hne]
    rfl

theorem get?_insert (s : AccountState) :
    (t.insert id s).get? k = if id = k then some s else t.get? k := by
  refine getElem?_update ?_
  simp only [getElem?_insert, compare_eq_iff_eq]

variable (f : AccountState → AccountState) {s : AccountState} {nowMs : Nat}

theorem get?_modify : (t.modify id f).get? k = if id = k then (t.get? k).map f else t.get? k := by
  refine getElem?_update ?_
  simp only [Std.TreeMap.getElem?_modify, compare_eq_iff_eq]
  split
  · next h =>
    rw [h]
    rfl
  · rfl

theorem get?_modify_self : (t.modify id f).get? id = (t.get? id).map f := by
  rw [get?_modify, if_pos rfl]

theorem get?_mapStates : (t.mapStates f).get? k = (t.get? k).map f :=
  getElem?_map

theorem get?_empty (policy : AccountHealthPolicy) : (empty policy).get? k = none :=
  getElem?_emptyc

/-! ## `new` -/

theorem get?_foldl_insert (accounts : List AccountId) :
    (accounts.foldl (fun t account => t.insert account {}) t).get? k =
      if k ∈ accounts then some {} else t.get? k := by
  induction accounts generalizing t with
  | nil => simp
  | cons a rest ih =>
    rw [List.foldl_cons, ih, get?_insert]
    by_cases hk : k ∈ rest
    · simp [hk]
    · by_cases ha : a = k
      · simp [ha]
      · have hka : k ≠ a := fun h => ha h.symm
        simp [hk, ha, hka]

theorem foldl_insert_fields (accounts : List AccountId) :
    (accounts.foldl (fun t account => t.insert account {}) t).policy = t.policy ∧
      (accounts.foldl (fun t account => t.insert account {}) t).selectionSequence =
        t.selectionSequence := by
  induction accounts generalizing t with
  | nil => exact ⟨rfl, rfl⟩
  | cons a rest ih => exact ih

theorem card_toFinset_eq_length : accounts.toFinset.card = accounts.length ↔ accounts.Nodup :=
  Multiset.toFinset_card_eq_card_iff_nodup

/-- `new` accepts exactly the duplicate-free lists of at most 256 accounts. -/
theorem new_eq_ok_iff :
    new policy accounts = .ok t ↔
      accounts.Nodup ∧ accounts.length ≤ maxAccounts ∧
        t = accounts.foldl (fun t account => t.insert account {}) (empty policy) := by
  unfold new
  by_cases hd : accounts.Nodup
  · rw [if_neg (by simpa using card_toFinset_eq_length.mpr hd)]
    by_cases hl : accounts.length ≤ maxAccounts
    · rw [if_neg (by omega)]
      simp [hd, hl, eq_comm]
    · rw [if_pos (by omega)]
      simp [hl]
  · rw [if_pos (fun h => hd (card_toFinset_eq_length.mp h))]
    simp [hd]

theorem get?_new (h : new policy accounts = .ok t) :
    t.get? k = if k ∈ accounts then some {} else none := by
  obtain ⟨_, _, rfl⟩ := new_eq_ok_iff.mp h
  rw [get?_foldl_insert, get?_empty]

theorem policy_new (h : new policy accounts = .ok t) : t.policy = policy := by
  obtain ⟨_, _, rfl⟩ := new_eq_ok_iff.mp h
  exact (foldl_insert_fields accounts).1

theorem selectionSequence_new (h : new policy accounts = .ok t) : t.selectionSequence = 0 := by
  obtain ⟨_, _, rfl⟩ := new_eq_ok_iff.mp h
  exact (foldl_insert_fields accounts).2

/-! ## `snapshots` -/

theorem mem_shardSnapshots : ⟨k, s⟩ ∈ t.shardSnapshots ↔ t.get? k = some s := by
  simp only [shardSnapshots, List.mem_flatMap, List.mem_map, AccountHealthSnapshot.mk.injEq,
    Prod.exists, exists_eq_right_right]
  constructor
  · rintro ⟨i, _, k', hmem, rfl⟩
    rw [mem_toList_iff_getElem?_eq_some] at hmem
    have hmem' : k' ∈ t.shards i := mem_iff_isSome_getElem?.mpr (by rw [hmem]; rfl)
    have hhome : accountShard k' = i := t.homed i k' hmem'
    unfold get?
    rw [hhome]
    exact hmem
  · intro h
    refine ⟨accountShard k, List.mem_finRange _, k, ?_, rfl⟩
    exact mem_toList_iff_getElem?_eq_some.mpr h

/-- No account is reported twice: within a shard the keys are distinct, and two shards share
    none. -/
theorem nodup_shardSnapshots (t : AccountHealthTable) : (t.shardSnapshots.map accountId).Nodup := by
  have hmap : t.shardSnapshots.map accountId =
      (List.finRange accountShards).flatMap fun i => (t.shards i).keys := by
    simp only [shardSnapshots, List.map_flatMap, List.map_map]
    congr 1
    funext i
    rw [← map_fst_toList_eq_keys]
    rfl
  rw [hmap, List.nodup_flatMap]
  refine ⟨fun i _ => nodup_keys, ?_⟩
  refine List.Pairwise.imp ?_ (List.nodup_finRange accountShards)
  intro i j hij k hi hj
  rw [mem_keys] at hi hj
  exact hij ((t.homed i k hi).symm.trans (t.homed j k hj))

theorem mem_snapshots : ⟨k, s⟩ ∈ (t.snapshots nowMs).2 ↔ ∃ s₀, t.get? k = some s₀ ∧
    s = s₀.normalize nowMs := by
  simp only [snapshots, List.mem_insertionSort]
  rw [mem_shardSnapshots, get?_mapStates, Option.map_eq_some_iff]
  simp only [eq_comm]

theorem nodup_snapshots : ((t.snapshots nowMs).2.map accountId).Nodup := by
  have hperm := (List.perm_insertionSort
    (fun left right : AccountHealthSnapshot => left.accountId ≤ right.accountId)
    (t.mapStates fun s => s.normalize nowMs).shardSnapshots).map accountId
  exact hperm.nodup_iff.mpr (nodup_shardSnapshots _)

theorem get?_snapshots : (t.snapshots nowMs).1.get? k = (t.get? k).map fun s => s.normalize nowMs :=
  get?_mapStates _

end AccountHealthTable

end Wokcore.Engine
