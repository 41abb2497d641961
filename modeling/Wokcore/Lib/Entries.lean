import Mathlib.Data.String.Basic

/-!
# Maps as sorted lists of entries

A map with text keys is the list of its entries in increasing key order. `insertKey` is the map's
`insert`, which replaces the value under a key that is already there, and `ofEntries` collects any
list of entries, so that of two entries with one key the later one counts. A list that is already
sorted is its own collection. `EntryMap` is the list together with its order.
-/

set_option autoImplicit false

namespace Wokcore.Lib

open List

/-- Keys with their values. -/
abbrev Entries (α : Type*) := List (String × α)

variable {α β : Type*} {e : String × α} {es : Entries α} {k : String}

/-- The map with `v` under `k`. -/
def insertKey (k : String) (v : α) : Entries α → Entries α
  | [] => [(k, v)]
  | e :: es =>
    if k < e.1 then (k, v) :: e :: es
    else if k = e.1 then (k, v) :: es
    else e :: insertKey k v es

/-- The map collected from a list of entries: the last entry of a key counts. -/
def ofEntries (es : Entries α) : Entries α :=
  es.foldl (fun m e => insertKey e.1 e.2 m) []

/-- The keys increase. -/
def SortedKeys (es : Entries α) : Prop := es.Pairwise fun a b => a.1 < b.1

theorem SortedKeys.nil : SortedKeys ([] : Entries α) := Pairwise.nil

theorem SortedKeys.nodup_keys (h : SortedKeys es) : (es.map Prod.fst).Nodup := by
  rw [Nodup, pairwise_map]
  exact Pairwise.imp (fun hab => ne_of_lt hab) h

theorem mem_insertKey {v : α} (h : e ∈ insertKey k v es) : e = (k, v) ∨ e ∈ es := by
  induction es with
  | nil => exact .inl (by simpa [insertKey] using h)
  | cons a as ih =>
    simp only [insertKey] at h
    split at h
    · simpa using h
    · split at h
      · rcases mem_cons.mp h with h | h
        · exact .inl h
        · exact .inr (mem_cons_of_mem _ h)
      · rcases mem_cons.mp h with h | h
        · exact .inr (h ▸ mem_cons_self)
        · rcases ih h with h | h
          · exact .inl h
          · exact .inr (mem_cons_of_mem _ h)

theorem SortedKeys.insertKey (h : SortedKeys es) (k : String) (v : α) :
    SortedKeys (insertKey k v es) := by
  induction es with
  | nil => exact pairwise_singleton _ _
  | cons e es ih =>
    obtain ⟨he, hes⟩ := pairwise_cons.mp h
    simp only [Lib.insertKey]
    split
    · next hlt =>
      refine pairwise_cons.mpr ⟨fun a ha => ?_, h⟩
      rcases mem_cons.mp ha with rfl | ha
      · exact hlt
      · exact hlt.trans (he a ha)
    · next hnlt =>
      split
      · next heq => exact pairwise_cons.mpr ⟨fun a ha => heq ▸ he a ha, hes⟩
      · next hne =>
        refine pairwise_cons.mpr ⟨fun a ha => ?_, ih hes⟩
        rcases mem_insertKey ha with rfl | ha
        · exact lt_of_le_of_ne (not_lt.mp hnlt) (fun hk => hne hk.symm)
        · exact he a ha

/-- A key past all the others goes to the end. -/
theorem insertKey_of_lt (v : α) (h : ∀ e ∈ es, e.1 < k) : insertKey k v es = es ++ [(k, v)] := by
  induction es with
  | nil => rfl
  | cons e es ih =>
    have he : e.1 < k := h e mem_cons_self
    rw [insertKey, if_neg (not_lt.mpr he.le), if_neg (ne_of_gt he),
      ih fun a ha => h a (mem_cons_of_mem _ ha), cons_append]

theorem lookup_cons_ite (e : String × α) (es : Entries α) (k : String) :
    (e :: es).lookup k = if k = e.1 then some e.2 else es.lookup k := by
  obtain ⟨ke, ve⟩ := e
  by_cases h : k = ke
  · simp [h]
  · have hb : (k == ke) = false := by simpa using h
    simp [lookup_cons, hb, h]

theorem lookup_eq_none_of_not_mem (h : k ∉ es.map Prod.fst) : es.lookup k = none := by
  rw [lookup_eq_none_iff]
  intro p hp
  have hne : k ≠ p.1 := fun hk => h (mem_map.mpr ⟨p, hp, hk.symm⟩)
  simpa using hne

theorem lookup_insertKey (es : Entries α) (k k' : String) (v : α) :
    (insertKey k v es).lookup k' = if k' = k then some v else es.lookup k' := by
  induction es with
  | nil => rw [insertKey, lookup_cons_ite]
  | cons e es ih =>
    rw [insertKey]
    split
    · rw [lookup_cons_ite]
    · split
      · next heq =>
        rw [lookup_cons_ite, lookup_cons_ite, ← heq]
        by_cases h : k' = k <;> simp [h]
      · next hne =>
        rw [lookup_cons_ite, lookup_cons_ite, ih]
        by_cases he : k' = e.1
        · have hk : e.1 ≠ k := fun h => hne h.symm
          rw [if_pos he, if_pos he, he, if_neg hk]
        · rw [if_neg he, if_neg he]

/-! ## Collecting entries -/

private theorem foldl_insertKey_sorted (es acc : Entries α) (h : SortedKeys acc) :
    SortedKeys (es.foldl (fun m e => insertKey e.1 e.2 m) acc) :=
  foldlRecOn es _ h fun _ hm e _ => hm.insertKey e.1 e.2

theorem ofEntries_sorted (es : Entries α) : SortedKeys (ofEntries es) :=
  foldl_insertKey_sorted es [] .nil

private theorem foldl_insertKey_append (es acc : Entries α) (h : SortedKeys (acc ++ es)) :
    es.foldl (fun m e => insertKey e.1 e.2 m) acc = acc ++ es := by
  induction es generalizing acc with
  | nil => simp
  | cons e es ih =>
    have hlt : ∀ a ∈ acc, a.1 < e.1 := fun a ha =>
      (pairwise_append.mp h).2.2 a ha e mem_cons_self
    rw [foldl_cons, insertKey_of_lt e.2 hlt, ih _ (by simpa using h)]
    simp

/-- A sorted list of entries is its own collection. -/
theorem ofEntries_of_sorted (h : SortedKeys es) : ofEntries es = es := by
  have := foldl_insertKey_append es [] (by simpa using h)
  rwa [nil_append] at this

theorem mem_foldl_insertKey {acc : Entries α}
    (h : e ∈ es.foldl (fun m e => insertKey e.1 e.2 m) acc) : e ∈ acc ∨ e ∈ es := by
  refine foldlRecOn (motive := fun m => e ∈ m → e ∈ acc ∨ e ∈ es) es _ .inl ?_ h
  intro m hm a ha hmem
  rcases mem_insertKey hmem with rfl | hmem
  · exact .inr ha
  · exact hm hmem

theorem mem_of_mem_ofEntries (h : e ∈ ofEntries es) : e ∈ es := by
  simpa using mem_foldl_insertKey h

private theorem lookup_foldl_insertKey (es acc : Entries α) (k : String)
    (hes : (es.map Prod.fst).Nodup) :
    (es.foldl (fun m e => insertKey e.1 e.2 m) acc).lookup k = (es.lookup k).or (acc.lookup k) := by
  induction es generalizing acc with
  | nil => simp
  | cons e es ih =>
    obtain ⟨ke, ve⟩ := e
    obtain ⟨hnot, hes⟩ := nodup_cons.mp hes
    rw [foldl_cons, ih _ hes, lookup_insertKey, lookup_cons_ite]
    by_cases h : k = ke
    · subst h
      simp [lookup_eq_none_of_not_mem hnot]
    · simp [h]

/-- Where the keys differ, collecting changes no entry. -/
theorem lookup_ofEntries (h : (es.map Prod.fst).Nodup) (k : String) :
    (ofEntries es).lookup k = es.lookup k := by
  have := lookup_foldl_insertKey es [] k h
  rwa [lookup_nil, Option.or_none] at this

theorem filter_insertKey (hs : SortedKeys es) (p : String → Bool) (k : String) (v : α) :
    (insertKey k v es).filter (fun e => p e.1) =
      if p k then insertKey k v (es.filter fun e => p e.1) else es.filter fun e => p e.1 := by
  induction es with
  | nil => by_cases hp : p k <;> simp [insertKey, hp]
  | cons e es ih =>
    obtain ⟨he, hes⟩ := pairwise_cons.mp hs
    have hrest : ∀ a ∈ es.filter fun e => p e.1, e.1 < a.1 := fun a ha => he a (mem_filter.mp ha).1
    rw [insertKey]
    split
    · next hlt =>
      -- the new key is in front of all that are kept
      have hfront : ∀ es' : Entries α, (∀ a ∈ es', k < a.1) →
          insertKey k v es' = (k, v) :: es' := by
        intro es' h
        cases es' with
        | nil => rfl
        | cons a as => rw [insertKey, if_pos (h a mem_cons_self)]
      have hkept : ∀ a ∈ (e :: es).filter fun e => p e.1, k < a.1 := by
        intro a ha
        rcases mem_cons.mp (mem_filter.mp ha).1 with rfl | ha
        · exact hlt
        · exact hlt.trans (he a ha)
      rw [hfront _ hkept]
      by_cases hp : p k <;> simp [hp, filter_cons]
    · split
      · next heq =>
        by_cases hp : p k
        · have hpe : p e.1 := heq ▸ hp
          simp [hpe, insertKey, heq]
        · have hpe : ¬ p e.1 := heq ▸ hp
          simp [hp, hpe]
      · next hnlt hne =>
        rw [filter_cons, filter_cons, ih hes]
        by_cases hp : p k <;> by_cases hpe : p e.1 <;> simp [hp, hpe, insertKey, hnlt, hne]

private theorem filter_foldl_insertKey (es acc : Entries α) (hs : SortedKeys acc)
    (p : String → Bool) :
    (es.foldl (fun m e => insertKey e.1 e.2 m) acc).filter (fun e => p e.1) =
      (es.filter fun e => p e.1).foldl (fun m e => insertKey e.1 e.2 m)
        (acc.filter fun e => p e.1) := by
  induction es generalizing acc with
  | nil => rfl
  | cons e es ih =>
    rw [foldl_cons, ih _ (hs.insertKey e.1 e.2), filter_insertKey hs, filter_cons]
    by_cases hp : p e.1 <;> simp [hp]

/-- Dropping keys before or after collecting is the same. -/
theorem filter_ofEntries (es : Entries α) (p : String → Bool) :
    (ofEntries es).filter (fun e => p e.1) = ofEntries (es.filter fun e => p e.1) :=
  filter_foldl_insertKey es [] .nil p

theorem insertKey_map (f : α → β) (k : String) (v : α) (es : Entries α) :
    insertKey k (f v) (es.map fun e => (e.1, f e.2)) =
      (insertKey k v es).map fun e => (e.1, f e.2) := by
  induction es with
  | nil => rfl
  | cons e es ih =>
    simp only [map_cons, insertKey, ih]
    split
    · rfl
    · split <;> rfl

/-- Changing the values before or after collecting is the same. -/
theorem ofEntries_map (f : α → β) (es : Entries α) :
    ofEntries (es.map fun e => (e.1, f e.2)) = (ofEntries es).map fun e => (e.1, f e.2) := by
  rw [ofEntries, ofEntries, foldl_map]
  rw [← foldl_hom (map fun e : String × α => (e.1, f e.2))]
  · rfl
  · exact fun m e => insertKey_map f e.1 e.2 m

/-! ## Maps -/

/-- A map with text keys. -/
structure EntryMap (α : Type*) where
  entries : Entries α
  sorted : SortedKeys entries

instance [DecidableEq α] : DecidableEq (EntryMap α) := fun a b =>
  decidable_of_iff (a.entries = b.entries) ⟨fun h => by cases a; cases b; cases h; rfl, fun h =>
    h ▸ rfl⟩

namespace EntryMap

def empty : EntryMap α := ⟨[], .nil⟩

def ofList (es : Entries α) : EntryMap α := ⟨ofEntries es, ofEntries_sorted es⟩

variable (m : EntryMap α)

def get? (k : String) : Option α := m.entries.lookup k

def contains (k : String) : Bool := (m.get? k).isSome

def insert (k : String) (v : α) : EntryMap α :=
  ⟨insertKey k v m.entries, m.sorted.insertKey k v⟩

def isEmpty : Bool := m.entries.isEmpty

theorem ext {m m' : EntryMap α} (h : m.entries = m'.entries) : m = m' := by
  cases m
  cases m'
  cases h
  rfl

@[simp] theorem get?_empty (k : String) : (empty : EntryMap α).get? k = none := rfl

theorem get?_insert (k k' : String) (v : α) :
    (m.insert k v).get? k' = if k' = k then some v else m.get? k' :=
  lookup_insertKey m.entries k k' v

theorem mem_entries_of_get? {m : EntryMap α} {k : String} {v : α} (h : m.get? k = some v) :
    (k, v) ∈ m.entries := by
  obtain ⟨l₁, l₂, hl, -⟩ := lookup_eq_some_iff.mp h
  exact hl ▸ mem_append_right l₁ mem_cons_self

theorem get?_eq_none {m : EntryMap α} {k : String} (h : ∀ e ∈ m.entries, e.1 ≠ k) :
    m.get? k = none :=
  lookup_eq_none_iff.mpr fun e he => by simpa using (h e he).symm

end EntryMap

end Wokcore.Lib
