import Wokcore.Lib.Json.Depth

/-!
# Reading the floats of a document again

Sorting the members of an object and reading its floats again are independent: where no object has a
key twice, the value of the document read again is the value of the document, read again. So the
parts of a document that is built from values can be read again one by one.
-/

set_option autoImplicit false

namespace Wokcore.Lib

/-! ## Values of a map -/

section Entries

variable {α β : Type*} (f : α → Option β) {es : Entries α}

/-- The entries with `f` applied to their values, if it has a result for each. -/
def mapValuesM : Entries α → Option (Entries β)
  | [] => some []
  | (k, v) :: es => (f v).bind fun w => (mapValuesM es).map ((k, w) :: ·)

theorem mapValuesM_insertKey {k : String} {v : α} (h : k ∉ es.map Prod.fst) :
    mapValuesM f (insertKey k v es) = (f v).bind fun w => (mapValuesM f es).map
    (insertKey k w) := by
  induction es with
  | nil => cases hv : f v <;> simp [insertKey, mapValuesM, hv]
  | cons e es ih =>
    obtain ⟨l, x⟩ := e
    simp only [List.map_cons, List.mem_cons, not_or] at h
    by_cases hlt : k < l
    · cases hv : f v <;> cases hx : f x <;> cases hes : mapValuesM f es <;>
        simp [insertKey, hlt, mapValuesM, hv, hx, hes]
    · cases hv : f v <;> cases hx : f x <;> cases hes : mapValuesM f es <;>
        simp [insertKey, hlt, h.1, mapValuesM, ih h.2, hv, hx, hes]

theorem mem_keys_insertKey {k l : String} {v : α} (h : l ∈ (insertKey k v es).map Prod.fst) :
    l = k ∨ l ∈ es.map Prod.fst := by
  obtain ⟨e, he, rfl⟩ := List.mem_map.mp h
  rcases mem_insertKey he with rfl | he
  · exact .inl rfl
  · exact .inr (List.mem_map_of_mem he)

theorem mapValuesM_ofEntries (h : (es.map Prod.fst).Nodup) :
    mapValuesM f (ofEntries es) = (mapValuesM f es).map ofEntries := by
  have hrun : ∀ (es acc : Entries α), (es.map Prod.fst).Nodup →
      (∀ k ∈ es.map Prod.fst, k ∉ acc.map Prod.fst) →
      mapValuesM f (es.foldl (fun m e => insertKey e.1 e.2 m) acc) =
        (mapValuesM f acc).bind fun acc' =>
          (mapValuesM f es).map fun es' => es'.foldl (fun m e => insertKey e.1 e.2 m) acc' := by
    intro es
    induction es with
    | nil => intro acc _ _; simp [mapValuesM]
    | cons e es ih =>
      intro acc hnd hdisj
      obtain ⟨k, v⟩ := e
      rw [List.map_cons, List.nodup_cons] at hnd
      have hk := hdisj k (by simp)
      rw [List.foldl_cons, ih _ hnd.2, mapValuesM_insertKey f hk, mapValuesM]
      · cases f v <;> cases mapValuesM f acc <;> cases mapValuesM f es <;> rfl
      · intro l hl hmem
        rcases mem_keys_insertKey hmem with rfl | hmem
        · exact hnd.1 hl
        · exact hdisj l (by simp [hl]) hmem
  rw [ofEntries, hrun es [] h (by simp)]
  rfl

end Entries

/-! ## Documents without repeated keys -/

namespace Json

mutual

/-- No object of the document has a key twice. -/
def Distinct : Json → Prop
  | .arr xs => DistinctItems xs
  | .obj fs => (fs.map Prod.fst).Nodup ∧ DistinctMembers fs
  | _ => True

def DistinctItems : List Json → Prop
  | [] => True
  | x :: xs => Distinct x ∧ DistinctItems xs

def DistinctMembers : Members → Prop
  | [] => True
  | (_, x) :: fs => Distinct x ∧ DistinctMembers fs

end

theorem distinctItems_iff {xs : List Json} : DistinctItems xs ↔ ∀ x ∈ xs, x.Distinct := by
  induction xs with
  | nil => simp [DistinctItems]
  | cons x xs ih => simp [DistinctItems, ih]

theorem distinctMembers_iff {fs : Members} : DistinctMembers fs ↔ ∀ f ∈ fs, f.2.Distinct := by
  induction fs with
  | nil => simp [DistinctMembers]
  | cons f fs ih =>
    obtain ⟨k, x⟩ := f
    simp [DistinctMembers, ih]

mutual

theorem distinct_norm : ∀ j : Json, j.norm.Distinct
  | .null => trivial
  | .bool _ => trivial
  | .num _ => trivial
  | .str _ => trivial
  | .arr xs => by
    rw [norm, Distinct]
    exact distinctItems_norm xs
  | .obj fs => by
    rw [norm, Distinct]
    refine ⟨(ofEntries_sorted _).nodup_keys, distinctMembers_iff.mpr fun f hf => ?_⟩
    exact distinctMembers_iff.mp (distinctMembers_norm fs) f (mem_of_mem_ofEntries hf)

theorem distinctItems_norm : ∀ xs : List Json, DistinctItems (normItems xs)
  | [] => trivial
  | x :: xs => ⟨distinct_norm x, distinctItems_norm xs⟩

theorem distinctMembers_norm : ∀ fs : Members, DistinctMembers (normMembers fs)
  | [] => trivial
  | (_, x) :: fs => ⟨distinct_norm x, distinctMembers_norm fs⟩

end

theorem distinct_tree (v : Value) : v.tree.Distinct := by
  rw [← v.normal]
  exact distinct_norm v.tree

variable (F : FloatReader)

theorem rereadMembers_eq (fs : Members) : rereadMembers F fs = mapValuesM (reread F) fs := by
  induction fs with
  | nil => rfl
  | cons f fs ih =>
    obtain ⟨k, x⟩ := f
    rw [rereadMembers, mapValuesM, ih]

mutual

theorem reread_norm : ∀ j : Json, j.Distinct → j.norm.reread F = (j.reread F).map norm
  | .null, _ => rfl
  | .bool _, _ => rfl
  | .str _, _ => rfl
  | .num n, _ => by
    rw [norm_num, reread]
    cases n.reread F <;> rfl
  | .arr xs, h => by
    rw [norm, reread, reread, rereadItems_norm xs h]
    cases rereadItems F xs <;> rfl
  | .obj fs, h => by
    obtain ⟨hnd, hfs⟩ := h
    have hkeys : ((normMembers fs).map Prod.fst).Nodup := by rw [Read.keys_normMembers]; exact hnd
    rw [norm, reread, reread, rereadMembers_eq, mapValuesM_ofEntries _ hkeys, ← rereadMembers_eq,
      rereadMembers_norm fs hfs]
    cases rereadMembers F fs <;> rfl

theorem rereadItems_norm : ∀ xs : List Json, DistinctItems xs →
    rereadItems F (normItems xs) = (rereadItems F xs).map normItems
  | [], _ => rfl
  | x :: xs, h => by
    rw [normItems, rereadItems, rereadItems, reread_norm x h.1, rereadItems_norm xs h.2]
    cases reread F x <;> cases rereadItems F xs <;> rfl

theorem rereadMembers_norm : ∀ fs : Members, DistinctMembers fs →
    rereadMembers F (normMembers fs) = (rereadMembers F fs).map normMembers
  | [], _ => rfl
  | (k, x) :: fs, h => by
    rw [normMembers, rereadMembers, rereadMembers, reread_norm x h.1, rereadMembers_norm fs h.2]
    cases reread F x <;> cases rereadMembers F fs <;> rfl

end

end Json

/-! ## Values -/

namespace Value

variable (F : FloatReader)

/-- The value with its floats read again. -/
def reread (v : Value) : Option Value := (v.tree.reread F).map Json.toValue

theorem tree_reread (v : Value) : v.tree.reread F = (v.reread F).map tree := by
  have h := Json.reread_norm F v.tree (Json.distinct_tree v)
  rw [v.normal] at h
  rw [reread, Option.map_map]
  exact h

end Value

end Wokcore.Lib
