import Mathlib.Data.List.Flatten
import Wokcore.Lib.Json.Reread
import Wokcore.Lib.Json.Size

/-!
# What is read of a document that was written

A writer builds a document, its value is printed, and a reader reads the text. `ReadAs F j w` says
that `w` is what is read of `j`. The two differ in the order of members and in the texts of floats,
neither of which a reader that asks for members by name, for strings and for integers can see: there
is one lemma for each such question.
-/

set_option autoImplicit false

namespace Wokcore.Lib

open Json Read Option

variable {F : FloatReader} {j w : Json} {fs : Members} {k : String} {xs : List Json}

/-- A reader makes `w` of the text of the value of `j`. -/
def ReadAs (F : FloatReader) (j w : Json) : Prop := j.norm.reread F = some w

theorem readAs_tree {v : Value} : ReadAs F v.tree w ↔ v.tree.reread F = some w := by
  rw [ReadAs, v.normal]

theorem readAs_norm : ReadAs F j.norm w ↔ ReadAs F j w := by
  rw [ReadAs, norm_norm, ReadAs]

theorem readAs_toValue : ReadAs F j.toValue.tree w ↔ ReadAs F j w := readAs_norm

theorem readAs_null : ReadAs F .null w ↔ w = .null := by
  rw [ReadAs, norm_null, reread, some.injEq, eq_comm]
  all_goals simp

theorem readAs_str {s : String} : ReadAs F (.str s) w ↔ w = .str s := by
  rw [ReadAs, norm_str, reread, some.injEq, eq_comm]
  all_goals simp

theorem readAs_ofWord {n : UInt64} : ReadAs F (.ofWord n) w ↔ w = .ofWord n := by
  show some (num (.nat n)) = some w ↔ w = .num (.nat n)
  rw [some.injEq, eq_comm]

theorem forall₂_of_rereadItems {ys : List Json} (h : rereadItems F (xs.map norm) = some ys) :
    List.Forall₂ (ReadAs F) xs ys := by
  induction xs generalizing ys with
  | nil =>
    cases h
    exact .nil
  | cons x xs ih =>
    rw [List.map_cons, rereadItems] at h
    obtain ⟨y, hy, h⟩ := bind_eq_some_iff.mp h
    obtain ⟨zs, hzs, rfl⟩ := map_eq_some_iff.mp h
    exact .cons hy (ih hzs)

/-- An array is read item by item. -/
theorem ReadAs.arr (h : ReadAs F (.arr xs) w) : ∃ ys, w = .arr ys ∧
    List.Forall₂ (ReadAs F) xs ys := by
  rw [ReadAs, norm_arr, reread] at h
  obtain ⟨ys, hys, rfl⟩ := map_eq_some_iff.mp h
  exact ⟨ys, rfl, forall₂_of_rereadItems hys⟩

theorem lookup_mapValuesM {α β : Type*} {f : α → Option β} {es : Entries α} {gs : Entries β}
    (h : mapValuesM f es = some gs) (key : String) :
    (es.lookup key = none ∧ gs.lookup key = none) ∨
      ∃ x y, es.lookup key = some x ∧ f x = some y ∧ gs.lookup key = some y := by
  induction es generalizing gs with
  | nil =>
    cases h
    exact .inl ⟨rfl, rfl⟩
  | cons e es ih =>
    obtain ⟨k, x⟩ := e
    rw [mapValuesM] at h
    obtain ⟨y, hy, h⟩ := bind_eq_some_iff.mp h
    obtain ⟨hs, hhs, rfl⟩ := map_eq_some_iff.mp h
    rw [lookup_cons_ite, lookup_cons_ite]
    by_cases hkey : key = k
    · rw [if_pos hkey, if_pos hkey]
      exact .inr ⟨x, y, rfl, hy, rfl⟩
    · rw [if_neg hkey, if_neg hkey]
      exact ih hhs

section

variable (h : ReadAs F (.obj fs) w)
include h

theorem ReadAs.obj : ∃ gs, w = .obj gs ∧ mapValuesM (reread F) (valueMembers fs) = some gs := by
  rw [ReadAs, norm_obj, reread, rereadMembers_eq] at h
  obtain ⟨gs, hgs, rfl⟩ := map_eq_some_iff.mp h
  exact ⟨gs, rfl, hgs⟩

theorem ReadAs.isObject : w.isObject = true := by
  obtain ⟨gs, rfl, -⟩ := h.obj
  rfl

/-- **Members.** Under a key of the document there is what is read of its member, and nothing if it
    has none. The keys that a writer lists are distinct at sight. -/
theorem ReadAs.get?_cases (key : String) (hnd : (fs.map Prod.fst).Nodup := by simp) :
    (fs.lookup key = none ∧ w.get? key = none) ∨
      ∃ x y, fs.lookup key = some x ∧ ReadAs F x y ∧ w.get? key = some y := by
  obtain ⟨gs, rfl, hgs⟩ := h.obj
  rcases lookup_mapValuesM hgs key with ⟨hnone, hw⟩ | ⟨x, y, hx, hy, hw⟩
  · rw [lookup_valueMembers hnd, map_eq_none_iff] at hnone
    exact .inl ⟨hnone, hw⟩
  · rw [lookup_valueMembers hnd, map_eq_some_iff] at hx
    obtain ⟨x, hx, rfl⟩ := hx
    exact .inr ⟨x, y, hx, hy, hw⟩

theorem ReadAs.get? {x : Json} (hkey : fs.lookup k = some x)
    (hnd : (fs.map Prod.fst).Nodup := by simp) :
    ∃ y, w.get? k = some y ∧ ReadAs F x y := by
  rcases h.get?_cases k hnd with ⟨hnone, -⟩ | ⟨x', y, hx, hy, hw⟩
  · rw [hkey] at hnone
    cases hnone
  · rw [hkey] at hx
    cases hx
    exact ⟨y, hw, hy⟩

theorem ReadAs.get?_none (hkey : fs.lookup k = none) (hnd : (fs.map Prod.fst).Nodup := by simp) :
    w.get? k = none := by
  rcases h.get?_cases k hnd with ⟨-, hw⟩ | ⟨x, y, hx, -, -⟩
  · exact hw
  · rw [hkey] at hx
    cases hx

theorem ReadAs.get?_str {s : String} (hkey : fs.lookup k = some (.str s))
    (hnd : (fs.map Prod.fst).Nodup := by simp) : w.get? k = some (.str s) := by
  obtain ⟨y, hw, hy⟩ := h.get? hkey hnd
  rw [hw, readAs_str.mp hy]

theorem ReadAs.get?_ofWord {n : UInt64} (hkey : fs.lookup k = some (.ofWord n))
    (hnd : (fs.map Prod.fst).Nodup := by simp) : w.get? k = some (.ofWord n) := by
  obtain ⟨y, hw, hy⟩ := h.get? hkey hnd
  rw [hw, readAs_ofWord.mp hy]

end

/-- What is read of a document is itself a value. -/
theorem ReadAs.norm_eq (h : ReadAs F j w) : w.norm = w := by
  have htree := Value.tree_reread F j.toValue
  rw [toValue_tree] at htree
  obtain ⟨v, -, rfl⟩ := map_eq_some_iff.mp (htree.symm.trans h)
  exact v.normal

/-- A member is no longer than the document. -/
theorem partOf_of_get? {x : Json} {key : String} (h : j.get? key = some x) : x.PartOf j := by
  cases j with
  | obj fs =>
    obtain ⟨before, after, rfl, -⟩ := List.lookup_eq_some_iff.mp h
    exact partOf_obj (k := key) (by simp)
  | _ => cases h

/-- **Reading back.** The text of a value that is not nested too deep is read as what is read of
    it. -/
theorem ReadAs.parse_print {v : Value} (h : ReadAs F v.tree w)
    (hdepth : v.tree.depth ≤ maxNesting) :
    parse F v.tree.print = some w := by
  rw [Json.parse_print, if_pos hdepth, readAs_tree.mp h]

theorem get?_norm_obj (key : String) (hnd : (fs.map Prod.fst).Nodup := by simp) :
    (obj fs).norm.get? key = (fs.lookup key).map norm := by
  rw [norm_obj, get?, asObject, bind_some, lookup_valueMembers hnd]

/-! ## Without a member -/

/-- The document without what it has under a key. -/
def Json.without (key : String) : Json → Json
  | .obj fs => .obj (withoutKey key fs)
  | j => j

theorem Json.get?_without (j : Json) (key : String) : (j.without key).get? key = none := by
  cases j with
  | obj fs =>
    show (withoutKey key fs).lookup key = none
    rw [List.lookup_eq_none_iff]
    intro f hf
    have hne : f.1 ≠ key := by simpa using (List.mem_filter.mp hf).2
    simpa using hne.symm
  | _ => rfl

theorem Json.norm_without (fs : Members) (key : String) :
    ((obj fs).without key).norm = (obj fs).norm.without key := by
  have hfilter := filter_ofEntries (normMembers fs) fun k => decide (k ≠ key)
  rw [without, norm_obj, norm_obj, without, valueMembers, valueMembers,
    withoutKey, withoutKey, hfilter, normMembers_eq_map, normMembers_eq_map, List.filter_map]
  rfl

theorem Json.sublist_tokensMembers (sep : Bool) (fs : Members) (p : String × Json → Bool) :
    (tokensMembers sep (fs.filter p)).Sublist (tokensMembers sep fs) := by
  have hcomma : ∀ sep gs, (tokensMembers sep gs).Sublist (tokensMembers true gs) := by
    intro sep gs
    cases sep with
    | true => exact .refl _
    | false =>
      cases gs with
      | nil => exact .refl _
      | cons g gs => exact List.sublist_cons_self _ _
  induction fs generalizing sep with
  | nil => exact .refl _
  | cons f fs ih =>
    obtain ⟨k, x⟩ := f
    by_cases hp : p (k, x) = true
    · rw [List.filter_cons_of_pos hp, tokensMembers, tokensMembers]
      exact (List.Sublist.refl _).append
        (((List.Sublist.refl _).append (ih true)).cons_cons _ |>.cons_cons _)
    · -- a member that goes takes its comma with it
      rw [List.filter_cons_of_neg hp]
      refine ((ih sep).trans (hcomma sep fs)).trans ?_
      rw [tokensMembers]
      exact ((List.sublist_append_right _ _).cons _ |>.cons _).trans (List.sublist_append_right _ _)

theorem Json.length_toVec_without_le (j : Json) (key : String) :
    (j.without key).toVec.length ≤ j.toVec.length := by
  cases j with
  | obj fs =>
    have htokens := (sublist_tokensMembers false fs fun f => decide (f.1 ≠ key)).cons_cons
      Token.openBrace
    exact ((htokens.flatMap Token.chars).flatMap String.utf8EncodeChar).length_le
  | _ => exact Nat.le_refl _

theorem Json.depth_without_le (j : Json) (key : String) : (j.without key).depth ≤ j.depth := by
  cases j with
  | obj fs =>
    rw [without, depth, depth]
    refine Nat.succ_le_succ (depthMembers_le_iff.mpr fun f hf => ?_)
    exact depth_le_of_mem_members (List.mem_of_mem_filter hf)
  | _ => exact Nat.le_refl _

theorem mapValuesM_filter {α β : Type*} {f : α → Option β} {es : Entries α} {gs : Entries β}
    (h : mapValuesM f es = some gs) (p : String → Bool) :
    mapValuesM f (es.filter fun e => p e.1) = some (gs.filter fun e => p e.1) := by
  induction es generalizing gs with
  | nil =>
    cases h
    rfl
  | cons e es ih =>
    obtain ⟨k, x⟩ := e
    rw [mapValuesM] at h
    obtain ⟨y, hy, h⟩ := bind_eq_some_iff.mp h
    obtain ⟨hs, hhs, rfl⟩ := map_eq_some_iff.mp h
    rw [List.filter_cons, List.filter_cons]
    by_cases hp : p k = true
    · rw [if_pos hp, if_pos hp, mapValuesM, hy, ih hhs]
      rfl
    · rw [if_neg hp, if_neg hp, ih hhs]

/-- What is read of a document without a member is what is read of the document, without the
    member. -/
theorem ReadAs.without (h : ReadAs F (.obj fs) w) (key : String) :
    ReadAs F ((Json.obj fs).without key) (w.without key) := by
  obtain ⟨gs, rfl, hgs⟩ := h.obj
  rw [ReadAs, Json.norm_without, norm_obj, Json.without, reread, rereadMembers_eq, withoutKey,
    mapValuesM_filter hgs fun k => decide (k ≠ key)]
  rfl

end Wokcore.Lib
