import Mathlib.Data.Finset.Insert
import Mathlib.Data.List.Sort

/-!
# Who comes first

A table filled from several sources settles a conflict by who comes first, and it does so in one of
two ways: an entry is offered and taken if its key is free, or it is written over what is there. A
list of rules settles it by a stable sort on how specific a rule is. The lemmas here read all three
as a search through the sources in their own order.

* `lookup_foldl_offer` and `lookup_foldl_override` are for the two ways of filling a table. What a
  table is does not matter, only what can be looked up in it. `nodup_of_insert` is one round of the
  loop that makes sure of its keys first.
* `find?_insertionSort` says that a stable sort does not reorder what it cannot tell apart,
  `find?_of_pairwise` that in a sorted list the more specific of two kinds of match is found first,
  and `find?_insertionSort_eq_some` which match is found at all.
* `mem_values` and `find?_values_eq_some` read the values of an ordered map: the first that matches
  is the one with the least key.
-/

set_option autoImplicit false

namespace Wokcore.Lib

open List

section Fill

variable {M α κ ν : Type*} (look : M → κ → Option ν) (step : M → α → M)

/-- A table that only takes what it does not have yet holds the first that was offered. -/
theorem lookup_foldl_offer (offer : α → κ → Option ν)
    (hstep : ∀ m a k, look (step m a) k = (look m k).or (offer a k)) (m : M) (as : List α) (k : κ) :
    look (as.foldl step m) k = (look m k).or (as.findSome? fun a => offer a k) := by
  induction as generalizing m with
  | nil => simp
  | cons a as ih =>
    rw [foldl_cons, ih, hstep, Option.or_assoc, findSome?_cons]
    cases offer a k <;> rfl

/-- A table that is written over, with no key written twice, holds what was written. -/
theorem lookup_foldl_override [DecidableEq κ] (key : α → κ) (value : α → Option ν)
    (hstep : ∀ m a k, look (step m a) k = if key a = k then (value a).or (look m k) else look m k)
    (m : M) {as : List α} (hnd : (as.map key).Nodup) (k : κ) :
    look (as.foldl step m) k = ((as.find? fun a => decide (key a = k)).bind value).or
    (look m k) := by
  induction as generalizing m with
  | nil => simp
  | cons a as ih =>
    rw [map_cons, nodup_cons] at hnd
    rw [foldl_cons, ih (step m a) hnd.2, hstep, find?_cons]
    by_cases hkey : key a = k
    · -- No later entry has this key.
      have hnone : (as.find? fun b => decide (key b = k)) = none := by
        rw [find?_eq_none]
        intro b hb hbk
        exact hnd.1 (mem_map.mpr ⟨b, hb, (of_decide_eq_true hbk).trans hkey.symm⟩)
      simp [hkey, hnone]
    · simp [hkey]

/-- One round of a loop that remembers the keys it has seen: a new key, and after it only keys that
    are new to the larger set. -/
theorem nodup_of_insert {β : Type*} [DecidableEq β] {key : α → β} {seen : Finset β} {x : α}
    {xs : List α} (hnew : key x ∉ seen) (hrest : (xs.map key).Nodup ∧ ∀ y ∈ xs,
    key y ∉ insert (key x) seen) :
    ((x :: xs).map key).Nodup ∧ ∀ y ∈ x :: xs, key y ∉ seen := by
  constructor
  · rw [map_cons, nodup_cons]
    refine ⟨?_, hrest.1⟩
    intro hmem
    obtain ⟨y, hy, heq⟩ := mem_map.mp hmem
    exact hrest.2 y hy (by rw [heq]; exact Finset.mem_insert_self _ _)
  · rw [forall_mem_cons]
    exact ⟨hnew, fun y hy hin => hrest.2 y hy (Finset.mem_insert_of_mem hin)⟩

end Fill

section Sorting

variable {α : Type*} {key : α → Nat} {p q r : α → Bool}

theorem find?_orderedInsert {n : Nat} (hp : ∀ a, p a = true → key a = n) (a : α) (l : List α) :
    (l.orderedInsert (fun left right => key right ≤ key left) a).find? p = (a :: l).find? p := by
  induction l with
  | nil => rfl
  | cons b l ih =>
    rw [orderedInsert_cons]
    split
    · rfl
    next hlt =>
      -- Only what has a larger key is skipped, and of the two only one can match.
      rw [find?_cons, ih]
      cases hpb : p b with
      | true =>
        have hpa : p a = false := by
          cases hpa : p a with
          | false => rfl
          | true => exact absurd (le_of_eq ((hp b hpb).trans (hp a hpa).symm)) hlt
        simp [hpa, hpb]
      | false => simp [find?_cons, hpb]

/-- A stable sort keeps the order of what it cannot tell apart. -/
theorem find?_insertionSort {n : Nat} (hp : ∀ a, p a = true → key a = n) (l : List α) :
    (l.insertionSort fun left right => key right ≤ key left).find? p = l.find? p := by
  induction l with
  | nil => rfl
  | cons a l ih =>
    rw [insertionSort_cons, find?_orderedInsert hp, find?_cons, find?_cons, ih]

/-- In a list sorted from the largest key down, a match with a larger key comes before one with a
    smaller key. -/
theorem find?_of_pairwise {l : List α} (hl : l.Pairwise fun left right => key right ≤ key left)
    (hp : ∀ a, p a = (q a || r a)) (hlt : ∀ a b, q a = true → r b = true → key b < key a) :
    l.find? p = (l.find? q).or (l.find? r) := by
  induction l with
  | nil => rfl
  | cons a l ih =>
    rw [pairwise_cons] at hl
    rw [find?_cons, find?_cons, find?_cons, hp a]
    cases hq : q a with
    | true => simp
    | false =>
      cases hr : r a with
      | false => simpa using ih hl.2
      | true =>
        have hnone : l.find? q = none := by
          rw [find?_eq_none]
          intro b hb hqb
          exact absurd (hl.1 b hb) (not_le.mpr (hlt b a hqb hr))
        simp [hnone]

/-- After a stable sort from the largest key down the first match is the first in the list's own
    order of those with the largest key. -/
theorem find?_insertionSort_eq_some {l : List α} {a : α} :
    (l.insertionSort fun left right => key right ≤ key left).find? p = some a ↔
      (∀ b ∈ l, p b = true → key b ≤ key a) ∧ (l.find? fun b => p b && key b == key a) =
        some a := by
  have hkey : ∀ b, (p b && key b == key a) = true → key b = key a := by simp
  have hsorted := pairwise_insertionSort (fun left right => key right ≤ key left) l
  have hmem : ∀ b, b ∈ l ↔ b ∈ l.insertionSort fun left right => key right ≤ key left := by simp
  rw [← find?_insertionSort hkey l]
  simp only [hmem]
  generalize l.insertionSort (fun left right => key right ≤ key left) = sorted at hsorted ⊢
  constructor
  · intro hfind
    obtain ⟨hp, before, after, hsplit, hbefore⟩ := find?_eq_some_iff_append.mp hfind
    rw [hsplit] at hsorted ⊢
    refine ⟨?_, find?_eq_some_iff_append.mpr ⟨by simp [hp], before, after, rfl, ?_⟩⟩
    · intro b hb hpb
      rcases mem_append.mp hb with hb | hb
      · have hno := hbefore b hb
        simp [hpb] at hno
      · rcases mem_cons.mp hb with rfl | hb
        · exact le_rfl
        · exact (pairwise_cons.mp (pairwise_append.mp hsorted).2.1).1 b hb
    · intro b hb
      have hno := hbefore b hb
      simp_all
  · rintro ⟨hmax, hfind⟩
    obtain ⟨hq, before, after, hsplit, hbefore⟩ := find?_eq_some_iff_append.mp hfind
    rw [Bool.and_eq_true] at hq
    refine find?_eq_some_iff_append.mpr ⟨hq.1, before, after, hsplit, ?_⟩
    intro b hb
    cases hpb : p b with
    | false => rfl
    | true =>
      -- What comes before has no smaller key, so it would have been found.
      rw [hsplit] at hsorted hmax
      have hle := hmax b (mem_append_left _ hb) hpb
      have hge := (pairwise_append.mp hsorted).2.2 b hb a mem_cons_self
      have hno := hbefore b hb
      simp [hpb, le_antisymm hle hge] at hno

end Sorting

section Values

variable {κ ν : Type}

theorem values_eq_map [Ord κ] (t : Std.TreeMap κ ν) : t.values = t.toList.map Prod.snd := by
  have hfold : t.values = t.foldr (fun _ v l => v :: l) [] := rfl
  rw [hfold, Std.TreeMap.foldr_eq_foldr_toList]
  induction t.toList with
  | nil => rfl
  | cons e es ih => simp_all

theorem mem_values [Ord κ] [Std.TransOrd κ] [Std.LawfulEqOrd κ] {t : Std.TreeMap κ ν} {v : ν} :
    v ∈ t.values ↔ ∃ k : κ, t[k]? = some v := by
  rw [values_eq_map, mem_map]
  constructor
  · rintro ⟨⟨k, w⟩, hmem, rfl⟩
    exact ⟨k, Std.TreeMap.mem_toList_iff_getElem?_eq_some.mp hmem⟩
  · rintro ⟨k, hk⟩
    exact ⟨(k, v), Std.TreeMap.mem_toList_iff_getElem?_eq_some.mpr hk, rfl⟩

/-- The first value of an ordered map that matches has the least key of all that do. -/
theorem find?_values_eq_some [LinearOrder κ] [Std.LawfulEqOrd κ] {t : Std.TreeMap κ ν}
    {p : ν → Bool} {v : ν} (h : t.values.find? p = some v) :
    p v = true ∧ ∃ k : κ, t[k]? = some v ∧ ∀ k' v', t[k']? = some v' → p v' = true → k ≤ k' := by
  rw [values_eq_map, find?_map, Option.map_eq_some_iff] at h
  obtain ⟨⟨k, w⟩, hfind, rfl⟩ := h
  obtain ⟨hp, before, after, hsplit, hbefore⟩ := find?_eq_some_iff_append.mp hfind
  have hmem : (k, w) ∈ t.toList := mem_of_find?_eq_some hfind
  refine ⟨hp, k, Std.TreeMap.mem_toList_iff_getElem?_eq_some.mp hmem, ?_⟩
  intro k' v' hget hp'
  have hmem' : (k', v') ∈ t.toList := Std.TreeMap.mem_toList_iff_getElem?_eq_some.mpr hget
  have hordered := t.ordered_keys_toList
  rw [hsplit] at hmem' hordered
  rcases mem_append.mp hmem' with hin | hin
  · have hno := hbefore _ hin
    simp [hp'] at hno
  · rcases mem_cons.mp hin with heq | hin
    · cases heq
      exact le_rfl
    · have hlt := (pairwise_cons.mp (pairwise_append.mp hordered).2.1).1 _ hin
      exact (compare_lt_iff_lt.mp hlt).le

end Values

end Wokcore.Lib
