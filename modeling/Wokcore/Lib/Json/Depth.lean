import Wokcore.Lib.Json.RoundTrip
import Wokcore.Lib.Json.Record

/-!
# How deep documents are

A document that was read is nested at most `maxNesting` deep: the stack of the reader is never
longer, and what an open array or object holds fits above the ones it is in. From there on depth
only gets smaller: a member or an item is less deep than the document it is in, and reading objects
as maps drops members.
-/

set_option autoImplicit false

namespace Wokcore.Lib

namespace Json

variable {fs : Members} {xs : List Json} {n : Nat} {x : Json}

theorem depthItems_append (xs ys : List Json) :
    depthItems (xs ++ ys) = max (depthItems xs) (depthItems ys) := by
  induction xs with
  | nil => simp [depthItems]
  | cons x xs ih => rw [List.cons_append, depthItems, depthItems, ih, max_assoc]

theorem depthMembers_append (fs gs : Members) :
    depthMembers (fs ++ gs) = max (depthMembers fs) (depthMembers gs) := by
  induction fs with
  | nil => simp [depthMembers]
  | cons f fs ih => rw [List.cons_append, depthMembers, depthMembers, ih, max_assoc]

theorem depthItems_le_iff : depthItems xs ≤ n ↔ ∀ x ∈ xs, x.depth ≤ n := by
  induction xs with
  | nil => simp [depthItems]
  | cons x xs ih => rw [depthItems, max_le_iff, ih, List.forall_mem_cons]

theorem depthMembers_le_iff : depthMembers fs ≤ n ↔ ∀ f ∈ fs, f.2.depth ≤ n := by
  induction fs with
  | nil => simp [depthMembers]
  | cons f fs ih => rw [depthMembers, max_le_iff, ih, List.forall_mem_cons]

theorem depth_le_of_mem_items (h : x ∈ xs) : x.depth ≤ depthItems xs :=
  depthItems_le_iff.mp le_rfl x h

theorem depth_le_of_mem_members {f : String × Json} (h : f ∈ fs) : f.2.depth ≤ depthMembers fs :=
  depthMembers_le_iff.mp le_rfl f h

theorem depth_lt_arr (h : x ∈ xs) : x.depth < (arr xs).depth := by
  rw [depth]
  exact Nat.lt_succ_of_le (depth_le_of_mem_items h)

theorem depth_lt_obj {k : String} (h : (k, x) ∈ fs) : x.depth < (obj fs).depth := by
  rw [depth]
  exact Nat.lt_succ_of_le (depth_le_of_mem_members h)

theorem depth_arr_le {α : Type*} {f : α → Json} {as : List α} (h : ∀ a ∈ as, (f a).depth ≤ n) :
    (arr (as.map f)).depth ≤ n + 1 := by
  rw [depth]
  exact Nat.succ_le_succ (depthItems_le_iff.mpr (List.forall_mem_map.mpr h))

theorem depth_obj_le (h : ∀ f ∈ fs, f.2.depth ≤ n) : (obj fs).depth ≤ n + 1 := by
  rw [depth]
  exact Nat.succ_le_succ (depthMembers_le_iff.mpr h)

mutual

theorem depth_norm_le : ∀ j : Json, j.norm.depth ≤ j.depth
  | .null => le_rfl
  | .bool _ => le_rfl
  | .num _ => le_rfl
  | .str _ => le_rfl
  | .arr xs => by
    rw [norm, depth, depth]
    exact Nat.add_le_add_right (depthItems_norm_le xs) 1
  | .obj fs => by
    rw [norm, depth, depth]
    refine Nat.add_le_add_right (depthMembers_le_iff.mpr fun f hf => ?_) 1
    exact (depth_le_of_mem_members (mem_of_mem_ofEntries hf)).trans (depthMembers_norm_le fs)

theorem depthItems_norm_le : ∀ xs : List Json, depthItems (normItems xs) ≤ depthItems xs
  | [] => le_rfl
  | x :: xs => max_le_max (depth_norm_le x) (depthItems_norm_le xs)

theorem depthMembers_norm_le : ∀ fs : Members,
    depthMembers (normMembers fs) ≤ depthMembers fs
  | [] => le_rfl
  | (_, x) :: fs => max_le_max (depth_norm_le x) (depthMembers_norm_le fs)

end

theorem depth_toValue_le (j : Json) : j.toValue.tree.depth ≤ j.depth := depth_norm_le j

theorem depth_array_le {vs : List Value} (h : ∀ v ∈ vs, v.tree.depth ≤ n) :
    (Value.array vs).tree.depth ≤ n + 1 := (depth_norm_le _).trans (depth_arr_le h)

theorem depth_object_le {m : EntryMap Value} (h : ∀ e ∈ m.entries, e.2.tree.depth ≤ n) :
    (Value.object m).tree.depth ≤ n + 1 := by
  refine (depth_norm_le _).trans (depth_obj_le fun x hx => ?_)
  obtain ⟨e, he, rfl⟩ := List.mem_map.mp hx
  exact h e he

end Json

/-! ## The reader -/

namespace Expect

open Json

variable {stack : List Open} {e : Expect} {t : Token}

/-- What the open arrays and objects hold fits into the nesting that is left above them. -/
def StackFits : List Open → Prop
  | [] => True
  | .arr xs :: stack => stack.length + 1 + depthItems xs ≤ maxNesting ∧ StackFits stack
  | .obj fs _ :: stack => stack.length + 1 + depthMembers fs ≤ maxNesting ∧ StackFits stack

def Fits : Expect → Prop
  | .value stack => StackFits stack
  | .itemOrEnd stack => stack.length + 1 ≤ maxNesting ∧ StackFits stack
  | .keyOrEnd stack => stack.length + 1 ≤ maxNesting ∧ StackFits stack
  | .key fs stack => stack.length + 1 + depthMembers fs ≤ maxNesting ∧ StackFits stack
  | .colon fs _ stack => stack.length + 1 + depthMembers fs ≤ maxNesting ∧ StackFits stack
  | .after j stack => stack.length + j.depth ≤ maxNesting ∧ StackFits stack

theorem StackFits.length_le (h : StackFits stack) : stack.length ≤ maxNesting := by
  cases stack with
  | nil => exact Nat.zero_le _
  | cons o stack =>
    have h1 : stack.length + 1 ≤ maxNesting := by
      cases o with
      | arr | obj => exact le_trans (Nat.le_add_right _ _) h.1
    simpa using h1

theorem fits_stepValue (h : StackFits stack) (ht : stepValue stack t = some e) : e.Fits := by
  have hlen := h.length_le
  cases t with
  | openBracket | openBrace =>
    rw [stepValue] at ht
    split at ht
    · next hlt => cases ht; exact ⟨hlt, h⟩
    · cases ht
  | str | num => cases ht; exact ⟨by simpa [depth] using hlen, h⟩
  | word w =>
    cases ht
    refine ⟨?_, h⟩
    cases w <;> simpa [Word.json, depth] using hlen
  | closeBrace | closeBracket | colon | comma => cases ht

theorem fits_stepAfter {j : Json} (hj : stack.length + j.depth ≤ maxNesting) (h : StackFits stack)
    (ht : stepAfter j stack t = some e) : e.Fits := by
  cases stack with
  | nil => cases ht
  | cons o stack =>
    rw [List.length_cons] at hj
    cases o with
    | arr xs =>
      obtain ⟨hxs, hst⟩ := h
      have hmore : stack.length + 1 + depthItems (xs ++ [j]) ≤ maxNesting := by
        rw [depthItems_append]
        simp only [depthItems]
        omega
      cases t with
      | comma => cases ht; exact ⟨hmore, hst⟩
      | closeBracket => cases ht; exact ⟨by rw [depth]; omega, hst⟩
      | _ => cases ht
    | obj fs k =>
      obtain ⟨hfs, hst⟩ := h
      have hmore : stack.length + 1 + depthMembers (fs ++ [(k, j)]) ≤ maxNesting := by
        rw [depthMembers_append]
        simp only [depthMembers]
        omega
      cases t with
      | comma => cases ht; exact ⟨hmore, hst⟩
      | closeBrace => cases ht; exact ⟨by rw [depth]; omega, hst⟩
      | _ => cases ht

theorem fits_step {e' : Expect} (h : e.Fits) (ht : e.step t = some e') : e'.Fits := by
  cases e with
  | value stack => exact fits_stepValue h ht
  | itemOrEnd stack =>
    obtain ⟨hlen, hst⟩ := h
    have hopen : StackFits (.arr [] :: stack) := ⟨by simpa [depthItems] using hlen, hst⟩
    by_cases hc : t = .closeBracket
    · subst hc
      cases ht
      exact ⟨by simpa [depth, depthItems] using hlen, hst⟩
    · have hstep : step (.itemOrEnd stack) t = stepValue (.arr [] :: stack) t := by
        cases t <;> first | rfl | exact absurd rfl hc
      exact fits_stepValue hopen (hstep ▸ ht)
  | keyOrEnd stack =>
    obtain ⟨hlen, hst⟩ := h
    cases t with
    | closeBrace => cases ht; exact ⟨by simpa [depth, depthMembers] using hlen, hst⟩
    | str k => cases ht; exact ⟨by simpa [depthMembers] using hlen, hst⟩
    | _ => cases ht
  | key fs stack =>
    cases t with
    | str k => cases ht; exact h
    | _ => cases ht
  | colon fs k stack =>
    cases t with
    | colon => cases ht; exact h
    | _ => cases ht
  | after j stack => exact fits_stepAfter h.1 h.2 ht

theorem depth_of_run {ts : List Token} {j : Json} (h : e.Fits) (hr : e.run ts = some j) :
    j.depth ≤ maxNesting := by
  induction ts generalizing e with
  | nil =>
    cases e with
    | after k stack =>
      cases stack with
      | nil => cases hr; simpa using h.1
      | cons o stack => cases hr
    | _ => cases hr
  | cons t ts ih =>
    rw [run] at hr
    obtain ⟨e', he, hr⟩ := Option.bind_eq_some_iff.mp hr
    exact ih (fits_step h he) hr

end Expect

/-- What is read is not nested past `maxNesting`. -/
theorem depth_of_fromSlice {F : FloatReader} {bytes : Bytes} {j : Json}
    (h : fromSlice F bytes = some j) : j.depth ≤ maxNesting := by
  obtain ⟨cs, -, h⟩ := Option.bind_eq_some_iff.mp h
  obtain ⟨ts, -, h⟩ := Option.bind_eq_some_iff.mp h
  exact Expect.depth_of_run (e := .value []) trivial h

/-! ## Records -/

namespace Read

variable {α : Type*} {f : Json → Option α} {key : String} {fs : Members} {j : Json} {a : α}
    {ys : List α}

theorem mem_of_member (h : member key fs = some (some j)) : (key, j) ∈ fs := by
  unfold member at h
  split at h
  · cases h
  · next f hf =>
    cases h
    have hmem : f ∈ fs.filter fun f => f.1 = key := hf ▸ List.mem_singleton_self f
    obtain ⟨hf, hk⟩ := List.mem_filter.mp hmem
    have hk : f.1 = key := by simpa using hk
    exact hk ▸ hf
  · cases h

theorem of_required (h : required key f fs = some a) : ∃ j, (key, j) ∈ fs ∧ f j = some a := by
  obtain ⟨j, hm, h⟩ := Option.bind_eq_some_iff.mp h
  obtain ⟨k, rfl, hk⟩ := Option.bind_eq_some_iff.mp h
  exact ⟨k, mem_of_member hm, hk⟩

theorem of_option (h : option f j = some (some a)) : f j = some a := by
  cases j with
  | null => cases h
  | _ =>
    obtain ⟨b, hb, hab⟩ := Option.map_eq_some_iff.mp h
    cases hab
    exact hb

theorem of_maybe (h : maybe key f fs = some (some a)) : ∃ j, (key, j) ∈ fs ∧ f j = some a := by
  obtain ⟨j, hm, h⟩ := Option.bind_eq_some_iff.mp h
  cases j with
  | none => cases h
  | some k => exact ⟨k, mem_of_member hm, of_option h⟩

theorem of_withDefault {d : α} (h : withDefault key f d fs = some a) : a = d ∨ ∃ j, (key, j) ∈ fs ∧
    f j = some a := by
  obtain ⟨j, hm, h⟩ := Option.bind_eq_some_iff.mp h
  cases j with
  | none => cases h; exact .inl rfl
  | some k => exact .inr ⟨k, mem_of_member hm, h⟩

theorem of_mapM {β : Type*} {f : β → Option α} {xs : List β} {y : α} (h : xs.mapM f = some ys)
    (hy : y ∈ ys) :
    ∃ x ∈ xs, f x = some y :=
  Outcome.of_mem_right (R := fun x y => f x = some y) (Outcome.mapM_eq_some.mp h) hy

theorem of_list {y : α} (h : list f j = some ys) (hy : y ∈ ys) : ∃ xs, j = .arr xs ∧ ∃ x ∈ xs,
    f x = some y := by
  cases j with
  | arr xs => exact ⟨xs, rfl, of_mapM h hy⟩
  | _ => cases h

theorem of_tagged {buffered : Bool} {tag : String} {variants : Entries α} {gs : Members}
    (h : tagged buffered tag variants fs = some (a, gs)) : gs = withoutKey tag fs := by
  obtain ⟨v, -, hv⟩ := Option.map_eq_some_iff.mp h
  cases hv
  rfl

theorem mem_of_mem_withoutKey {f : String × Json} (h : f ∈ withoutKey key fs) : f ∈ fs :=
    (List.mem_filter.mp h).1

theorem of_orElse {β : Type*} {a : Option α} {b : Option β} {g : α → β} {y : β}
    (h : (a.map g <|> b) = some y) :
    (∃ x, a = some x ∧ g x = y) ∨ b = some y := by
  cases a with
  | none => exact .inr h
  | some x => exact .inl ⟨x, rfl, Option.some.inj h⟩

theorem asObject_eq_some (h : j.asObject = some fs) : j = .obj fs := by
  cases j with
  | obj gs => cases h; rfl
  | _ => cases h

end Read

end Wokcore.Lib
