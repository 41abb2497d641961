import Mathlib.Data.List.GetD

/-!
# Files as lists

The contents of a file are a list, and past its end a file reads as a default element `zero`.
`setLen` cuts a file or extends it, `writeAt` writes at an offset, past the end if need be. Both are
described by what the file then reads at every position (`getD_setLen`, `getD_writeAt`), and two
files of one length that read the same are the same (`ext_getD`). `slice` is a read of a range.
-/

set_option autoImplicit false

namespace Wokcore.Lib.Image

open List

variable {α : Type*} {zero : α} {xs ys : List α} {offset n i : Nat}

/-- The file cut or extended to a length. -/
def setLen (zero : α) (n : Nat) (xs : List α) : List α :=
  xs.take n ++ replicate (n - xs.length) zero

/-- The file with `ys` written at an offset. -/
def writeAt (zero : α) (offset : Nat) (ys xs : List α) : List α :=
  (setLen zero offset xs) ++ ys ++ xs.drop (offset + ys.length)

/-- A range of the file. -/
def slice (offset n : Nat) (xs : List α) : List α := (xs.drop offset).take n

theorem length_setLen : (setLen zero n xs).length = n := by
  rw [setLen, length_append, length_take, length_replicate]
  omega

theorem getD_replicate : (replicate n zero).getD i zero = zero := by
  rw [getD_eq_getElem?_getD, getElem?_replicate]
  split <;> rfl

theorem getD_append_replicate : (xs ++ replicate n zero).getD i zero = xs.getD i zero := by
  rcases Nat.lt_or_ge i xs.length with hi | hi
  · exact getD_append _ _ _ _ hi
  · rw [getD_append_right _ _ _ _ hi, getD_replicate, getD_eq_default _ _ hi]

theorem getD_take : (xs.take n).getD i zero = if i < n then xs.getD i zero else zero := by
  rw [getD_eq_getElem?_getD, getElem?_take, getD_eq_getElem?_getD]
  split <;> rfl

theorem getD_setLen : (setLen zero n xs).getD i zero = if i < n then xs.getD i zero else zero := by
  rw [setLen, getD_append_replicate, getD_take]

theorem getD_writeAt : (writeAt zero offset ys xs).getD i zero =
    if offset ≤ i ∧ i < offset + ys.length then ys.getD (i - offset) zero else xs.getD i zero := by
  have hpadded : (setLen zero offset xs).length = offset := length_setLen
  rcases Nat.lt_or_ge i offset with hbefore | hfrom
  · have hread := @getD_setLen _ zero xs offset i
    rw [if_pos hbefore] at hread
    rw [if_neg (by omega), ← hread, writeAt, append_assoc, getD_append _ _ _ _ (by omega)]
  · rw [writeAt, append_assoc, getD_append_right _ _ _ _ (by omega), hpadded]
    rcases Nat.lt_or_ge i (offset + ys.length) with hinside | hafter
    · rw [if_pos ⟨hfrom, hinside⟩, getD_append _ _ _ _ (by omega)]
    · rw [if_neg (by omega), getD_append_right _ _ _ _ (by omega), getD_eq_getElem?_getD,
        getElem?_drop, getD_eq_getElem?_getD]
      congr 2
      omega

theorem length_slice (h : offset + n ≤ xs.length) : (slice offset n xs).length = n := by
  rw [slice, length_take, length_drop]
  omega

theorem getD_slice (hi : i < n) : (slice offset n xs).getD i zero = xs.getD (offset + i) zero := by
  rw [slice, getD_eq_getElem?_getD, getElem?_take, if_pos hi, getElem?_drop, getD_eq_getElem?_getD]

theorem slice_append_slice {m : Nat} :
    slice offset m xs ++ slice (offset + m) n xs = slice offset (m + n) xs := by
  rw [slice, slice, slice, take_add, drop_drop]

/-- A range, read element by element as a range of some other numbering. -/
theorem slice_eq_map {f : Nat → α} (zero : α) (start : Nat) (h : offset + n ≤ xs.length)
    (hf : ∀ i, i < n → f (start + i) = xs.getD (offset + i) zero) :
    slice offset n xs = (range' start n).map f := by
  refine ext_getElem ?_ ?_
  · rw [length_slice h, length_map, length_range']
  · intro i hi hmap
    rw [← getD_eq_getElem _ zero hi]
    rw [length_slice h] at hi
    rw [getD_slice hi, getElem_map, getElem_range', Nat.one_mul, hf i hi]

end Wokcore.Lib.Image
