import Mathlib.Data.List.Infix
import Wokcore.Lib.Json.Record
import Wokcore.Lib.Json.RoundTrip

/-!
# How long printed documents are, and what they are made of

The text of a document is longer than the text of anything in it, because it contains that text. It
has no control characters, because the printer escapes those of a string and writes none of its own.
-/

set_option autoImplicit false

namespace Wokcore.Lib

open Token List

variable {c : Char}

theorem length_le_escape (cs : List Char) : cs.length ≤ (escape cs).length := by
  induction cs with
  | nil => exact le_rfl
  | cons c cs ih =>
    have hc : 1 ≤ (escapeChar c).length := by
      unfold escapeChar
      repeat' split
      all_goals simp
    simp only [escape, flatMap_cons, length_append, length_cons] at ih ⊢
    omega

namespace Json

variable {fs : Members} {f : String × Json} {x : Json} {xs : List Json}

theorem length_print_str (s : String) : s.length + 2 ≤ (str s).print.length := by
  have h := length_le_escape s.toList
  rw [String.length_toList] at h
  simpa [print, tokens, chars] using h

/-- The length of the text of a list of items, without what separates them. -/
def itemsLength (xs : List Json) : Nat := (xs.map fun x => x.print.length).sum

theorem itemsLength_le (sep : Bool) (xs : List Json) :
    itemsLength xs + 1 ≤ ((tokensItems sep xs).flatMap chars).length := by
  induction xs generalizing sep with
  | nil => simp [itemsLength, tokensItems, chars]
  | cons x xs ih =>
    have h := ih true
    simp only [itemsLength, print, map_cons, sum_cons, tokensItems, flatMap_append,
      length_append] at h ⊢
    omega

theorem length_print_arr (xs : List Json) : itemsLength xs + 2 ≤ (arr xs).print.length := by
  have h := itemsLength_le false xs
  simp only [print, tokens, flatMap_cons, length_append, chars, length_cons,
    length_nil]
  omega

/-! ## Parts -/

/-- The text of `x` is in the text of `y`. -/
def PartOf (x y : Json) : Prop := x.print <:+: y.print

theorem PartOf.trans {y z : Json} (h₁ : x.PartOf y) (h₂ : y.PartOf z) : x.PartOf z :=
  IsInfix.trans h₁ h₂

theorem PartOf.length_toVec {y : Json} (h : x.PartOf y) : x.toVec.length ≤ y.toVec.length := by
  obtain ⟨before, after, h⟩ := h
  rw [toVec, toVec, encodeUtf8, encodeUtf8, ← h, flatMap_append, flatMap_append,
    length_append, length_append]
  omega

theorem infix_tokensItems (sep : Bool) (h : x ∈ xs) : x.tokens <:+: tokensItems sep xs := by
  induction xs generalizing sep with
  | nil => cases h
  | cons y ys ih =>
    rw [tokensItems, ← append_assoc]
    rcases mem_cons.mp h with rfl | h
    · exact ⟨_, _, rfl⟩
    · exact (ih true h).trans (suffix_append _ _).isInfix

theorem infix_tokensMembers (sep : Bool) (h : f ∈ fs) : f.2.tokens <:+: tokensMembers sep fs := by
  induction fs generalizing sep with
  | nil => cases h
  | cons g gs ih =>
    obtain ⟨k, y⟩ := g
    rw [tokensMembers]
    rcases mem_cons.mp h with rfl | h
    · exact ⟨(if sep then [.comma] else []) ++ [.str k, .colon], tokensMembers true gs, by simp⟩
    · refine (ih true h).trans ?_
      exact ⟨(if sep then [.comma] else []) ++ .str k :: .colon :: y.tokens, [], by simp⟩

theorem partOf_arr (h : x ∈ xs) : x.PartOf (arr xs) := by
  refine ((infix_tokensItems false h).trans ?_).flatMap _
  rw [tokens]
  exact (suffix_cons _ _).isInfix

theorem partOf_obj {k : String} (h : (k, x) ∈ fs) : x.PartOf (obj fs) := by
  refine ((infix_tokensMembers false h).trans ?_).flatMap _
  rw [tokens]
  exact (suffix_cons _ _).isInfix

theorem length_print_lt_obj (hf : f ∈ fs) : f.2.print.length < (obj fs).print.length := by
  have h := ((infix_tokensMembers false hf).flatMap chars).length_le
  simp only [print, tokens, flatMap_cons, length_append, chars, length_singleton] at h ⊢
  omega

/-- A member of an object, in the value of the object. -/
theorem partOf_norm_obj (hnd : (fs.map Prod.fst).Nodup) {k : String} (h : fs.lookup k = some x) :
    x.norm.PartOf (obj fs).norm := by
  have hlookup : (Read.valueMembers fs).lookup k = some x.norm := by
    rw [Read.lookup_valueMembers hnd, h]
    rfl
  obtain ⟨l₁, l₂, hl, -⟩ := lookup_eq_some_iff.mp hlookup
  rw [Read.norm_obj]
  exact partOf_obj (hl ▸ mem_append_right l₁ mem_cons_self)

/-- An item of an array, in the value of the array. -/
theorem partOf_norm_arr (h : x ∈ xs) : x.norm.PartOf (arr xs).norm := by
  rw [norm_arr]
  exact partOf_arr (mem_map_of_mem h)

end Json

/-! ## Control characters -/

theorem mem_utf8EncodeChar {b : UInt8} (h : b ∈ String.utf8EncodeChar c) (hb : b.toNat < 128) :
    c.toNat = b.toNat := by
  have hval : c.val.toNat = c.toNat := rfl
  unfold String.utf8EncodeChar at h
  simp only [hval] at h
  -- every byte of a longer encoding has its high bit set
  split_ifs at h with h₁ h₂ h₃
  · rw [mem_singleton.mp h, UInt8.toNat_ofNat']
    omega
  all_goals
    exfalso
    revert hb
    simp only [mem_cons, not_mem_nil, or_false] at h
  · rcases h with rfl | rfl <;> simp only [UInt8.toNat_ofNat'] <;> omega
  · rcases h with rfl | rfl | rfl <;> simp only [UInt8.toNat_ofNat'] <;> omega
  · rcases h with rfl | rfl | rfl | rfl <;> simp only [UInt8.toNat_ofNat'] <;> omega

theorem mem_encodeUtf8 {cs : List Char} {b : UInt8} (h : b ∈ encodeUtf8 cs) (hb : b.toNat < 128) :
    ∃ c ∈ cs, c.toNat = b.toNat := by
  obtain ⟨c, hc, hbc⟩ := mem_flatMap.mp h
  exact ⟨c, hc, mem_utf8EncodeChar hbc hb⟩

theorem encodeUtf8_append (cs ds : List Char) :
    encodeUtf8 (cs ++ ds) = encodeUtf8 cs ++ encodeUtf8 ds :=
  flatMap_append

theorem hexDigit_printable {n : Nat} (h : n < 16) : 32 ≤ (hexDigit n).toNat := by
  have hall : ∀ n < 16, 32 ≤ (hexDigit n).toNat := by decide
  exact hall n h

theorem escapeChar_printable {d : Char} (h : d ∈ escapeChar c) : 32 ≤ d.toNat := by
  unfold escapeChar at h
  split_ifs at h with h₁ h₂ h₃ h₄ h₅ h₆ h₇ h₈
  all_goals simp only [mem_cons, not_mem_nil, or_false] at h
  any_goals (rcases h with rfl | rfl <;> decide)
  · rcases h with rfl | rfl | rfl | rfl | rfl | rfl
    · decide
    · decide
    · decide
    · decide
    · exact hexDigit_printable (by omega)
    · exact hexDigit_printable (by omega)
  · subst h
    omega

theorem numberChar_printable (h : isNumberChar c = true) : 32 ≤ c.toNat := by
  simp only [isNumberChar, Char.isDigit, Bool.or_eq_true, Bool.and_eq_true, decide_eq_true_eq,
    beq_iff_eq] at h
  rcases h with ((((⟨h, -⟩ | rfl) | rfl) | rfl) | rfl) | rfl
  · have := UInt32.le_iff_toNat_le.mp h
    exact Nat.le_trans (by decide) this
  all_goals decide

theorem Token.printable {t : Token} (h : c ∈ t.chars) : 32 ≤ c.toNat := by
  cases t with
  | str s =>
    simp only [chars, mem_cons, mem_append, not_mem_nil, or_false] at h
    rcases h with rfl | h | rfl
    · decide
    · obtain ⟨d, -, hd⟩ := mem_flatMap.mp h
      exact escapeChar_printable hd
    · decide
  | num n =>
    obtain ⟨d, ds, hcons, hd, hall⟩ := isNumberText_cons (isNumberText_chars n)
    rw [chars, hcons] at h
    rcases mem_cons.mp h with rfl | h
    · rcases hd with rfl | hd
      · decide
      · exact numberChar_printable (isNumberChar_of_isDigit hd)
    · exact numberChar_printable (hall c h)
  | word w =>
    cases w <;> simp only [chars, Word.chars, mem_cons, not_mem_nil, or_false] at h
    · rcases h with rfl | rfl | rfl | rfl <;> decide
    · rcases h with rfl | rfl | rfl | rfl <;> decide
    · rcases h with rfl | rfl | rfl | rfl | rfl <;> decide
  | _ =>
    simp only [chars, mem_cons, not_mem_nil, or_false] at h
    subst h
    decide

/-- A printed document has no control character. -/
theorem Json.print_printable {j : Json} (h : c ∈ j.print) : 32 ≤ c.toNat := by
  obtain ⟨t, -, ht⟩ := mem_flatMap.mp h
  exact printable ht

end Wokcore.Lib
