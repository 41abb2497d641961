import Wokcore.Lib.Json.Text
import Mathlib.Data.List.Chain
import Mathlib.Data.List.TakeWhile
import Mathlib.Tactic.IntervalCases

/-!
# Reading back what was printed

The compact text of a document reads back as the document, with two exceptions that the main theorem
`fromSlice_toVec` names: arrays and objects nested past `maxNesting` are refused, and a float comes
back as the float its printed text is read as (`Json.reread`).

The proof follows the two stages of reading. Scanning undoes `Token.chars` token by token, provided
that no two tokens stand together whose texts would run into each other; the tokens of a document
keep that distance. The reader undoes `Json.tokens`, by induction over the document.
-/

set_option autoImplicit false

namespace Wokcore.Lib

variable (F : FloatReader) {cs : List Char} {n : Nat}

/-! ## What a second reading changes -/

def Num.reread : Num → Option Num
  | .float t => (F.read t.text.toList).map .float
  | n => some n

def Token.reread : Token → Option Token
  | .num n => (n.reread F).map .num
  | t => some t

namespace Json

mutual

/-- The document with every float read again from the text it prints as. -/
def reread : Json → Option Json
  | .num n => (n.reread F).map .num
  | .arr xs => (rereadItems xs).map .arr
  | .obj fs => (rereadMembers fs).map .obj
  | j => some j

def rereadItems : List Json → Option (List Json)
  | [] => some []
  | x :: xs => (reread x).bind fun y => (rereadItems xs).map (y :: ·)

def rereadMembers : Members → Option Members
  | [] => some []
  | (k, x) :: fs => (reread x).bind fun y => (rereadMembers fs).map ((k, y) :: ·)

end

/-- Every float of the document reads back as itself. -/
def Stable (j : Json) : Prop := j.reread F = some j

end Json

/-! ## Numbers -/

section

variable {ds : List Char} (h : ds.all Char.isDigit = true)
include h

theorem span_digits : ds.takeWhile Char.isDigit = ds ∧ ds.dropWhile Char.isDigit = [] :=
  ⟨List.takeWhile_eq_self_iff.mpr (by simpa using h), List.dropWhile_eq_nil_iff.mpr
    (by simpa using h)⟩

theorem splitNumber_digits : splitNumber ds = (false, ds, []) := by
  obtain ⟨ht, hd⟩ := span_digits h
  cases ds with
  | nil => rfl
  | cons c cs =>
    have hc : c ≠ '-' := by rintro rfl; cases h
    rw [splitNumber, if_neg hc, ht, hd]

theorem splitNumber_minus : splitNumber ('-' :: ds) = (true, ds, []) := by
  obtain ⟨ht, hd⟩ := span_digits h
  rw [splitNumber, if_pos rfl, ht, hd]

end

theorem toDigits_all_isDigit (n : Nat) : (Nat.toDigits 10 n).all Char.isDigit = true := by
  simp only [List.all_eq_true]
  exact fun c hc => Nat.isDigit_of_mem_toDigits (by decide) (by decide) hc

theorem digitChar_ne_zero (h0 : 0 < n) (h : n < 10) : n.digitChar ≠ '0' := by
  interval_cases n <;> decide

theorem head_toDigits_ne_zero (h : 0 < n) : (Nat.toDigits 10 n).head? ≠ some '0' := by
  induction n using Nat.strongRecOn with
  | ind n ih =>
    by_cases hn : n < 10
    · rw [Nat.toDigits_of_lt_base hn]
      simpa using digitChar_ne_zero h hn
    · have hdiv : 0 < n / 10 := by omega
      have hhead := ih (n / 10) (by omega) hdiv
      rw [Nat.toDigits_of_base_le (by decide) (by omega),
        List.head?_append_of_ne_nil _ Nat.toDigits_ne_nil]
      exact hhead

theorem isIntPart_toDigits (n : Nat) : isIntPart (Nat.toDigits 10 n) = true := by
  have hne : (Nat.toDigits 10 n).isEmpty = false := by simp [Nat.toDigits_ne_nil]
  rw [isIntPart, isDigits, hne, toDigits_all_isDigit]
  rcases Nat.eq_zero_or_pos n with rfl | hn
  · decide
  · simpa using .inl (head_toDigits_ne_zero hn)

theorem isNumberChar_of_isDigit {c : Char} (h : c.isDigit = true) : isNumberChar c = true := by
  simp [isNumberChar, h]

theorem isNumberChar_of_isDigits {ds : List Char} (h : isDigits ds = true) :
    ∀ c ∈ ds, isNumberChar c = true := by
  rw [isDigits, Bool.and_eq_true, List.all_eq_true] at h
  exact fun c hc => isNumberChar_of_isDigit (h.2 c hc)

theorem isNumberChar_of_span (hdigits : isDigits (cs.takeWhile Char.isDigit) = true)
    (hrest : ∀ c ∈ cs.dropWhile Char.isDigit, isNumberChar c = true) : ∀ c ∈ cs,
    isNumberChar c = true := by
  rw [← List.takeWhile_append_dropWhile (p := Char.isDigit) (l := cs)]
  exact List.forall_mem_append.mpr ⟨isNumberChar_of_isDigits hdigits, hrest⟩

theorem isNumberChar_of_isExponent (h : isExponent cs = true) : ∀ c ∈ cs,
    isNumberChar c = true := by
  cases cs with
  | nil => simp
  | cons e cs =>
    rw [isExponent, Bool.and_eq_true] at h
    obtain ⟨he, h⟩ := h
    refine List.forall_mem_cons.mpr ⟨?_, ?_⟩
    · rcases (Bool.or_eq_true _ _).mp he with he | he <;> simp [isNumberChar, eq_of_beq he]
    · cases cs with
      | nil => simp
      | cons c ds =>
        rw [isSignedDigits] at h
        split at h
        · next hc =>
          refine List.forall_mem_cons.mpr ⟨?_, isNumberChar_of_isDigits h⟩
          rcases hc with rfl | rfl <;> decide
        · exact isNumberChar_of_isDigits h

theorem isNumberChar_of_isNumberTail (h : isNumberTail cs = true) : ∀ c ∈ cs,
    isNumberChar c = true := by
  cases cs with
  | nil => simp
  | cons c cs =>
    rw [isNumberTail] at h
    split at h
    · next hc =>
      obtain ⟨hd, he⟩ := (Bool.and_eq_true _ _).mp h
      exact List.forall_mem_cons.mpr
        ⟨by rw [hc]; decide, isNumberChar_of_span hd (isNumberChar_of_isExponent he)⟩
    · exact isNumberChar_of_isExponent h

/-- A number text starts with a character the scanner starts a number at, and goes on with
    characters it takes into the number. -/
theorem isNumberText_cons (h : isNumberText cs = true) :
    ∃ c rest, cs = c :: rest ∧ (c = '-' ∨ c.isDigit = true) ∧ ∀ d ∈ rest,
    isNumberChar d = true := by
  rw [isNumberText, Bool.and_eq_true] at h
  obtain ⟨hint, htail⟩ := h
  cases cs with
  | nil => exact absurd hint (by decide)
  | cons c rest =>
    refine ⟨c, rest, rfl, ?_⟩
    rw [isIntPart, Bool.and_eq_true] at hint
    by_cases hc : c = '-'
    · rw [splitNumber, if_pos hc] at hint htail
      exact ⟨.inl hc, isNumberChar_of_span hint.1 (isNumberChar_of_isNumberTail htail)⟩
    · rw [splitNumber, if_neg hc] at hint htail
      have hchars := isNumberChar_of_span hint.1 (isNumberChar_of_isNumberTail htail)
      refine ⟨.inr ?_, (List.forall_mem_cons.mp hchars).2⟩
      by_contra hdig
      rw [List.takeWhile_cons, if_neg hdig] at hint
      exact absurd hint.1 (by simp [isDigits])

theorem isNumberText_chars (n : Num) : isNumberText n.chars = true := by
  cases n with
  | nat n =>
    simp [Num.chars, isNumberText, splitNumber_digits (toDigits_all_isDigit _), isIntPart_toDigits,
      isNumberTail]
  | neg n =>
    simp [Num.chars, isNumberText, splitNumber_minus (toDigits_all_isDigit _), isIntPart_toDigits,
      isNumberTail]
  | float t => exact ((Bool.and_eq_true _ _).mp t.valid).1

theorem readNumber_chars (n : Num) : readNumber F n.chars = n.reread F := by
  rw [readNumber, if_pos (isNumberText_chars n)]
  cases n with
  | nat n =>
    simp only [Num.chars, splitNumber_digits (toDigits_all_isDigit _),
      Nat.ofDigitChars_ten_toDigits]
    simp [Num.reread, n.toNat_lt]
  | neg n =>
    have hn : 0 < n.val + 1 ∧ n.val + 1 ≤ 2 ^ 63 := ⟨by omega, n.isLt⟩
    simp only [Num.chars, splitNumber_minus (toDigits_all_isDigit _), Nat.ofDigitChars_ten_toDigits,
      if_true, dif_pos hn]
    simp [Num.reread]
  | float t =>
    have htail := ((Bool.and_eq_true _ _).mp t.valid).2
    rw [Num.chars, Num.reread]
    split
    · next hs => rw [hs] at htail; cases htail
    · rfl

/-! ## Scanning strings -/

theorem hexValue_hexDigit (h : n < 16) : hexValue (hexDigit n) = some n := by
  interval_cases n <;> decide

namespace Scan

variable {cs : List Char} {c : Char}

theorem run_cons_silent {s t : Scan} (h : s.step F c = some (t, [])) (cs : List Char) :
    s.run F (c :: cs) = t.run F cs := by
  rw [run, h]
  simp

variable (acc : List Char) {value : Nat}

theorem run_hexDigit (high : Option Nat) {count d : Nat} (hc : hexValue c = some d) (h : count < 3)
    (cs : List Char) :
    run F (.hex acc high count value) (c :: cs) =
      run F (.hex acc high (count + 1) (value * 16 + d)) cs :=
  run_cons_silent F (by simp [step, hc, h]) cs

theorem run_lastHexDigit {acc : List Char} {high : Option Nat} {d : Nat} {t : Scan}
    (hc : hexValue c = some d) (h : endHex acc high (value * 16 + d) = some t) (cs : List Char) :
    run F (.hex acc high 3 value) (c :: cs) = run F t cs :=
  run_cons_silent F (by simp [step, hc, h]) cs

theorem run_hexDigits {n : Nat} (h : n < 32) (cs : List Char) :
    run F (.hex acc none 0 0) ('0' :: '0' :: hexDigit (n / 16) :: hexDigit (n % 16) :: cs) =
      run F (.str (Char.ofNat n :: acc)) cs := by
  have h0 : hexValue '0' = some 0 := by decide
  have hend : endHex acc none (n / 16 * 16 + n % 16) = some (.str (Char.ofNat n :: acc)) := by
    have hn : n / 16 * 16 + n % 16 = n := by omega
    rw [hn, endHex, if_neg (by omega), if_neg (by omega)]
  rw [run_hexDigit F acc none h0 (by decide), run_hexDigit F acc none h0 (by decide),
    run_hexDigit F acc none (hexValue_hexDigit (n := n / 16) (by omega)) (by decide),
    run_lastHexDigit F (hexValue_hexDigit (n := n % 16) (by omega)) (by simpa using hend)]

/-- The printed form of a character reads back as the character. -/
theorem run_escapeChar (c : Char) (cs : List Char) :
    run F (.str acc) (escapeChar c ++ cs) = run F (.str (c :: acc)) cs := by
  have short : ∀ d : Char, d ≠ 'u' → unescape d = some c →
      run F (.str acc) ('\\' :: d :: cs) = run F (.str (c :: acc)) cs := by
    intro d hu hd
    rw [run_cons_silent F (t := .esc acc) (by simp [step]),
      run_cons_silent F (t := .str (c :: acc)) (by simp [step, hu, hd])]
  unfold escapeChar
  split_ifs with hq hb h8 hf hn hr ht h32
  · exact short '"' (by decide) (by rw [hq]; decide)
  · exact short '\\' (by decide) (by rw [hb]; decide)
  · exact short 'b' (by decide) (by rw [h8]; decide)
  · exact short 'f' (by decide) (by rw [hf]; decide)
  · exact short 'n' (by decide) (by rw [hn]; decide)
  · exact short 'r' (by decide) (by rw [hr]; decide)
  · exact short 't' (by decide) (by rw [ht]; decide)
  · simp only [List.cons_append, List.nil_append]
    rw [run_cons_silent F (t := .esc acc) (by simp [step]),
      run_cons_silent F (t := .hex acc none 0 0) (by simp [step]), run_hexDigits F acc h32,
      Char.ofNat_toNat]
  · exact run_cons_silent F (by simp [step, hq, hb, h32]) cs

theorem run_escape (s acc cs : List Char) :
    run F (.str acc) (escape s ++ '"' :: cs) =
      (run F .idle cs).map (.str (.ofList (acc.reverse ++ s)) :: ·) := by
  induction s generalizing acc with
  | nil => simp [escape, run, step]
  | cons c s ih =>
    have hc : escape (c :: s) = escapeChar c ++ escape s := rfl
    rw [hc, List.append_assoc, run_escapeChar, ih]
    simp

/-! ## Scanning tokens -/

/-- The text is over, or goes on with a character that ends a number and a name. -/
def Ends (cs : List Char) : Prop :=
  ∀ c rest, cs = c :: rest → isNumberChar c = false ∧ c.isLower = false

/-- A number and a name take the characters that belong to them. -/
theorem run_append {T : List Char → Scan} {p : Char → Bool}
    (hstep : ∀ {acc d}, p d = true → (T acc).step F d = some (T (d :: acc), []))
    (ds acc cs : List Char) (h : ∀ d ∈ ds, p d = true) :
    run F (T acc) (ds ++ cs) = run F (T (ds.reverse ++ acc)) cs := by
  induction ds generalizing acc with
  | nil => rfl
  | cons d ds ih =>
    obtain ⟨hd, hds⟩ := List.forall_mem_cons.mp h
    rw [List.cons_append, run_cons_silent F (hstep hd), ih _ hds]
    simp

theorem run_num_ends (h : Ends cs) :
    run F (.num acc) cs =
      (readNumber F acc.reverse).bind fun n => (run F .idle cs).map (.num n :: ·) := by
  cases cs with
  | nil => cases hn : readNumber F acc.reverse <;> simp [run, finish, hn]
  | cons c cs =>
    have hc := (h c cs rfl).1
    cases hn : readNumber F acc.reverse <;> cases hi : stepIdle c <;>
      simp [run, step, hc, hn, hi, Function.comp_def]

theorem run_word_ends (h : Ends cs) :
    run F (.word acc) cs =
      (readWord acc.reverse).bind fun w => (run F .idle cs).map (.word w :: ·) := by
  cases cs with
  | nil => cases hn : readWord acc.reverse <;> simp [run, finish, hn]
  | cons c cs =>
    have hc := (h c cs rfl).2
    cases hn : readWord acc.reverse <;> cases hi : stepIdle c <;>
      simp [run, step, hc, hn, hi, Function.comp_def]

theorem stepIdle_number (h : c = '-' ∨ c.isDigit = true) : stepIdle c = some (.num [c], []) := by
  have hne : ∀ d : Char, d ≠ '-' ∧ d.isDigit = false → c ≠ d := by
    rintro d ⟨hd, hdig⟩ rfl
    rcases h with h | h
    · exact hd h
    · rw [hdig] at h; cases h
  unfold stepIdle
  rw [if_neg, if_neg (hne _ (by decide)), if_neg (hne _ (by decide)), if_neg (hne _ (by decide)),
    if_neg (hne _ (by decide)), if_neg (hne _ (by decide)), if_neg (hne _ (by decide)),
    if_neg (hne _ (by decide)), if_pos h]
  rintro (h | h | h | h)
  all_goals exact hne _ (by decide) h

theorem run_number (n : Num) (h : Ends cs) :
    run F .idle (n.chars ++ cs) =
      (n.reread F).bind fun m => (run F .idle cs).map (.num m :: ·) := by
  obtain ⟨c, rest, hchars, hc, hrest⟩ := isNumberText_cons (isNumberText_chars n)
  have hread := readNumber_chars F n
  rw [hchars] at hread ⊢
  rw [List.cons_append, run_cons_silent F (t := .num [c]) (by simp [step, stepIdle_number hc]),
    run_append F (T := .num) (fun hd => by simp [step, hd]) _ _ _ hrest, run_num_ends F _ h]
  simp [hread]

theorem run_wordToken (w : Word) (h : Ends cs) :
    run F .idle (w.chars ++ cs) = (run F .idle cs).map (.word w :: ·) := by
  have word : ∀ (c : Char) (ds : List Char), stepIdle c = some (.word [c], []) →
      (∀ d ∈ ds, d.isLower = true) → readWord (c :: ds) = some w →
      run F .idle (c :: ds ++ cs) = (run F .idle cs).map (.word w :: ·) := by
    intro c ds hc hds hw
    rw [List.cons_append, run_cons_silent F (t := .word [c]) (by simp [step, hc]),
      run_append F (T := .word) (fun hd => by simp [step, hd]) _ _ _ hds, run_word_ends F _ h]
    simp [hw]
  cases w with
  | null => exact word 'n' ['u', 'l', 'l'] rfl (List.all_eq_true.mp rfl) (by decide)
  | true => exact word 't' ['r', 'u', 'e'] rfl (List.all_eq_true.mp rfl) (by decide)
  | false => exact word 'f' ['a', 'l', 's', 'e'] rfl (List.all_eq_true.mp rfl) (by decide)

end Scan

/-- The text of the token goes on until some other character ends it. -/
def Token.solid : Token → Bool
  | .num _ => true
  | .word _ => true
  | _ => false

theorem Token.ends_chars {t : Token} (h : t.solid = false) (cs : List Char) :
    Scan.Ends (t.chars ++ cs) := by
  intro c rest hc
  cases t with
  | num | word => exact absurd h (by simp [solid])
  | str | openBrace | closeBrace | openBracket | closeBracket | colon | comma => cases hc; decide

/-- Scanning takes back the text of a token, where the text after it does not run into it. -/
theorem Scan.run_token (t : Token) (h : t.solid = true → Ends cs) :
    Scan.idle.run F (t.chars ++ cs) =
      (t.reread F).bind fun u => (Scan.idle.run F cs).map (u :: ·) := by
  have sign : ∀ (c : Char) (u : Token), stepIdle c = some (.idle, [u]) →
      Scan.idle.run F (c :: cs) = (Scan.idle.run F cs).map (u :: ·) := by
    intro c u hc
    rw [Scan.run, step, hc]
    rfl
  cases t with
  | num n => rw [Token.chars, run_number F n (h rfl)]; simp [Token.reread, Option.bind_map]
  | word w => exact run_wordToken F w (h rfl)
  | str s =>
    rw [Token.chars, List.cons_append, List.append_assoc,
      run_cons_silent F (t := .str []) (by simp [step, stepIdle]), List.singleton_append,
      run_escape]
    simp [Token.reread]
  | openBrace | closeBrace | openBracket | closeBracket | colon | comma => exact sign _ _ rfl

/-- No two solid tokens stand together. -/
def Spaced (ts : List Token) : Prop := ts.IsChain fun a b => a.solid = true → b.solid = false

theorem Scan.run_tokens {ts : List Token} (h : Spaced ts) :
    Scan.idle.run F (ts.flatMap Token.chars) = ts.mapM (Token.reread F) := by
  induction ts with
  | nil => rfl
  | cons t ts ih =>
    have hts : Spaced ts := List.IsChain.tail h
    have hends : t.solid = true → Ends (ts.flatMap Token.chars) := by
      intro ht
      cases ts with
      | nil => intro c rest hc; cases hc
      | cons u us =>
        exact Token.ends_chars ((List.isChain_cons_cons.mp h).1 ht) _
    rw [List.flatMap_cons, Scan.run_token F t hends, ih hts, List.mapM_cons]
    cases t.reread F <;> cases ts.mapM (Token.reread F) <;> rfl

/-! ## The tokens of a document -/

namespace Json

/-- The list is empty or starts with a token that is not solid. -/
def Loose (ts : List Token) : Prop := ∀ t ∈ ts.head?, t.solid = false

variable {ts : List Token}

theorem spaced_cons_of_not_solid {t : Token} (ht : t.solid = false) (h : Spaced ts) :
    Spaced (t :: ts) :=
  List.isChain_cons.mpr ⟨fun _ _ hs => by rw [ht] at hs; exact absurd hs (by simp), h⟩

theorem spaced_cons_of_loose {t : Token} (hl : Loose ts) (h : Spaced ts) : Spaced (t :: ts) :=
  List.isChain_cons.mpr ⟨fun u hu _ => hl u hu, h⟩

theorem loose_tokensItems (xs : List Json) (ts : List Token) :
    Loose (tokensItems true xs ++ ts) := by
  cases xs <;> simp [tokensItems, Loose, Token.solid]

theorem loose_tokensMembers (fs : Members) (ts : List Token) :
    Loose (tokensMembers true fs ++ ts) := by
  cases fs <;> simp [tokensMembers, Loose, Token.solid]

mutual

theorem spaced_tokens : ∀ (j : Json) (ts : List Token), Loose ts → Spaced ts →
    Spaced (j.tokens ++ ts)
  | .null, _, hl, h => spaced_cons_of_loose hl h
  | .bool _, _, hl, h => spaced_cons_of_loose hl h
  | .num _, _, hl, h => spaced_cons_of_loose hl h
  | .str _, _, hl, h => spaced_cons_of_loose hl h
  | .arr xs, ts, _, h => spaced_cons_of_not_solid rfl (spaced_tokensItems false xs ts h)
  | .obj fs, ts, _, h => spaced_cons_of_not_solid rfl (spaced_tokensMembers false fs ts h)

theorem spaced_tokensItems : ∀ (sep : Bool) (xs : List Json) (ts : List Token), Spaced ts →
    Spaced (tokensItems sep xs ++ ts)
  | _, [], _, h => spaced_cons_of_not_solid rfl h
  | sep, x :: xs, ts, h => by
    have hx : Spaced (x.tokens ++ (tokensItems true xs ++ ts)) :=
      spaced_tokens x _ (loose_tokensItems xs ts) (spaced_tokensItems true xs ts h)
    cases sep with
    | false => simpa [tokensItems] using hx
    | true => simpa [tokensItems] using spaced_cons_of_not_solid (t := .comma) rfl hx

theorem spaced_tokensMembers : ∀ (sep : Bool) (fs : Members) (ts : List Token),
    Spaced ts → Spaced (tokensMembers sep fs ++ ts)
  | _, [], _, h => spaced_cons_of_not_solid rfl h
  | sep, (k, x) :: fs, ts, h => by
    have hx : Spaced (x.tokens ++ (tokensMembers true fs ++ ts)) :=
      spaced_tokens x _ (loose_tokensMembers fs ts) (spaced_tokensMembers true fs ts h)
    have hk : Spaced (.str k :: .colon :: (x.tokens ++ (tokensMembers true fs ++ ts))) :=
      spaced_cons_of_not_solid rfl (spaced_cons_of_not_solid rfl hx)
    cases sep with
    | false => simpa [tokensMembers] using hk
    | true => simpa [tokensMembers] using spaced_cons_of_not_solid (t := .comma) rfl hk

end

mutual

theorem mapM_tokens : ∀ j : Json, j.tokens.mapM (Token.reread F) = (j.reread F).map tokens
  | .null => rfl
  | .bool _ => rfl
  | .num n => by cases h : n.reread F <;> simp [tokens, reread, Token.reread, h]
  | .str _ => rfl
  | .arr xs => by
    rw [tokens, List.mapM_cons, mapM_tokensItems false xs, reread]
    cases rereadItems F xs <;> simp [Token.reread, tokens]
  | .obj fs => by
    rw [tokens, List.mapM_cons, mapM_tokensMembers false fs, reread]
    cases rereadMembers F fs <;> simp [Token.reread, tokens]

theorem mapM_tokensItems : ∀ (sep : Bool) (xs : List Json),
    (tokensItems sep xs).mapM (Token.reread F) = (rereadItems F xs).map (tokensItems sep)
  | _, [] => rfl
  | sep, x :: xs => by
    rw [tokensItems, List.mapM_append, List.mapM_append, mapM_tokens x, mapM_tokensItems true xs,
      rereadItems]
    cases sep <;> cases reread F x <;> cases rereadItems F xs <;> simp [Token.reread, tokensItems]

theorem mapM_tokensMembers : ∀ (sep : Bool) (fs : Members),
    (tokensMembers sep fs).mapM (Token.reread F) = (rereadMembers F fs).map (tokensMembers sep)
  | _, [] => rfl
  | sep, (k, x) :: fs => by
    rw [tokensMembers, List.mapM_append, List.mapM_cons, List.mapM_cons, List.mapM_append,
      mapM_tokens x, mapM_tokensMembers true fs, rereadMembers]
    cases sep <;> cases reread F x <;> cases rereadMembers F fs <;>
      simp [Token.reread, tokensMembers]

end

/-- Scanning the compact text of a document gives the tokens of the document read again. -/
theorem scan_print (j : Json) : Scan.idle.run F j.print = (j.reread F).map tokens := by
  have h : Spaced j.tokens := by simpa using spaced_tokens j [] (by simp [Loose]) List.IsChain.nil
  rw [print, Scan.run_tokens F h, mapM_tokens]

end Json

/-! ## Reading tokens -/

namespace Expect

open Json List Option

/-- The first token of an item is not a closing bracket, so after an opening bracket it is read as
    a value. -/
theorem run_itemOrEnd (stack : List Open) (x : Json) (ts : List Token) :
    run (.itemOrEnd stack) (x.tokens ++ ts) = run (.value (.arr [] :: stack)) (x.tokens ++ ts) := by
  cases x <;> simp [tokens, run, step]

mutual

/-- Reading takes back the tokens of a value, if it is not nested too deep. -/
theorem run_value : ∀ (j : Json) (stack : List Open) (ts : List Token),
    run (.value stack) (j.tokens ++ ts) =
      if j.depth = 0 ∨ stack.length + j.depth ≤ maxNesting then run (.after j stack) ts else none
  | .null, _, _ => rfl
  | .bool b, _, _ => by cases b <;> rfl
  | .num _, _, _ => rfl
  | .str _, _, _ => rfl
  | .arr xs, stack, ts => by
    rw [tokens, cons_append, run, step, stepValue, depth]
    by_cases h : stack.length < maxNesting
    · rw [if_pos h, bind_some, run_items xs stack ts h]
      simp [Nat.add_assoc, Nat.add_comm 1]
    · rw [if_neg h, if_neg (by omega)]
      rfl
  | .obj fs, stack, ts => by
    rw [tokens, cons_append, run, step, stepValue, depth]
    by_cases h : stack.length < maxNesting
    · rw [if_pos h, bind_some, run_members fs stack ts h]
      simp [Nat.add_assoc, Nat.add_comm 1]
    · rw [if_neg h, if_neg (by omega)]
      rfl

theorem run_items : ∀ (xs : List Json) (stack : List Open) (ts : List Token),
    stack.length < maxNesting →
    run (.itemOrEnd stack) (tokensItems false xs ++ ts) =
      if stack.length + 1 + depthItems xs ≤ maxNesting then run (.after (.arr xs) stack) ts
      else none
  | [], stack, ts, h => by
    rw [depthItems, if_pos (by omega)]
    rfl
  | x :: xs, stack, ts, h => by
    have hx := run_value x (.arr [] :: stack) (tokensItems true xs ++ ts)
    rw [tokensItems, depthItems]
    simp only [Bool.false_eq_true, if_false, nil_append, append_assoc]
    rw [run_itemOrEnd, hx, run_moreItems xs [] x stack ts h, length_cons]
    split_ifs <;> first | rfl | omega

theorem run_moreItems : ∀ (xs done : List Json) (y : Json) (stack : List Open) (ts : List Token),
    stack.length < maxNesting →
    run (.after y (.arr done :: stack)) (tokensItems true xs ++ ts) =
      if stack.length + 1 + depthItems xs ≤ maxNesting then
        run (.after (.arr (done ++ y :: xs)) stack) ts
      else none
  | [], done, y, stack, ts, h => by
    rw [depthItems, if_pos (by omega)]
    rfl
  | x :: xs, done, y, stack, ts, h => by
    have hx := run_value x (.arr (done ++ [y]) :: stack) (tokensItems true xs ++ ts)
    rw [tokensItems, depthItems]
    simp only [if_true, cons_append, nil_append, append_assoc]
    rw [run, step, stepAfter, bind_some, hx, run_moreItems xs (done ++ [y]) x stack ts h,
      length_cons, append_assoc, singleton_append]
    split_ifs <;> first | rfl | omega

theorem run_members : ∀ (fs : Members) (stack : List Open) (ts : List Token),
    stack.length < maxNesting →
    run (.keyOrEnd stack) (tokensMembers false fs ++ ts) =
      if stack.length + 1 + depthMembers fs ≤ maxNesting then
        run (.after (.obj fs) stack) ts
      else none
  | [], stack, ts, h => by
    rw [depthMembers, if_pos (by omega)]
    rfl
  | (k, x) :: fs, stack, ts, h => by
    have hx := run_value x (.obj [] k :: stack) (tokensMembers true fs ++ ts)
    rw [tokensMembers, depthMembers]
    simp only [Bool.false_eq_true, if_false, nil_append, cons_append, append_assoc]
    rw [run, step, bind_some, run, step, bind_some, hx,
      run_moreMembers fs [] k x stack ts h, length_cons]
    split_ifs <;> first | rfl | omega

theorem run_moreMembers : ∀ (fs done : Members) (l : String) (y : Json)
    (stack : List Open) (ts : List Token), stack.length < maxNesting →
    run (.after y (.obj done l :: stack)) (tokensMembers true fs ++ ts) =
      if stack.length + 1 + depthMembers fs ≤ maxNesting then
        run (.after (.obj (done ++ (l, y) :: fs)) stack) ts
      else none
  | [], done, l, y, stack, ts, h => by
    rw [depthMembers, if_pos (by omega)]
    rfl
  | (k, x) :: fs, done, l, y, stack, ts, h => by
    have hx := run_value x (.obj (done ++ [(l, y)]) k :: stack) (tokensMembers true fs ++ ts)
    rw [tokensMembers, depthMembers]
    simp only [if_true, cons_append, nil_append, append_assoc]
    rw [run, step, stepAfter, bind_some, run, step, bind_some, run, step,
      bind_some, hx, run_moreMembers fs (done ++ [(l, y)]) k x stack ts h, length_cons,
      append_assoc, singleton_append]
    split_ifs <;> first | rfl | omega

end

end Expect

/-! ## The round trip -/

namespace Json

mutual

theorem depth_reread : ∀ {j k : Json}, j.reread F = some k → k.depth = j.depth
  | .null, k, h => by cases h; rfl
  | .bool _, k, h => by cases h; rfl
  | .num n, k, h => by
    obtain ⟨m, -, rfl⟩ := Option.map_eq_some_iff.mp h
    rfl
  | .str _, k, h => by cases h; rfl
  | .arr xs, k, h => by
    obtain ⟨ys, hys, rfl⟩ := Option.map_eq_some_iff.mp h
    rw [depth, depth, depth_rereadItems hys]
  | .obj fs, k, h => by
    obtain ⟨gs, hgs, rfl⟩ := Option.map_eq_some_iff.mp h
    rw [depth, depth, depth_rereadMembers hgs]

theorem depth_rereadItems : ∀ {xs ys : List Json}, rereadItems F xs = some ys →
    depthItems ys = depthItems xs
  | [], ys, h => by cases h; rfl
  | x :: xs, ys, h => by
    obtain ⟨y, hy, h⟩ := Option.bind_eq_some_iff.mp h
    obtain ⟨zs, hzs, rfl⟩ := Option.map_eq_some_iff.mp h
    rw [depthItems, depthItems, depth_reread hy, depth_rereadItems hzs]

theorem depth_rereadMembers : ∀ {fs gs : Members}, rereadMembers F fs = some gs →
    depthMembers gs = depthMembers fs
  | [], gs, h => by cases h; rfl
  | (k, x) :: fs, gs, h => by
    obtain ⟨y, hy, h⟩ := Option.bind_eq_some_iff.mp h
    obtain ⟨hs, hhs, rfl⟩ := Option.map_eq_some_iff.mp h
    rw [depthMembers, depthMembers, depth_reread hy, depth_rereadMembers hhs]

end

/-- **Reading back a printed document.** The compact text of a document is refused if it is nested
    past `maxNesting`, and read as the document with its floats read again otherwise. -/
theorem parse_print (j : Json) :
    parse F j.print = if j.depth ≤ maxNesting then j.reread F else none := by
  have hrun : ∀ k : Json, (Expect.value []).run k.tokens =
      if k.depth ≤ maxNesting then some k else none := by
    intro k
    have h := Expect.run_value k [] []
    rw [List.append_nil] at h
    rw [h, List.length_nil, Nat.zero_add]
    by_cases hk : k.depth ≤ maxNesting
    · rw [if_pos hk, if_pos (.inr hk)]; rfl
    · have h0 : k.depth ≠ 0 := by omega
      rw [if_neg hk, if_neg (by omega)]
  rw [parse, scan_print]
  cases h : j.reread F with
  | none => simp
  | some k => rw [Option.map_some, Option.bind_some, hrun k, depth_reread F h]

/-- The same for the bytes of the text. -/
theorem fromSlice_toVec (j : Json) :
    fromSlice F j.toVec = if j.depth ≤ maxNesting then j.reread F else none := by
  rw [fromSlice, toVec, decodeUtf8_encodeUtf8, Option.bind_some, parse_print]

/-- A document that is not nested too deep and whose floats are stable reads back as itself. -/
theorem fromSlice_toVec_of_stable {j : Json} (hd : j.depth ≤ maxNesting) (hs : j.Stable F) :
    fromSlice F j.toVec = some j := by
  rw [fromSlice_toVec, if_pos hd]
  exact hs

end Json

/-! ## A reader that changes nothing -/

/-- Keeps the text of a float as it is written. -/
def exactFloats : FloatReader where
  read cs := if h : isFloatText (String.ofList cs).toList = true then some ⟨.ofList cs, h⟩ else none

theorem exactFloats_read (t : FloatText) : exactFloats.read t.text.toList = some t := by
  have ht : String.ofList t.text.toList = t.text := String.ofList_toList
  have hv : isFloatText (String.ofList t.text.toList).toList = true := by rw [ht]; exact t.valid
  refine (dif_pos hv).trans ?_
  cases t
  simp

namespace Json

mutual

theorem reread_exact : ∀ j : Json, j.reread exactFloats = some j
  | .null => rfl
  | .bool _ => rfl
  | .str _ => rfl
  | .num (.nat _) => rfl
  | .num (.neg _) => rfl
  | .num (.float t) => by rw [reread, Num.reread, exactFloats_read]; rfl
  | .arr xs => by rw [reread, rereadItems_exact xs]; rfl
  | .obj fs => by rw [reread, rereadMembers_exact fs]; rfl

theorem rereadItems_exact : ∀ xs : List Json, rereadItems exactFloats xs = some xs
  | [] => rfl
  | x :: xs => by rw [rereadItems, reread_exact x, rereadItems_exact xs]; rfl

theorem rereadMembers_exact : ∀ fs : Members, rereadMembers exactFloats fs = some fs
  | [] => rfl
  | (_, x) :: fs => by rw [rereadMembers, reread_exact x, rereadMembers_exact fs]; rfl

end

theorem fromSlice_exact {j : Json} (hd : j.depth ≤ maxNesting) :
    fromSlice exactFloats j.toVec = some j :=
  fromSlice_toVec_of_stable exactFloats hd (reread_exact j)

end Json

end Wokcore.Lib
