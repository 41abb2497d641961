import Wokcore.Lib.Json.Tree

/-!
# JSON texts

Both directions between documents and texts go through a list of tokens.

* Printing is compact: `Json.tokens` lists the tokens of a document, and the printed text is their
  texts with nothing in between.
* Reading is a scanner followed by a pushdown reader, each a step function folded over its input.
  The scanner (`Scan.step`) takes a character at a time and gives out the tokens that end there; the
  reader (`Expect.step`) takes a token at a time and keeps the open arrays and objects on a stack,
  which may not grow past `maxNesting`.

How a number that is no 64-bit integer becomes a binary float is left open: a `FloatReader` takes
the text of the number to the text the float prints as, or to `none` when it is out of range.
-/

set_option autoImplicit false

namespace Wokcore.Lib

abbrev Bytes := List UInt8

/-! ## UTF-8 -/

def encodeUtf8 (cs : List Char) : Bytes := cs.flatMap String.utf8EncodeChar

def decodeUtf8 (bytes : Bytes) : Option (List Char) :=
  bytes.toByteArray.utf8Decode?.map Array.toList

theorem decodeUtf8_encodeUtf8 (cs : List Char) : decodeUtf8 (encodeUtf8 cs) = some cs := by
  have h : (encodeUtf8 cs).toByteArray = cs.utf8Encode := rfl
  rw [decodeUtf8, h, List.utf8Decode?_utf8Encode]
  simp

theorem length_encodeUtf8 (cs : List Char) : (encodeUtf8 cs).length = String.utf8Len cs := by
  rw [← String.utf8ByteSize_ofList, String.utf8ByteSize, String.toByteArray_ofList, List.utf8Encode,
    List.size_toByteArray, encodeUtf8]

theorem eq_encodeUtf8 {bytes : Bytes} {text : List Char} (h : decodeUtf8 bytes = some text) :
    bytes = encodeUtf8 text := by
  obtain ⟨read, hread, -⟩ := Option.map_eq_some_iff.mp h
  obtain ⟨cs, hcs⟩ := ByteArray.isSome_utf8Decode?_iff.mp (Option.isSome_of_eq_some hread)
  have hbytes : bytes = encodeUtf8 cs := by
    have := congrArg (·.data.toList) hcs
    simpa [encodeUtf8, List.utf8Encode] using this
  rw [hbytes, decodeUtf8_encodeUtf8] at h
  cases h
  exact hbytes

/-! ## Tokens -/

/-- The three literal names. -/
inductive Word where
  | null
  | true
  | false
deriving DecidableEq

inductive Token where
  | openBrace
  | closeBrace
  | openBracket
  | closeBracket
  | colon
  | comma
  | str (s : String)
  | num (n : Num)
  | word (w : Word)

def Word.chars : Word → List Char
  | .null => ['n', 'u', 'l', 'l']
  | .true => ['t', 'r', 'u', 'e']
  | .false => ['f', 'a', 'l', 's', 'e']

def Word.json : Word → Json
  | .null => .null
  | .true => .bool Bool.true
  | .false => .bool Bool.false

/-- The digit of a number below sixteen, in lower case. -/
def hexDigit (n : Nat) : Char := if n < 10 then Char.ofNat (48 + n) else Char.ofNat (87 + n)

/-- A character of a string as it is printed. -/
def escapeChar (c : Char) : List Char :=
  if c = '"' then ['\\', '"']
  else if c = '\\' then ['\\', '\\']
  else if c = '\x08' then ['\\', 'b']
  else if c = '\x0c' then ['\\', 'f']
  else if c = '\n' then ['\\', 'n']
  else if c = '\r' then ['\\', 'r']
  else if c = '\t' then ['\\', 't']
  else if c.toNat < 32 then ['\\', 'u', '0', '0', hexDigit (c.toNat / 16), hexDigit (c.toNat % 16)]
  else [c]

def escape (cs : List Char) : List Char := cs.flatMap escapeChar

def Num.chars : Num → List Char
  | .nat n => Nat.toDigits 10 n.toNat
  | .neg n => '-' :: Nat.toDigits 10 (n.val + 1)
  | .float t => t.text.toList

def Token.chars : Token → List Char
  | .openBrace => ['\x7b']
  | .closeBrace => ['\x7d']
  | .openBracket => ['[']
  | .closeBracket => [']']
  | .colon => [':']
  | .comma => [',']
  | .str s => '"' :: (escape s.toList ++ ['"'])
  | .num n => n.chars
  | .word w => w.chars

/-! ## Printing -/

namespace Json

mutual

/-- The tokens of a document. -/
def tokens : Json → List Token
  | .null => [.word .null]
  | .bool b => [.word (if b then .true else .false)]
  | .num n => [.num n]
  | .str s => [.str s]
  | .arr xs => .openBracket :: tokensItems false xs
  | .obj fs => .openBrace :: tokensMembers false fs

/-- The tokens of the rest of an array, its bracket included; `sep` asks for a comma first. -/
def tokensItems : Bool → List Json → List Token
  | _, [] => [.closeBracket]
  | sep, x :: xs => (if sep then [.comma] else []) ++ (tokens x ++ tokensItems true xs)

/-- The tokens of the rest of an object, its brace included. -/
def tokensMembers : Bool → Members → List Token
  | _, [] => [.closeBrace]
  | sep, (k, x) :: fs =>
    (if sep then [.comma] else []) ++ .str k :: .colon :: (tokens x ++ tokensMembers true fs)

end

/-- The compact text of a document. -/
def print (j : Json) : List Char := j.tokens.flatMap Token.chars

/-- The bytes of the compact text. -/
def toVec (j : Json) : Bytes := encodeUtf8 j.print

end Json

/-! ## Scanning -/

/-- How the text of a number outside the 64-bit integers is read as a binary float. -/
structure FloatReader where
  read : List Char → Option FloatText

def readNumber (F : FloatReader) (cs : List Char) : Option Num :=
  if isNumberText cs then
    match splitNumber cs with
    | (negative, digits, []) =>
      let n := Nat.ofDigitChars 10 digits 0
      if negative then
        -- `-0` is a float
        if h : 0 < n ∧ n ≤ 2 ^ 63 then some (.neg ⟨n - 1, by omega⟩)
        else (F.read cs).map .float
      else if n < 2 ^ 64 then some (.nat (.ofNat n))
      else (F.read cs).map .float
    | _ => (F.read cs).map .float
  else none

def readWord (cs : List Char) : Option Word :=
  if cs = Word.null.chars then some .null
  else if cs = Word.true.chars then some .true
  else if cs = Word.false.chars then some .false
  else none

def hexValue (c : Char) : Option Nat :=
  let n := c.toNat
  if 48 ≤ n ∧ n ≤ 57 then some (n - 48)
  else if 65 ≤ n ∧ n ≤ 70 then some (n - 55)
  else if 97 ≤ n ∧ n ≤ 102 then some (n - 87)
  else none

/-- The character a one-letter escape stands for. -/
def unescape (c : Char) : Option Char :=
  if c = '"' then some '"'
  else if c = '\\' then some '\\'
  else if c = '/' then some '/'
  else if c = 'b' then some '\x08'
  else if c = 'f' then some '\x0c'
  else if c = 'n' then some '\n'
  else if c = 'r' then some '\r'
  else if c = 't' then some '\t'
  else none

def isNumberChar (c : Char) : Bool :=
  c.isDigit || c == '-' || c == '+' || c == '.' || c == 'e' || c == 'E'

/-- Where the scanner is. The characters of an unfinished token are kept last first. -/
inductive Scan where
  | idle
  | str (acc : List Char)
  /-- After a backslash. -/
  | esc (acc : List Char)
  /-- Inside a `\u` escape of which `count` digits are read; `high` is the first half of a pair. -/
  | hex (acc : List Char) (high : Option Nat) (count value : Nat)
  /-- After the first half of a surrogate pair, which needs a second `\u` escape. -/
  | low (acc : List Char) (high : Nat)
  | lowEsc (acc : List Char) (high : Nat)
  | num (acc : List Char)
  | word (acc : List Char)

namespace Scan

def stepIdle (c : Char) : Option (Scan × List Token) :=
  if c = ' ' ∨ c = '\n' ∨ c = '\r' ∨ c = '\t' then some (.idle, [])
  else if c = '\x7b' then some (.idle, [.openBrace])
  else if c = '\x7d' then some (.idle, [.closeBrace])
  else if c = '[' then some (.idle, [.openBracket])
  else if c = ']' then some (.idle, [.closeBracket])
  else if c = ':' then some (.idle, [.colon])
  else if c = ',' then some (.idle, [.comma])
  else if c = '"' then some (.str [], [])
  else if c = '-' ∨ c.isDigit then some (.num [c], [])
  else if c.isLower then some (.word [c], [])
  else none

/-- The end of a `\u` escape with code `v`. -/
def endHex (acc : List Char) (high : Option Nat) (v : Nat) : Option Scan :=
  match high with
  | none =>
    if 0xD800 ≤ v ∧ v ≤ 0xDBFF then some (.low acc v)
    else if 0xDC00 ≤ v ∧ v ≤ 0xDFFF then none
    else some (.str (Char.ofNat v :: acc))
  | some h =>
    if 0xDC00 ≤ v ∧ v ≤ 0xDFFF then
      some (.str (Char.ofNat ((h - 0xD800) * 1024 + (v - 0xDC00) + 0x10000) :: acc))
    else none

def step (F : FloatReader) (s : Scan) (c : Char) : Option (Scan × List Token) :=
  match s with
  | .idle => stepIdle c
  | .str acc =>
    if c = '"' then some (.idle, [.str (.ofList acc.reverse)])
    else if c = '\\' then some (.esc acc, [])
    else if c.toNat < 32 then none
    else some (.str (c :: acc), [])
  | .esc acc =>
    if c = 'u' then some (.hex acc none 0 0, [])
    else (unescape c).map fun d => (.str (d :: acc), [])
  | .hex acc high count value =>
    (hexValue c).bind fun d =>
      if count < 3 then some (.hex acc high (count + 1) (value * 16 + d), [])
      else (endHex acc high (value * 16 + d)).map (·, [])
  | .low acc high => if c = '\\' then some (.lowEsc acc high, []) else none
  | .lowEsc acc high => if c = 'u' then some (.hex acc (some high) 0 0, []) else none
  | .num acc =>
    if isNumberChar c then some (.num (c :: acc), [])
    else (readNumber F acc.reverse).bind fun n => (stepIdle c).map fun r => (r.1, .num n :: r.2)
  | .word acc =>
    if c.isLower then some (.word (c :: acc), [])
    else (readWord acc.reverse).bind fun w => (stepIdle c).map fun r => (r.1, .word w :: r.2)

/-- The tokens given out at the end of the text. -/
def finish (F : FloatReader) : Scan → Option (List Token)
  | .idle => some []
  | .num acc => (readNumber F acc.reverse).map ([.num ·])
  | .word acc => (readWord acc.reverse).map ([.word ·])
  | _ => none

/-- The tokens of a text, read from a state of the scanner. -/
def run (F : FloatReader) : Scan → List Char → Option (List Token)
  | s, [] => s.finish F
  | s, c :: cs => (s.step F c).bind fun r => (run F r.1 cs).map (r.2 ++ ·)

end Scan

/-! ## Reading -/

/-- An open array or object: what it holds so far. -/
inductive Open where
  | arr (items : List Json)
  | obj (members : Members) (key : String)

/-- The deepest nesting that is read. -/
def maxNesting : Nat := 127

/-- What the reader expects next, inside the open arrays and objects of its stack. -/
inductive Expect where
  | value (stack : List Open)
  /-- After an opening bracket. -/
  | itemOrEnd (stack : List Open)
  /-- After an opening brace. -/
  | keyOrEnd (stack : List Open)
  | key (members : Members) (stack : List Open)
  | colon (members : Members) (key : String) (stack : List Open)
  /-- A value is complete. -/
  | after (j : Json) (stack : List Open)

namespace Expect

def stepValue (stack : List Open) : Token → Option Expect
  | .openBracket => if stack.length < maxNesting then some (.itemOrEnd stack) else none
  | .openBrace => if stack.length < maxNesting then some (.keyOrEnd stack) else none
  | .str s => some (.after (.str s) stack)
  | .num n => some (.after (.num n) stack)
  | .word w => some (.after w.json stack)
  | _ => none

def stepAfter (j : Json) (stack : List Open) (t : Token) : Option Expect :=
  match stack, t with
  | .arr xs :: stack, .comma => some (.value (.arr (xs ++ [j]) :: stack))
  | .arr xs :: stack, .closeBracket => some (.after (.arr (xs ++ [j])) stack)
  | .obj fs k :: stack, .comma => some (.key (fs ++ [(k, j)]) stack)
  | .obj fs k :: stack, .closeBrace => some (.after (.obj (fs ++ [(k, j)])) stack)
  | _, _ => none

def step (e : Expect) (t : Token) : Option Expect :=
  match e with
  | .value stack => stepValue stack t
  | .itemOrEnd stack =>
    match t with
    | .closeBracket => some (.after (.arr []) stack)
    | t => stepValue (.arr [] :: stack) t
  | .keyOrEnd stack =>
    match t with
    | .closeBrace => some (.after (.obj []) stack)
    | .str k => some (.colon [] k stack)
    | _ => none
  | .key fs stack =>
    match t with
    | .str k => some (.colon fs k stack)
    | _ => none
  | .colon fs k stack =>
    match t with
    | .colon => some (.value (.obj fs k :: stack))
    | _ => none
  | .after j stack => stepAfter j stack t

def finish : Expect → Option Json
  | .after j [] => some j
  | _ => none

/-- The document the rest of the tokens completes. -/
def run : Expect → List Token → Option Json
  | e, [] => e.finish
  | e, t :: ts => (e.step t).bind fun e => run e ts

end Expect

/-- The document a text denotes. -/
def parse (F : FloatReader) (cs : List Char) : Option Json :=
  (Scan.idle.run F cs).bind (Expect.value []).run

/-- The document the bytes denote. -/
def fromSlice (F : FloatReader) (bytes : Bytes) : Option Json := (decodeUtf8 bytes).bind (parse F)

end Wokcore.Lib
