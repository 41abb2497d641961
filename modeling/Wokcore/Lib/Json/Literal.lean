import Wokcore.Lib.Json.Text

/-!
# String literals as they are written

A reader that lends its strings out of the text has to know how they are written: only a literal
without an escape stands in the text as the string it denotes. `written` reads a document and leaves
every string as the text between its quotation marks, and `literal` is the string such a text
denotes.
-/

set_option autoImplicit false

namespace Wokcore.Lib

/-- The string that the rest of a literal completes. -/
def readLiteral : Scan → List Char → Option String
  | .str acc, [] => some (.ofList acc.reverse)
  | _, [] => none
  | s, c :: cs =>
    match s.step ⟨fun _ => none⟩ c with
    | some (next, []) => readLiteral next cs
    | _ => none

/-- The string that the text between two quotation marks denotes. -/
def literal (raw : String) : Option String := readLiteral (.str []) raw.toList

/-- A token with its string as the text it was read from. -/
def Token.asWritten (raw : List Char) : Token → Token
  | .str _ => .str (.ofList raw.reverse)
  | t => t

/-- The scanner, with the text of the literal it is in, last character first. -/
def Scan.runWritten (F : FloatReader) : Scan → List Char → List Char → Option (List Token)
  | s, _, [] => s.finish F
  | s, raw, c :: cs =>
    (s.step F c).bind fun r =>
      let raw' := match s with
        | .idle | .num _ | .word _ => []
        | _ => c :: raw
      (runWritten F r.1 raw' cs).map (r.2.map (Token.asWritten raw) ++ ·)

/-- The document the bytes denote, with its strings as they are written. -/
def written (F : FloatReader) (bytes : Bytes) : Option Json :=
  (decodeUtf8 bytes).bind fun cs => (Scan.idle.runWritten F [] cs).bind (Expect.value []).run

end Wokcore.Lib
