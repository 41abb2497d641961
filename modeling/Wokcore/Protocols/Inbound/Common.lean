import Wokcore.Protocols.Canonical
import Wokcore.Lib.Json.Text
import Wokcore.Lib.Json.Record

/-!
# Helpers of the client decoders

`inbound/chat.rs` and `inbound/responses.rs` each carry their own copy of these functions, word for
word the same, so there is one of each here. `Parsers` are the parsers of other crates that the
decoders call: how `serde_json` reads a float, and `Url::parse`.
-/

set_option autoImplicit false

namespace Wokcore.Protocols

open Lib Wokcore.Core

/-- The parsers from outside the repository. -/
structure Parsers where
  floats : FloatReader
  url : UrlLibrary

namespace Inbound

/-- The input items of a part of a request, with what else is kept of it. -/
abbrev Items := Result (List InputItem × List Value)

abbrev Extended := Result (List InputItem × Extensions)

/-- `serde_json::from_slice`, with any error mapped to an invalid request. -/
def readBody (P : Parsers) (json : Bytes) : Result Json := orInvalid (fromSlice P.floats json)

def validateNonEmpty (value : String) : Result Unit := requireThat (!value.isEmpty)

/-! ## Base64 -/

/-- The six bits of a character of the standard alphabet. -/
def base64Value (c : Char) : Option Nat :=
  let n := c.toNat
  if 65 ≤ n ∧ n ≤ 90 then some (n - 65)
  else if 97 ≤ n ∧ n ≤ 122 then some (n - 71)
  else if 48 ≤ n ∧ n ≤ 57 then some (n + 4)
  else if c = '+' then some 62
  else if c = '/' then some 63
  else none

/-- The last four characters of a text, which may be padded; bits left over have to be zero. -/
def decodeBase64End (a b c d : Char) : Option (List Nat) :=
  (base64Value a).bind fun x => (base64Value b).bind fun y =>
    if c = '=' then
      if d = '=' ∧ y % 16 = 0 then some [x * 4 + y / 16] else none
    else (base64Value c).bind fun z =>
      if d = '=' then
        if z % 4 = 0 then some [x * 4 + y / 16, y % 16 * 16 + z / 4] else none
      else (base64Value d).map fun w => [x * 4 + y / 16, y % 16 * 16 + z / 4, z % 4 * 64 + w]

/-- `STANDARD.decode`: padded, with canonical padding. -/
def decodeBase64 : List Char → Option (List Nat)
  | [] => some []
  | [a, b, c, d] => decodeBase64End a b c d
  | a :: b :: c :: d :: rest =>
    (base64Value a).bind fun x => (base64Value b).bind fun y => (base64Value c).bind fun z =>
      (base64Value d).bind fun w => (decodeBase64 rest).map fun bytes =>
        (x * 4 + y / 16) :: (y % 16 * 16 + z / 4) :: (z % 4 * 64 + w) :: bytes
  | _ => none

/-! ## Image URLs -/

/-- `value.split_once(sep)`. -/
def splitOnce (sep : Char) (cs : List Char) : Option (List Char × List Char) :=
  match cs.dropWhile (· ≠ sep) with
  | [] => none
  | _ :: after => some (cs.takeWhile (· ≠ sep), after)

/-- `value.get(n..)`: what follows the first `n` bytes, if a character ends there. -/
def dropBytes : Nat → List Char → Option (List Char)
  | 0, cs => some cs
  | _ + 1, [] => none
  | n + 1, c :: cs => if c.utf8Size ≤ n + 1 then dropBytes (n + 1 - c.utf8Size) cs else none

def asciiLower (cs : List Char) : String := .ofList (cs.map Char.toLower)

def isImageMime (mime : List Char) : Bool :=
  ["image/png", "image/jpeg", "image/webp", "image/gif"].contains (asciiLower mime)

/-- `validate_data_image_url`. -/
def validateDataImageUrl (value : String) : Bool :=
  match splitOnce ',' value.toList with
  | none => false
  | some (metadata, payload) =>
    match dropBytes 5 metadata with
    | none => false
    | some metadata =>
      match metadata.splitOn ';' with
      | [mime, encoding] =>
        isImageMime mime && asciiLower encoding == "base64" && !payload.isEmpty
          && (decodeBase64 payload).any (!·.isEmpty)
      | _ => false

/-- `decode_image_url`. -/
def decodeImageUrl (P : Parsers) (value : String) : Result Url :=
  match P.url.parse value with
  | none => .error .invalidRequest
  | some url =>
    if url.scheme = "http" ∨ url.scheme = "https" then .ok url
    else if url.scheme = "data" then
      if validateDataImageUrl value then .ok url else .error .invalidRequest
    else .error .invalidRequest

/-- `ImageDetail` on the wire. -/
def readImageDetail : Json → Option ImageDetail :=
  Read.unit [("auto", .auto), ("low", .low), ("high", .high)]

/-! ## Extension keys -/

/-- The first key of the form `base.suffix`, from `suffix` on, that is free. There are only as many
    keys in use as the map has entries, so one more attempt than that is enough. -/
def freeKey (extensions : Extensions) (base : String) : Nat → Nat → String
  | 0, suffix => base ++ "." ++ toString suffix
  | attempts + 1, suffix =>
    let key := base ++ "." ++ toString suffix
    if extensions.contains key then freeKey extensions base attempts (suffix + 1) else key

/-- `insert_extension_without_collision`. -/
def insertExtensionWithoutCollision (extensions : Extensions) (key : String) (value : Value) :
    Extensions :=
  if !extensions.contains key then extensions.insert key value
  else
    let base := key ++ ".nested"
    if !extensions.contains base then extensions.insert base value
    else extensions.insert (freeKey extensions base extensions.entries.length 2) value

end Inbound

end Wokcore.Protocols
