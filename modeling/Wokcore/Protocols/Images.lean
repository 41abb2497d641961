import Wokcore.Lib.Json.Literal
import Wokcore.Protocols.Canonical

/-!
# Image responses

An image response is passed on after `validate_image_response` has read it into structures that
borrow their strings from the body. Only a literal without an escape can be lent, so what is
accepted depends on how a response is written and not only on what it says.

`Denotes` says which value a document written in a certain way has, with its members in any order.
The main result is that a response of a valid value is accepted exactly if no string of an image is
written with an escape.
-/

set_option autoImplicit false

namespace Wokcore.Protocols

open Lib Wokcore.Core

def maxPromptBytes : Nat := 32 * 1024

def maxImages : Nat := 10

def maxImageResponseBytes : Nat := 50 * 1024 * 1024

def maxUrlBytes : Nat := 8 * 1024

/-! ## Reading the body -/

structure BorrowedImageData where
  url : Option String
  b64Json : Option String
  revisedPrompt : Option String

structure BorrowedImageResponse where
  created : Option Nat
  data : List BorrowedImageData

/-- The members of an object under the keys their literals denote. -/
def objectFields : Json → Option (List (String × Json))
  | .obj members => members.mapM fun m => (literal m.1).map (·, m.2)
  | _ => none

/-- The fields a derived visitor takes from a document: of an array by their positions, of an object
    by their keys, none of them twice. -/
def structFields (names : List String) (denyUnknown : Bool) : Json → Option (List (String × Json))
  | .arr items => if items.length ≤ names.length then some (names.zip items) else none
  | j =>
    (objectFields j).bind fun fields =>
      if (denyUnknown = true → ∀ f ∈ fields, f.1 ∈ names) ∧
        ((fields.map Prod.fst).filter (· ∈ names)).Nodup then
        some fields
      else none

/-- `Option<&'a str>`: a literal is lent if it has no escape. -/
def borrowedStr : Option Json → Option (Option String)
  | none | some .null => some none
  | some (.str raw) => if '\\' ∈ raw.toList then none else (literal raw).map some
  | _ => none

/-- `Option<u64>`. -/
def optionalU64 : Option Json → Option (Option Nat)
  | none | some .null => some none
  | some j => j.asU64.map some

def imageDataFields : List String := ["url", "b64_json", "revised_prompt"]

def borrowedImageData (j : Json) : Option BorrowedImageData := do
  let fields ← structFields imageDataFields true j
  return {
    url := ← borrowedStr (fields.lookup "url")
    b64Json := ← borrowedStr (fields.lookup "b64_json")
    revisedPrompt := ← borrowedStr (fields.lookup "revised_prompt") }

def imageResponseFields : List String := ["created", "data"]

def borrowedImageResponse (j : Json) : Option BorrowedImageResponse := do
  let fields ← structFields imageResponseFields false j
  let created ← optionalU64 (fields.lookup "created")
  match fields.lookup "data" with
  | some (.arr items) => return { created, data := ← items.mapM borrowedImageData }
  | _ => none

/-! ## `validate_image_response` -/

variable (value : String) {fields : List (String × Json)} {prompt : String}

def validateString (maximumBytes : Nat) : Result Unit :=
  requireThat (!(value.isEmpty || decide (value.utf8ByteSize > maximumBytes) || hasControl value))

def validateText (maximumBytes : Nat) : Result Unit :=
  requireThat (!(value.isEmpty || decide (value.utf8ByteSize > maximumBytes) ||
    value.toList.contains '\x00'))

def isBase64Char (c : Char) : Bool := c.isAlphanum || c == '+' || c == '/'

/-- The loop of `valid_base64`. -/
def base64Loop (paddingStarted : Bool) (padding : Nat) : List Char → Bool
  | [] => true
  | c :: cs =>
    if c = '=' then if padding + 1 > 2 then false else base64Loop true (padding + 1) cs
    else if paddingStarted || !isBase64Char c then false
    else base64Loop paddingStarted padding cs

def validBase64 : Bool :=
  !(value.isEmpty || decide (value.utf8ByteSize > maxImageResponseBytes) || value.utf8ByteSize % 4
    != 0) && base64Loop false 0 value.toList

def validateImage (image : BorrowedImageData) : Result Unit := do
  match image.url, image.b64Json with
  | some url, none => validateString url maxUrlBytes
  | none, some encoded => requireThat (validBase64 encoded)
  | _, _ => .error .invalidRequest
  match image.revisedPrompt with
  | some prompt => validateText prompt maxPromptBytes
  | none => .ok ()

/-- `validate_image_response`, where `read` is how a body is read before its strings are lent. -/
def validateImageResponse (read : Bytes → Option Json) (body : Bytes) : Result Unit := do
  requireThat (!decide (body.length > maxImageResponseBytes))
  let response ← orInvalid ((read body).bind borrowedImageResponse)
  requireThat (!(response.data.isEmpty || decide (response.data.length > maxImages)))
  response.data.forM validateImage

/-! ## What a response says -/

/-- Characters of the alphabet, then at most two `=`. A response has no room for more than
    `maxImageResponseBytes`. -/
def PaddedBase64 : Prop :=
  value ≠ "" ∧ value.utf8ByteSize ≤ maxImageResponseBytes ∧ value.utf8ByteSize % 4 = 0 ∧
    ∃ encoded padding, value.toList = encoded ++ List.replicate padding '=' ∧ padding ≤ 2 ∧
      ∀ c ∈ encoded, isBase64Char c = true

/-- An image of a response: its url or its data, and the prompt it was made from. -/
structure ImageValue where
  source : String ⊕ String
  revisedPrompt : Option String

def ImageValue.url (v : ImageValue) : Option String := v.source.getLeft?

def ImageValue.b64Json (v : ImageValue) : Option String := v.source.getRight?

structure ImageValue.Valid (v : ImageValue) : Prop where
  url : ∀ url, v.source = .inl url →
    url ≠ "" ∧ url.utf8ByteSize ≤ maxUrlBytes ∧ ∀ c ∈ url.toList, isControl c = false
  b64Json : ∀ encoded, v.source = .inr encoded → PaddedBase64 encoded
  revisedPrompt : ∀ prompt ∈ v.revisedPrompt,
    prompt ≠ "" ∧ prompt.utf8ByteSize ≤ maxPromptBytes ∧ '\x00' ∉ prompt.toList

structure ImageResponseValue where
  created : Option UInt64
  data : List ImageValue

structure ImageResponseValue.Valid (v : ImageResponseValue) : Prop where
  nonempty : v.data ≠ []
  length_le : v.data.length ≤ maxImages
  data : ∀ image ∈ v.data, image.Valid

/-- A member that holds the string, or is missing. -/
def DenotesString : Option Json → Option String → Prop
  | none, none => True
  | some (.str raw), some s => literal raw = some s
  | _, _ => False

structure DenotesImage (j : Json) (v : ImageValue) (fields : List (String × Json)) : Prop where
  object : objectFields j = some fields
  nodup : (fields.map Prod.fst).Nodup
  known : ∀ f ∈ fields, f.1 ∈ imageDataFields
  url : DenotesString (fields.lookup "url") v.url
  b64Json : DenotesString (fields.lookup "b64_json") v.b64Json
  revisedPrompt : DenotesString (fields.lookup "revised_prompt") v.revisedPrompt

/-- A document written in some way has the value. Members that are not `created` or `data` may stand
    beside them. -/
structure Denotes (j : Json) (v : ImageResponseValue) (fields : List (String × Json))
    (items : List Json) :
    Prop where
  object : objectFields j = some fields
  nodup : (fields.map Prod.fst).Nodup
  created : fields.lookup "created" = v.created.map .ofWord
  data : fields.lookup "data" = some (.arr items)
  images : List.Forall₂ (fun item image => ∃ fields, DenotesImage item image fields) items v.data

/-- No string of the image is written with an escape. -/
def PlainImage (j : Json) : Prop :=
  ∀ fields ∈ structFields imageDataFields true j, ∀ k ∈ imageDataFields, ∀ raw,
    fields.lookup k = some (.str raw) → '\\' ∉ raw.toList

/-! ## What is accepted -/

theorem structFields_of_object {names : List String} {denyUnknown : Bool} {j : Json}
    (h : objectFields j = some fields) (hnodup : (fields.map Prod.fst).Nodup)
    (hknown : denyUnknown = true → ∀ f ∈ fields, f.1 ∈ names) :
    structFields names denyUnknown j = some fields := by
  cases j with
  | obj members => rw [structFields, h, Option.bind_some, if_pos ⟨hknown, hnodup.filter _⟩]; simp
  | _ => cases h

/-- A value is read exactly under a condition, and is then the given one. -/
def ReadIf {α : Type} (P : Prop) (read : Option α) (a : α) : Prop := (P ∧ read = some a) ∨
    (¬ P ∧ read = none)

theorem ReadIf.bind {α β : Type} {P Q : Prop} {read : Option α} {next : α → Option β}
    {a : α} {b : β} (h : ReadIf P read a) (hnext : ReadIf Q (next a) b) :
    ReadIf (P ∧ Q) (read >>= next) b := by
  rcases h with ⟨hp, rfl⟩ | ⟨hp, rfl⟩
  · rcases hnext with ⟨hq, hb⟩ | ⟨hq, hb⟩
    · exact .inl ⟨⟨hp, hq⟩, hb⟩
    · exact .inr ⟨fun hboth => hq hboth.2, hb⟩
  · exact .inr ⟨fun hboth => hp hboth.1, rfl⟩

def PlainString (j : Option Json) : Prop := ∀ raw, j = some (.str raw) → '\\' ∉ raw.toList

/-- A string can be lent exactly if it is plain, and is then the one it denotes. -/
theorem borrowedStr_of_denotes {j : Option Json} {s : Option String} (h : DenotesString j s) :
    ReadIf (PlainString j) (borrowedStr j) s := by
  match j, s, h with
  | none, none, _ => exact .inl ⟨nofun, rfl⟩
  | some (.str raw), some s, hliteral =>
    by_cases hplain : '\\' ∈ raw.toList
    · exact .inr ⟨fun hall => hall raw rfl hplain, if_pos hplain⟩
    · refine .inl ⟨by rintro _ ⟨⟩; exact hplain, ?_⟩
      rw [borrowedStr, if_neg hplain, show literal raw = some s from hliteral]
      rfl

theorem borrowedImageData_of_denotes {j : Json} {v : ImageValue} (h : DenotesImage j v fields) :
    ReadIf (PlainImage j) (borrowedImageData j) ⟨v.url, v.b64Json, v.revisedPrompt⟩ := by
  have hfields := structFields_of_object h.object h.nodup fun _ : true = true => h.known
  have hplain : PlainImage j = (PlainString (fields.lookup "url") ∧
      PlainString (fields.lookup "b64_json") ∧ PlainString (fields.lookup "revised_prompt") ∧
      True) := by
    rw [PlainImage, hfields]
    simp [PlainString, imageDataFields]
  rw [hplain, borrowedImageData, hfields]
  exact (borrowedStr_of_denotes h.url).bind ((borrowedStr_of_denotes h.b64Json).bind
    ((borrowedStr_of_denotes h.revisedPrompt).bind (.inl ⟨trivial, rfl⟩)))

theorem base64Loop_replicate {started : Bool} {padding k : Nat} (h : padding + k ≤ 2) :
    base64Loop started padding (List.replicate k '=') = true := by
  induction k generalizing started padding with
  | zero => rfl
  | succ k ih =>
    rw [List.replicate_succ, base64Loop, if_pos rfl, if_neg (by omega)]
    exact ih (by omega)

theorem base64Loop_append {encoded rest : List Char} (h : ∀ c ∈ encoded, isBase64Char c = true) :
    base64Loop false 0 (encoded ++ rest) = base64Loop false 0 rest := by
  induction encoded with
  | nil => rfl
  | cons c cs ih =>
    have hc := h c (by simp)
    have hne : c ≠ '=' := by
      rintro rfl
      exact absurd hc (by decide)
    rw [List.cons_append, base64Loop, if_neg hne, hc]
    exact ih fun d hd => h d (by simp [hd])

theorem validBase64_of_padded {value : String} (h : PaddedBase64 value) :
    validBase64 value = true := by
  obtain ⟨hne, hle, hmod, encoded, padding, hsplit, hpadding, hencoded⟩ := h
  have hloop : base64Loop false 0 value.toList = true := by
    rw [hsplit, base64Loop_append hencoded]
    exact base64Loop_replicate (by omega)
  simp [validBase64, hloop, hne, hle, hmod]

theorem validateImage_of_valid {v : ImageValue} (h : v.Valid) :
    validateImage ⟨v.url, v.b64Json, v.revisedPrompt⟩ = .ok () := by
  have hprompt : (match v.revisedPrompt with
      | some prompt => validateText prompt maxPromptBytes
      | none => .ok ()) = .ok () := by
    cases hp : v.revisedPrompt with
    | none => rfl
    | some prompt =>
      obtain ⟨hne, hle, hnul⟩ := h.revisedPrompt prompt hp
      simp [validateText, hne, hle, hnul]
  unfold validateImage
  rw [hprompt]
  rcases hs : v.source with url | encoded
  · obtain ⟨hne, hle, hcontrol⟩ := h.url url hs
    have hurl : validateString url maxUrlBytes = .ok () := by
      simpa [validateString, hne, hle, hasControl] using hcontrol
    simp [ImageValue.url, ImageValue.b64Json, hs, hurl]
  · simp [ImageValue.url, ImageValue.b64Json, hs, validBase64_of_padded (h.b64Json encoded hs)]

/-- The images are read if all are plain, and are then the ones they denote. -/
theorem mapM_borrowedImageData {items : List Json} {data : List ImageValue}
    (h : List.Forall₂ (fun item image => ∃ fields, DenotesImage item image fields) items data) :
    ReadIf (∀ item ∈ items, PlainImage item) (items.mapM borrowedImageData)
      (data.map fun v => ⟨v.url, v.b64Json, v.revisedPrompt⟩) := by
  induction h with
  | nil => exact .inl ⟨by simp, rfl⟩
  | cons hitem _ ih =>
    obtain ⟨fields, hitem⟩ := hitem
    rw [List.forall_mem_cons, List.mapM_cons, ← and_true (∀ item ∈ _, PlainImage item)]
    exact (borrowedImageData_of_denotes hitem).bind (ih.bind (.inl ⟨trivial, rfl⟩))

/-- **A response is accepted as it is written.** A text of at most `maxImageResponseBytes` that
    denotes a valid value is accepted exactly if every string of its images is written without an
    escape. -/
theorem validateImageResponse_iff {read : Bytes → Option Json} {body : Bytes} {j : Json}
    {v : ImageResponseValue} {fields : List (String × Json)} {items : List Json}
    (hsize : body.length ≤ maxImageResponseBytes) (hread : read body = some j) (hv : v.Valid)
    (h : Denotes j v fields items) :
    validateImageResponse read body = .ok () ↔ ∀ item ∈ items, PlainImage item := by
  have hfields : structFields imageResponseFields false j = some fields :=
    structFields_of_object h.object h.nodup fun hdeny => absurd hdeny (by simp)
  have hcreated : ∃ created, optionalU64 (fields.lookup "created") = some created := by
    rw [h.created]
    cases v.created with
    | none => exact ⟨none, rfl⟩
    | some n => exact ⟨some n.toNat, rfl⟩
  obtain ⟨created, hcreated⟩ := hcreated
  have hresponse : borrowedImageResponse j =
      (items.mapM borrowedImageData).map fun data => ⟨created, data⟩ := by
    simp only [borrowedImageResponse, hfields, hcreated, h.data, Option.bind_eq_bind,
      Option.bind_some]
    cases items.mapM borrowedImageData with
    | none | some => rfl
  rcases mapM_borrowedImageData h.images with ⟨hplain, hdata⟩ | ⟨hplain, hdata⟩
  · refine iff_of_true ?_ hplain
    simpa [validateImageResponse, hsize, hread, hresponse, hdata, orInvalid, Outcome.okOr,
      requireThat, hv.nonempty, hv.length_le] using Outcome.forM_eq_ok.mpr fun image himage =>
      validateImage_of_valid (hv.data image himage)
  · refine iff_of_false ?_ hplain
    simp [validateImageResponse, hread, hresponse, hdata]

/-- A reader of texts without floats. -/
def readWritten : Bytes → Option Json := written ⟨fun _ => none⟩

def imageBody (prompt : String) : Bytes :=
  encodeUtf8 ("\x7b\"data\":[\x7b\"url\":\"u\",\"revised_prompt\":\"" ++ prompt ++
    "\"\x7d]\x7d").toList

def imageDocument (prompt : String) : Json :=
    .obj [("url", .str "u"), ("revised_prompt", .str prompt)]

def imageValue (prompt : String) : ImageResponseValue := ⟨none, [⟨.inl "u", some prompt⟩]⟩

theorem imageValue_valid (h : prompt ≠ "" ∧ prompt.utf8ByteSize ≤ maxPromptBytes ∧
    '\x00' ∉ prompt.toList) :
    (imageValue prompt).Valid := by
  refine ⟨by simp [imageValue], by simp [imageValue, maxImages], ?_⟩
  simp only [imageValue, List.mem_singleton, forall_eq]
  refine ⟨?_, by simp, by simpa using h⟩
  rintro _ ⟨⟩
  exact ⟨by decide, by decide, by simp; decide⟩

theorem imageDocument_denotes {raw : String} (h : literal raw = some prompt) :
    Denotes (.obj [("data", .arr [imageDocument raw])]) (imageValue prompt)
      [("data", .arr [imageDocument raw])] [imageDocument raw] where
  object := by simp [objectFields, show literal "data" = some "data" by decide]
  nodup := by simp
  created := rfl
  data := rfl
  images := by
    have hurl : literal "url" = some "url" := by decide
    have hprompt : literal "revised_prompt" = some "revised_prompt" := by decide
    refine .cons ⟨[("url", .str "u"), ("revised_prompt", .str raw)],
      ?_, by simp, by simp [imageDataFields], ?_, trivial, h⟩ .nil
    · simp [objectFields, imageDocument, hurl, hprompt]
    · exact show literal "u" = some "u" from rfl

/-- The equivalence on a prompt without an escape. -/
theorem validateImageResponse_iff_plain :
    readWritten (imageBody "safe") = some (.obj [("data", .arr [imageDocument "safe"])]) ∧
      (validateImageResponse readWritten (imageBody "safe") = .ok () ↔
        ∀ item ∈ [imageDocument "safe"], PlainImage item) := by
  have hread : readWritten (imageBody "safe") =
      some (.obj [("data", .arr [imageDocument "safe"])]) := by
    rw [readWritten, written, imageBody, decodeUtf8_encodeUtf8]
    rfl
  exact ⟨hread, validateImageResponse_iff (by decide) hread (imageValue_valid (by decide))
    (imageDocument_denotes rfl)⟩

/-- A prompt with a quotation mark can only be written with an escape, and the response is
    refused. -/
theorem quoted_prompt_refused :
    ∃ j fields items, (imageBody "\\\"").length ≤ maxImageResponseBytes ∧
      readWritten (imageBody "\\\"") = some j ∧ (imageValue "\"").Valid ∧
      Denotes j (imageValue "\"") fields items ∧
      validateImageResponse readWritten (imageBody "\\\"") = .error .invalidRequest := by
  have hread : readWritten (imageBody "\\\"") =
      some (.obj [("data", .arr [imageDocument "\\\""])]) := by
    rw [readWritten, written, imageBody, decodeUtf8_encodeUtf8]
    rfl
  refine ⟨_, _, _, by decide, hread, imageValue_valid (by decide), imageDocument_denotes rfl, ?_⟩
  rw [validateImageResponse, hread]
  rfl

end Wokcore.Protocols
