import Mathlib.Data.String.Basic

/-!
# Identifiers (`crates/wokcore-core/src/id.rs`)

`ProviderId`, `AccountId` and `ClientId` are the three instances of one macro: a string that
passed `is_valid_identifier`. Here they are one structure with a phantom `IdKind`, and the check
is a field, so an identifier that breaks the rule cannot be built. `Identifier.new` is the fallible
constructor of the source; the derived order of the source is the order of the texts.
-/

set_option autoImplicit false

namespace Wokcore.Core

/-- `MAX_IDENTIFIER_LENGTH`. -/
def maxIdentifierLength : Nat := 128

/-- `str::bytes`: the UTF-8 bytes of a text, in order. -/
def bytesOf (s : String) : List UInt8 := s.toUTF8.data.toList

/-- `u8::is_ascii_lowercase`. -/
def isAsciiLowercase (b : UInt8) : Bool := 97 ≤ b.toNat && b.toNat ≤ 122

/-- `u8::is_ascii_digit`. -/
def isAsciiDigit (b : UInt8) : Bool := 48 ≤ b.toNat && b.toNat ≤ 57

/-- `u8::is_ascii_alphanumeric`. -/
def isAsciiAlphanumeric (b : UInt8) : Bool :=
  isAsciiLowercase b || isAsciiDigit b || (65 ≤ b.toNat && b.toNat ≤ 90)

def isValidIdentifier (value : String) : Bool :=
  !value.isEmpty
    && value.utf8ByteSize ≤ maxIdentifierLength
    && value != "."
    && value != ".."
    && (bytesOf value).any isAsciiAlphanumeric
    && (bytesOf value).all fun b =>
        isAsciiLowercase b || isAsciiDigit b || b == 46 || b == 95 || b == 45

/-- The three identifier types the macro is applied to. -/
inductive IdKind where
  | provider
  | account
  | client
deriving DecidableEq, Repr

/-- A text that passed `is_valid_identifier`. -/
@[ext]
structure Identifier (kind : IdKind) where
  text : String
  valid : isValidIdentifier text = true
deriving DecidableEq

abbrev ProviderId := Identifier .provider
abbrev AccountId := Identifier .account
abbrev ClientId := Identifier .client

/-- The error of the macro's `new`. -/
structure InvalidId where
deriving DecidableEq, Repr

variable {kind : IdKind}

/-- `new`: accept exactly the valid texts. -/
def Identifier.new (value : String) : Except InvalidId (Identifier kind) :=
  if h : isValidIdentifier value = true then .ok ⟨value, h⟩ else .error ⟨⟩

theorem Identifier.text_injective : Function.Injective (@Identifier.text kind) := by
  intro a b h
  exact Identifier.ext h

/-- The identifier of the examples. -/
theorem isValid_primary : isValidIdentifier "primary" = true := by decide

instance : LinearOrder (Identifier kind) := LinearOrder.lift' _ Identifier.text_injective

instance : Std.LawfulEqCmp (compare : Identifier kind → Identifier kind → Ordering) where
  eq_of_compare h := compare_eq_iff_eq.mp h

end Wokcore.Core
