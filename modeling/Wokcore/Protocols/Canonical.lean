import Wokcore.Core.Url
import Wokcore.Lib.Json.Tree
import Wokcore.Lib.Outcome

/-!
# The canonical request, events and errors (`wokcore-protocols/src/canonical/`)

Every client protocol is decoded into one `CanonicalRequest` and every upstream protocol answers
with a list of `CanonicalEvent`s. The string newtypes of the source (`RequestId`, `PublicModelId`,
`ThreadKey`) are plain texts. JSON values are `Value`s, and the `BTreeMap`s of extensions are
`EntryMap`s.
-/

set_option autoImplicit false

namespace Wokcore.Protocols

open Lib Wokcore.Core

/-- Fields a decoder did not know, kept by name. -/
abbrev Extensions := EntryMap Value

/-! ## Errors -/

/-- `ErrorKind`. -/
inductive ErrorKind where
  | invalidRequest
  | modelNotFound
  | unsupportedCapability
  | noExecutor
  | upstreamAuth
  | rateLimited (retryAfterSeconds : Option Nat)
  | upstreamError (status : Nat)
  | upstreamUnavailable
  | internalError
deriving DecidableEq, Repr

/-- `GatewayError`. -/
structure GatewayError where
  kind : ErrorKind
  diagnostic : Option String
deriving DecidableEq, Repr

namespace GatewayError

def invalidRequest : GatewayError := ⟨.invalidRequest, none⟩

def unsupportedCapability : GatewayError := ⟨.unsupportedCapability, none⟩

def upstreamResponse (status : Nat) (snippet : String) : GatewayError :=
  ⟨.upstreamError status, some snippet⟩

def internal (diagnostic : String) : GatewayError := ⟨.internalError, some diagnostic⟩

/-- `GatewayError::code`. -/
def code (e : GatewayError) : String :=
  match e.kind with
  | .invalidRequest => "invalid_request"
  | .modelNotFound => "model_not_found"
  | .unsupportedCapability => "unsupported_capability"
  | .noExecutor => "no_executor"
  | .upstreamAuth => "upstream_auth"
  | .rateLimited _ => "rate_limited"
  | .upstreamError _ => "upstream_error"
  | .upstreamUnavailable => "upstream_unavailable"
  | .internalError => "internal_error"

/-- `GatewayError::public_message`. -/
def publicMessage (e : GatewayError) : String :=
  match e.kind with
  | .invalidRequest => "The request is invalid."
  | .modelNotFound => "The requested model is not available."
  | .unsupportedCapability => "The requested capability is not supported."
  | .noExecutor => "No executor is configured for the requested operation."
  | .upstreamAuth => "The upstream account needs to be authenticated again."
  | .rateLimited _ => "The request was rate limited."
  | .upstreamError _ => "The upstream service failed."
  | .upstreamUnavailable => "The upstream service is unavailable."
  | .internalError => "An internal gateway error occurred."

end GatewayError

/-- What a fallible function of the crate returns. -/
abbrev Result (α : Type*) := Except GatewayError α

/-- `ok_or_else(GatewayError::invalid_request)`. -/
def orInvalid {α : Type*} : Option α → Result α := Lib.Outcome.okOr .invalidRequest

/-- `if !condition { return Err(GatewayError::invalid_request()) }`. -/
def requireThat (condition : Bool) : Result Unit :=
  if condition then .ok () else .error .invalidRequest

namespace Result

variable {α : Type}

@[simp] theorem orInvalid_eq_ok {o : Option α} {a : α} : orInvalid o = .ok a ↔ o = some a :=
  Lib.Outcome.okOr_eq_ok

@[simp] theorem requireThat_eq_ok {c : Bool} {u : Unit} : requireThat c = .ok u ↔ c = true := by
  cases c <;> simp [requireThat]

/-- What reads the checks of a `do` block, for `simp`. -/
theorem checks_ok : (∀ {c : Bool} {u : Unit}, requireThat c = .ok u ↔ c = true) ∧
    ∀ {α : Type} {o : Option α} {a : α}, orInvalid o = .ok a ↔ o = some a :=
  ⟨requireThat_eq_ok, orInvalid_eq_ok⟩

end Result

/-! ## Requests -/

inductive ImageDetail where
  | auto
  | low
  | high
deriving DecidableEq, Repr

inductive InputItem where
  | text (text : String)
  | imageUrl (url : Url) (detail : Option ImageDetail)
  | toolResult (callId : String) (output : Value)
deriving DecidableEq

structure ToolDefinition where
  name : String
  description : Option String
  inputSchema : Value
  extensions : Extensions
deriving DecidableEq

structure ReasoningOptions where
  effort : Option String
  extensions : Extensions
deriving DecidableEq

structure CanonicalRequest where
  requestId : String
  model : String
  threadKey : Option String
  input : List InputItem
  tools : List ToolDefinition
  stream : Bool
  reasoning : Option ReasoningOptions
  extensions : Extensions
deriving DecidableEq

/-! ## Events -/

structure Usage where
  inputTokens : UInt64
  outputTokens : UInt64
  cachedInputTokens : Option UInt64
  reasoningTokens : Option UInt64
  extensions : Extensions
deriving DecidableEq

inductive CanonicalEvent where
  | created (responseId : String)
  | outputTextDelta (itemId delta : String)
  | reasoningDelta (itemId delta : String)
  | toolCallDelta (itemId callId name delta : String)
  | usage (usage : Usage)
  | completed
  | failed (error : GatewayError)
deriving DecidableEq

/-- The events of a response, in order. -/
abbrev Events := List CanonicalEvent

/-- A response that is told to its end. -/
abbrev whole (id : String) (deltas : Events) (usage : Usage) : Events :=
  .created id :: (deltas ++ [.usage usage, .completed])

/-! ## Names -/

def isChatNameChar (c : Char) : Bool := c.isAlphanum || c == '_' || c == '-'

/-- `valid_chat_function_name`. -/
def validChatFunctionName (value : String) : Bool :=
  !value.isEmpty && value.utf8ByteSize ≤ 64 && value.toList.all isChatNameChar

end Wokcore.Protocols
