import Wokcore.Lib.Outcome
import Wokcore.Lib.Word
import Wokcore.Lib.Json.Text

/-!
# Session records (`crates/wokcore-storage/src/state/store.rs`)

What the Session tables of the state database hold, and the checks that every record passes before
it is written. A record belongs to a source and to one generation of it; a batch is written under
one cursor, and its records belong to the source and the generation of the cursor.
-/

set_option autoImplicit false

namespace Wokcore.Storage.Sessions

open Lib Outcome

def maxSessionBatchRows : Nat := 512
def maxSessionBatchBytes : Nat := 512 * 1024
def maxParserCheckpointBytes : Nat := 64 * 1024
def maxCodexReplaySignatures : Nat := 262144
def maxSupplementalRowBytes : Nat := 2 * 1024
def maxSupplementalRows : Nat := 32768
def maxSupplementalBytes : Nat := 64 * 1024 * 1024

/-- The `StorageError`s that the Session tables answer with. -/
inductive StorageError where
  | invalidStateRecord (message : String)
  | stableRecordConflict (recordKind : String)
  | sessionBatchLimitExceeded
  | candidateStateConflict
  | replaySignatureLimitExceeded
  | stateDatabaseCorrupt (message : String)
  | stateDatabase
deriving DecidableEq

abbrev Result (α : Type*) := Except StorageError α

/-! ## Records -/

inductive SessionSourceKind where
  | codex
  | claude
  | gemini
deriving DecidableEq

inductive SessionGenerationState where
  | staging
  | current
  | retired
deriving DecidableEq

inductive SessionAvailability where
  | available
  | unavailable
deriving DecidableEq

inductive SessionSourceStatus where
  | undiscovered
  | available
  | stale
  | unavailable
  | resourceLimited
deriving DecidableEq

inductive SessionSourceErrorCode where
  | sourceRootMissing
  | sourceRootUnreadable
  | sourceSessionsAbsent
  | sourceEntryUnsafe
  | sourceIoFailed
  | sourceParseInvalid
  | sourceRecordTooLarge
  | sourceReplayParentMissing
  | sourceReplayParentAmbiguous
  | sourceReplayInconsistent
  | sourceReplayLimit
  | sourceCandidateInterrupted
deriving DecidableEq

/-- `is_resource_limit`. -/
def SessionSourceErrorCode.isResourceLimit : SessionSourceErrorCode → Bool
  | .sourceRecordTooLarge | .sourceReplayLimit => true
  | _ => false

inductive SessionScanResultCode where
  | advanced
  | unchanged
  | deferred
deriving DecidableEq

def SessionScanResultCode.asStr : SessionScanResultCode → String
  | .advanced => "advanced"
  | .unchanged => "unchanged"
  | .deferred => "deferred"

inductive SupplementalRetryDecision where
  | none
  | retry
  | exhausted
deriving DecidableEq

def SupplementalRetryDecision.asStr : SupplementalRetryDecision → String
  | .none => "none"
  | .retry => "retry"
  | .exhausted => "exhausted"

inductive SupplementalFailoverDecision where
  | none
  | failover
  | unavailable
deriving DecidableEq

def SupplementalFailoverDecision.asStr : SupplementalFailoverDecision → String
  | .none => "none"
  | .failover => "failover"
  | .unavailable => "unavailable"

structure SessionSourceState where
  sourceKey : String
  sourceKind : SessionSourceKind
  currentGeneration : Option Nat
  stagingGeneration : Option Nat
  retiredGeneration : Option Nat
  status : SessionSourceStatus
  errorCode : Option SessionSourceErrorCode
  lastTransitionAt : Option String
deriving DecidableEq

structure ParserCheckpoint where
  version : Nat
  previousInputTokens : Nat
  previousOutputTokens : Nat
  previousCacheReadTokens : Nat
  previousCacheWriteTokens : Nat
  previousReasoningTokens : Nat
  currentModel : Option String
  eventOrdinal : Nat
  lineageSourceKey : Option String
  lineageGeneration : Option Nat
  lineageRecordOrdinal : Nat
  structuralHash : Option Bytes
deriving DecidableEq

structure SessionScanCursor where
  sourceKey : String
  sourceKind : SessionSourceKind
  generation : Nat
  generationState : SessionGenerationState
  fileIdentity : String
  observedSize : Nat
  modifiedAt : String
  completeByteOffset : Nat
  stableRecordOrdinal : Nat
  parserCheckpoint : ParserCheckpoint
  headFingerprint : Bytes
  boundaryFingerprint : Bytes
  parentSourceKey : Option String
  parentGeneration : Option Nat
  replayBoundaryFingerprint : Option Bytes
  resultCode : Option SessionScanResultCode
  resultChangedAt : Option String
deriving DecidableEq

structure SessionIndexRecord where
  sessionKey : String
  sourceKey : String
  generation : Nat
  sourceKind : SessionSourceKind
  createdAt : String
  lastActiveAt : String
  messageCount : Nat
  usageEventCount : Nat
  availability : SessionAvailability
deriving DecidableEq

structure SessionUsageRecord where
  usageId : String
  sessionKey : String
  sourceKey : String
  generation : Nat
  sourceKind : SessionSourceKind
  model : String
  occurredAt : String
  inputTokens : Nat
  outputTokens : Nat
  cacheReadTokens : Nat
  cacheWriteTokens : Nat
  reasoningTokens : Nat
  recordRevision : Nat
deriving DecidableEq

structure CodexReplaySignature where
  parentSourceKey : String
  parentGeneration : Nat
  tokenEventOrdinal : Nat
  occurredAt : String
  signatureHash : Bytes
deriving DecidableEq

structure RequestSupplementalMetadata where
  requestId : String
  attemptId : String
  traceId : String
  occurredAt : String
  routeFingerprint : String
  providerFingerprint : String
  accountFingerprint : Option String
  retryDecision : SupplementalRetryDecision
  failoverDecision : SupplementalFailoverDecision
  queueMs : Nat
  connectMs : Nat
  firstByteMs : Nat
  totalMs : Nat
  requestBytes : Nat
  responseBytes : Nat
  statusCode : Option Nat
  errorCode : Option String
deriving DecidableEq

abbrev Supplements := List RequestSupplementalMetadata

structure SessionBatch where
  cursor : Option SessionScanCursor
  indexRecords : List SessionIndexRecord
  usageRecords : List SessionUsageRecord
  replaySignatures : List CodexReplaySignature
  supplementalMetadata : Supplements

/-! ## Checks -/

/-- `invalid_state`. -/
def invalidState (message : String) : StorageError := .invalidStateRecord message

/-- `to_i64`. -/
def toI64 (value : Nat) (name : String) : Result Unit :=
  rejectIf (decide (value > i64Max)) (invalidState (name ++ " exceeds SQLite range"))

def isLowerHex (c : Char) : Bool := c.isDigit || ('a' ≤ c && c ≤ 'f')

/-- `validate_opaque_key`. -/
def validateOpaqueKey (name value : String) : Result Unit :=
  rejectIf (value.utf8ByteSize != 64 || !value.toList.all isLowerHex)
    (invalidState (name ++ " must be a 64-character lowercase hexadecimal identifier"))

/-- `validate_generation`. -/
def validateGeneration (generation : Nat) : Result Unit := do
  rejectIf (generation == 0) (invalidState "generation must be positive")
  toI64 generation "generation"

/-- `is_leap_year`. -/
def isLeapYear (year : Nat) : Bool := year % 4 == 0 && (year % 100 != 0 || year % 400 == 0)

/-- `parse_timestamp_component`. -/
def parseTimestampComponent (digits : List Char) : Nat :=
    digits.foldl (fun value c => value * 10 + (c.toNat - 48)) 0

/-- The number of days of a month, and none of a month that does not exist. -/
def maximumDay (year month : Nat) : Nat :=
  if month ∈ [1, 3, 5, 7, 8, 10, 12] then 31
  else if month ∈ [4, 6, 9, 11] then 30
  else if month = 2 then if isLeapYear year then 29 else 28
  else 0

/-- `validate_timestamp`. -/
def validateTimestamp (name value : String) : Result Unit :=
  match value.toList with
  | [y₁, y₂, y₃, y₄, '-', m₁, m₂, '-', d₁, d₂, 'T', h₁, h₂, ':', n₁, n₂, ':', s₁, s₂, 'Z'] => do
      rejectIf (!([y₁, y₂, y₃, y₄, m₁, m₂, d₁, d₂, h₁, h₂, n₁, n₂, s₁, s₂].all Char.isDigit))
        (invalidState (name ++ " must use YYYY-MM-DDTHH:MM:SSZ"))
      let year := parseTimestampComponent [y₁, y₂, y₃, y₄]
      let day := parseTimestampComponent [d₁, d₂]
      rejectIf (year == 0 || day == 0 || decide
          (day > maximumDay year (parseTimestampComponent [m₁, m₂])) || decide
          (parseTimestampComponent [h₁, h₂] > 23) || decide (parseTimestampComponent [n₁, n₂] > 59)
        || decide (parseTimestampComponent [s₁, s₂] > 59))
        (invalidState (name ++ " contains an impossible UTC date or time"))
  | _ => .error (invalidState (name ++ " must use YYYY-MM-DDTHH:MM:SSZ"))

/-- `validate_correlation_id`. -/
def validateCorrelationId (name value : String) : Result Unit :=
  rejectIf (value.isEmpty || decide (value.utf8ByteSize > 256) ||
      !value.toList.all fun c => c.isAlphanum || c == '-' || c == '_' || c == '.')
    (invalidState (name ++ " must be an opaque correlation identifier"))

/-- `validate_stable_code`. -/
def validateStableCode (name value : String) : Result Unit :=
  rejectIf (value.isEmpty || decide (value.utf8ByteSize > 128) ||
      !value.toList.all fun c => c.isLower || c.isDigit || c == '_')
    (invalidState (name ++ " must be a lowercase stable code"))

/-- `char::is_control`. -/
def isControl (c : Char) : Bool :=
    decide (c.toNat < 32) || (decide (127 ≤ c.toNat) && decide (c.toNat < 160))

/-- `validate_bounded_text`. -/
def validateBoundedText (name value : String) (maximum : Nat) (allowEmpty : Bool) : Result Unit :=
  rejectIf ((!allowEmpty && value.isEmpty) || decide (value.utf8ByteSize > maximum) ||
    value.toList.any isControl) (invalidState (name ++ " is outside its safe bound"))

/-- `hex_encode`. -/
def hexEncode (bytes : Bytes) : String :=
  String.ofList (bytes.flatMap fun b => [hexDigit (b.toNat / 16), hexDigit (b.toNat % 16)])

/-- `encode_checkpoint`. -/
def encodeCheckpoint (checkpoint : ParserCheckpoint) : String :=
  "\n".intercalate [toString checkpoint.version, toString checkpoint.previousInputTokens,
    toString checkpoint.previousOutputTokens, toString checkpoint.previousCacheReadTokens,
    toString checkpoint.previousCacheWriteTokens, toString checkpoint.previousReasoningTokens,
    checkpoint.currentModel.getD "", toString checkpoint.eventOrdinal,
    checkpoint.lineageSourceKey.getD "", (checkpoint.lineageGeneration.map toString).getD "",
    toString checkpoint.lineageRecordOrdinal, (checkpoint.structuralHash.map hexEncode).getD ""]

/-- `validate_checkpoint`. -/
def validateCheckpoint (checkpoint : ParserCheckpoint) : Result Unit := do
  rejectIf (checkpoint.version == 0) (invalidState "parser checkpoint version must be positive")
  checkpoint.currentModel.toList.forM fun model =>
    validateBoundedText "checkpoint model" model 256 false
  match checkpoint.lineageSourceKey, checkpoint.lineageGeneration with
  | none, none =>
      rejectIf (checkpoint.lineageRecordOrdinal != 0)
        (invalidState "lineage ordinal requires a lineage source and generation")
  | some sourceKey, some generation => do
      validateOpaqueKey "checkpoint lineage source key" sourceKey
      validateGeneration generation
  | _, _ =>
    .error (invalidState "checkpoint lineage source and generation must be present together")
  rejectIf (decide ((encodeCheckpoint checkpoint).utf8ByteSize > maxParserCheckpointBytes))
    (invalidState "parser checkpoint exceeds 64 KiB")

/-- `validate_cursor`. -/
def validateCursor (cursor : SessionScanCursor) : Result Unit := do
  validateOpaqueKey "source key" cursor.sourceKey
  validateGeneration cursor.generation
  validateOpaqueKey "file identity" cursor.fileIdentity
  validateTimestamp "cursor modification timestamp" cursor.modifiedAt
  toI64 cursor.observedSize "observed size"
  toI64 cursor.completeByteOffset "complete byte offset"
  toI64 cursor.stableRecordOrdinal "stable record ordinal"
  rejectIf (decide (cursor.completeByteOffset > cursor.observedSize))
    (invalidState "complete byte offset exceeds the observed size")
  validateCheckpoint cursor.parserCheckpoint
  match cursor.parentSourceKey, cursor.parentGeneration, cursor.replayBoundaryFingerprint with
  | none, none, none => pure ()
  | some parentSourceKey, some parentGeneration, some _ => do
      validateOpaqueKey "parent source key" parentSourceKey
      validateGeneration parentGeneration
  | _, _, _ =>
      .error (invalidState "parent source, generation, and replay anchor must be present together")
  rejectIf (cursor.parserCheckpoint.lineageSourceKey != cursor.parentSourceKey ||
      cursor.parserCheckpoint.lineageGeneration != cursor.parentGeneration)
    (invalidState "parser checkpoint lineage must match the cursor parent lineage")
  cursor.resultCode.toList.forM fun code => validateStableCode "result code" code.asStr
  match cursor.resultCode, cursor.resultChangedAt with
  | none, none => pure ()
  | some _, some timestamp => validateTimestamp "result transition timestamp" timestamp
  | _, _ => .error (invalidState "result code and transition timestamp must be present together")

/-- `validate_record_owner`. -/
def validateRecordOwner (sourceKey : String) (generation : Nat) (sourceKind : SessionSourceKind)
    (cursor : Option SessionScanCursor) : Result Unit := do
  let cursor ← okOr (invalidState "Session-derived records require an atomic cursor") cursor
  rejectIf (cursor.sourceKey != sourceKey || cursor.generation != generation || cursor.sourceKind !=
    sourceKind) (invalidState "Session-derived record owner does not match the batch cursor")

variable (cursor : Option SessionScanCursor)

/-- `validate_index_record`. -/
def validateIndexRecord (record : SessionIndexRecord) : Result Unit := do
  validateOpaqueKey "session key" record.sessionKey
  validateOpaqueKey "source key" record.sourceKey
  validateGeneration record.generation
  validateTimestamp "Session creation timestamp" record.createdAt
  validateTimestamp "Session activity timestamp" record.lastActiveAt
  toI64 record.messageCount "message count"
  toI64 record.usageEventCount "usage event count"
  validateRecordOwner record.sourceKey record.generation record.sourceKind cursor

/-- `validate_usage_record`. -/
def validateUsageRecord (record : SessionUsageRecord) : Result Unit := do
  validateOpaqueKey "usage identifier" record.usageId
  validateOpaqueKey "session key" record.sessionKey
  validateOpaqueKey "source key" record.sourceKey
  validateGeneration record.generation
  validateBoundedText "normalized model" record.model 256 false
  validateTimestamp "usage timestamp" record.occurredAt
  [("input tokens", record.inputTokens), ("output tokens", record.outputTokens),
    ("cache read tokens", record.cacheReadTokens), ("cache write tokens", record.cacheWriteTokens),
    ("reasoning tokens", record.reasoningTokens), ("record revision", record.recordRevision)].forM
      fun entry => toI64 entry.2 entry.1
  rejectIf (record.recordRevision == 0) (invalidState "usage record revision must be positive")
  validateRecordOwner record.sourceKey record.generation record.sourceKind cursor

/-- `validate_replay_signature`. -/
def validateReplaySignature (signature : CodexReplaySignature) : Result Unit := do
  validateOpaqueKey "parent source key" signature.parentSourceKey
  validateGeneration signature.parentGeneration
  rejectIf (signature.tokenEventOrdinal == 0)
    (invalidState "replay signature ordinal must be positive")
  toI64 signature.tokenEventOrdinal "replay ordinal"
  validateTimestamp "replay signature timestamp" signature.occurredAt
  let cursor ← okOr (invalidState "replay signatures require an atomic cursor for their generation")
    cursor
  rejectIf (cursor.sourceKey != signature.parentSourceKey || cursor.generation !=
      signature.parentGeneration || cursor.sourceKind != .codex)
    (invalidState "replay signature owner does not match the batch cursor")

/-! The logical size of a row, which bounds batches. -/

def cursorLogicalBytes (cursor : SessionScanCursor) : Nat :=
  cursor.sourceKey.utf8ByteSize + cursor.fileIdentity.utf8ByteSize +
    cursor.modifiedAt.utf8ByteSize +
    ((cursor.resultCode.map fun code => code.asStr.utf8ByteSize).getD 0) +
    ((cursor.resultChangedAt.map String.utf8ByteSize).getD 0) +
    ((cursor.parentSourceKey.map String.utf8ByteSize).getD 0) +
    (encodeCheckpoint cursor.parserCheckpoint).utf8ByteSize + 128

def indexLogicalBytes (record : SessionIndexRecord) : Nat :=
  record.sessionKey.utf8ByteSize + record.sourceKey.utf8ByteSize + record.createdAt.utf8ByteSize +
    record.lastActiveAt.utf8ByteSize + 40

def usageLogicalBytes (record : SessionUsageRecord) : Nat :=
  record.usageId.utf8ByteSize + record.sessionKey.utf8ByteSize + record.sourceKey.utf8ByteSize +
    record.model.utf8ByteSize + record.occurredAt.utf8ByteSize + 64

def replayLogicalBytes (signature : CodexReplaySignature) : Nat :=
  signature.parentSourceKey.utf8ByteSize + signature.occurredAt.utf8ByteSize + 48

def supplementalLogicalBytes (metadata : RequestSupplementalMetadata) : Nat :=
  metadata.requestId.utf8ByteSize + metadata.attemptId.utf8ByteSize +
    metadata.traceId.utf8ByteSize + metadata.occurredAt.utf8ByteSize +
    metadata.routeFingerprint.utf8ByteSize + metadata.providerFingerprint.utf8ByteSize +
    ((metadata.accountFingerprint.map String.utf8ByteSize).getD 0) +
    metadata.retryDecision.asStr.utf8ByteSize + metadata.failoverDecision.asStr.utf8ByteSize +
    ((metadata.errorCode.map String.utf8ByteSize).getD 0) + 64

/-- `validate_supplemental_metadata`, which answers with the logical size. -/
def validateSupplementalMetadata (metadata : RequestSupplementalMetadata) : Result Nat := do
  validateCorrelationId "request identifier" metadata.requestId
  validateCorrelationId "attempt identifier" metadata.attemptId
  validateCorrelationId "trace identifier" metadata.traceId
  validateTimestamp "supplemental timestamp" metadata.occurredAt
  validateOpaqueKey "route fingerprint" metadata.routeFingerprint
  validateOpaqueKey "provider fingerprint" metadata.providerFingerprint
  metadata.accountFingerprint.toList.forM fun account =>
    validateOpaqueKey "account fingerprint" account
  metadata.errorCode.toList.forM fun code => validateStableCode "supplemental error code" code
  rejectIf (metadata.statusCode.any fun status => decide (status < 100) || decide (status > 599))
    (invalidState "HTTP status is outside 100 through 599")
  [("queue duration", metadata.queueMs), ("connect duration", metadata.connectMs),
    ("first-byte duration", metadata.firstByteMs), ("total duration", metadata.totalMs),
    ("request size", metadata.requestBytes), ("response size", metadata.responseBytes)].forM
      fun entry => toI64 entry.2 entry.1
  rejectIf (decide (supplementalLogicalBytes metadata > maxSupplementalRowBytes))
    (invalidState "supplemental metadata row exceeds 2 KiB")
  return supplementalLogicalBytes metadata

/-- `validate_session_batch`. -/
def validateSessionBatch (batch : SessionBatch) : Result Unit := do
  rejectIf (decide
      (batch.indexRecords.length + batch.usageRecords.length + batch.replaySignatures.length +
        batch.supplementalMetadata.length > maxSessionBatchRows)) .sessionBatchLimitExceeded
  match batch.cursor with
  | some cursor => validateCursor cursor
  | none =>
      rejectIf (!batch.indexRecords.isEmpty || !batch.usageRecords.isEmpty ||
        !batch.replaySignatures.isEmpty)
        (invalidState "Session-derived records require an atomic cursor")
  batch.indexRecords.forM (validateIndexRecord batch.cursor)
  batch.usageRecords.forM (validateUsageRecord batch.cursor)
  batch.replaySignatures.forM (validateReplaySignature batch.cursor)
  let sizes ← batch.supplementalMetadata.mapM validateSupplementalMetadata
  let bytes := (batch.cursor.map cursorLogicalBytes).getD 0 +
    (batch.indexRecords.map indexLogicalBytes).sum + (batch.usageRecords.map usageLogicalBytes).sum
    + (batch.replaySignatures.map replayLogicalBytes).sum + sizes.sum
  rejectIf (decide (bytes > maxSessionBatchBytes)) .sessionBatchLimitExceeded

end Wokcore.Storage.Sessions
