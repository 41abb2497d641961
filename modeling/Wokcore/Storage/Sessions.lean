import Wokcore.Lib.Table
import Wokcore.Storage.SessionRecords

/-!
# The Session tables (`state/store.rs`, `migrations/0003_session_diagnostics.sql`)

A source of Sessions has up to three generations: a current one that is read, a staging one that is
being built, and a retired one that waits to be removed. `begin_or_resume_candidate` opens a staging
generation, batches fill it, `promote_candidate` makes it the current one and
`cleanup_generation_batch` removes a staging or retired generation, a bounded number of rows at a
time.

Every call is one transaction: it is a function from tables to tables that may answer with an error,
and a call that fails leaves the tables as they were. A row holds the record it was written from. A
table is in the order of its row ids, which is the order of insertion. The checks and keys of the
schema are part of the model: an insertion of a key that is there, and a source whose generations
are not distinct, are errors of the database.
-/

set_option autoImplicit false

namespace Wokcore.Storage.Sessions

open Lib Outcome Table

/-- The tables. -/
structure SessionTables where
  sources : List SessionSourceState
  cursors : List SessionScanCursor
  index : List SessionIndexRecord
  usage : List SessionUsageRecord
  replay : List CodexReplaySignature
  supplemental : Supplements

def SessionTables.empty : SessionTables := ⟨[], [], [], [], [], []⟩

/-! ## Keys -/

/-- A generation of a source. -/
abbrev Owner := String × Nat

def SessionScanCursor.owner (cursor : SessionScanCursor) : Owner :=
    (cursor.sourceKey, cursor.generation)

def SessionIndexRecord.owner (record : SessionIndexRecord) : Owner :=
    (record.sourceKey, record.generation)

def SessionUsageRecord.owner (record : SessionUsageRecord) : Owner :=
    (record.sourceKey, record.generation)

def CodexReplaySignature.owner (signature : CodexReplaySignature) : Owner :=
  (signature.parentSourceKey, signature.parentGeneration)

def SessionIndexRecord.key (record : SessionIndexRecord) : Owner × String :=
    (record.owner, record.sessionKey)

def SessionUsageRecord.key (record : SessionUsageRecord) : Owner × String :=
    (record.owner, record.usageId)

def CodexReplaySignature.key (signature : CodexReplaySignature) : Owner × Nat :=
  (signature.owner, signature.tokenEventOrdinal)

def RequestSupplementalMetadata.key (metadata : RequestSupplementalMetadata) : String × String :=
  (metadata.requestId, metadata.attemptId)

/-- The pointer of a source for a state. -/
def SessionSourceState.pointer (source : SessionSourceState) : SessionGenerationState → Option Nat
  | .staging => source.stagingGeneration
  | .current => source.currentGeneration
  | .retired => source.retiredGeneration

/-! ## Statements -/

variable (t : SessionTables)

namespace SessionTables

def findSource (sourceKey : String) : Option SessionSourceState :=
  find SessionSourceState.sourceKey sourceKey t.sources

/-- `query_cursor`. -/
def queryCursor (owner : Owner) : Option SessionScanCursor :=
  find SessionScanCursor.owner owner t.cursors

/-- The checks of `session_sources` on the generations of a row. -/
def sourceChecks (source : SessionSourceState) : Bool :=
  (source.currentGeneration.isNone || source.currentGeneration != source.stagingGeneration) &&
  (source.currentGeneration.isNone || source.currentGeneration != source.retiredGeneration) &&
  (source.stagingGeneration.isNone || source.stagingGeneration != source.retiredGeneration) &&
  [source.currentGeneration, source.stagingGeneration, source.retiredGeneration].all
    fun generation =>
    generation.all fun generation => generation != 0

/-- An insertion or an update of a source. -/
def putSource (source : SessionSourceState) : Result SessionTables := do
  rejectIf (!sourceChecks source) .stateDatabase
  return { t with sources := put SessionSourceState.sourceKey source t.sources }

/-- `insert_cursor`. -/
def insertCursor (cursor : SessionScanCursor) : Result SessionTables := do
  rejectIf (t.queryCursor cursor.owner).isSome .stateDatabase
  return { t with cursors := t.cursors ++ [cursor] }

/-- `UPDATE session_scan_cursors SET generation_state = ... WHERE ... AND generation_state = ...`,
    of one row. -/
def moveCursor (owner : Owner) (old new : SessionGenerationState) : Result SessionTables := do
  rejectIf (!(t.queryCursor owner).any fun cursor => cursor.generationState == old)
    .candidateStateConflict
  return { t with
    cursors := modify SessionScanCursor.owner owner
      (fun cursor => { cursor with generationState := new }) t.cursors }

/-- `DELETE FROM session_scan_cursors`; the rows that refer to the cursor go with it. -/
def deleteCursor (owner : Owner) : SessionTables :=
  { t with
    cursors := delete SessionScanCursor.owner owner t.cursors
    index := t.index.filter fun record => !decide (record.owner = owner)
    usage := t.usage.filter fun record => !decide (record.owner = owner)
    replay := t.replay.filter fun signature => !decide (signature.owner = owner) }

end SessionTables

/-- Writing a record over what its key already holds: a record that is there stays, one that may
    replace it does. -/
def writeOver {ρ κ : Type} [DecidableEq ρ] [DecidableEq κ] (key : ρ → κ) (mayReplace : ρ → ρ → Bool)
    (recordKind : String) (record : ρ) (rows : List ρ) : Result (List ρ) :=
  match find key (key record) rows with
  | some existing =>
      if existing = record then .ok rows
      else do
        rejectIf (!mayReplace existing record) (.stableRecordConflict recordKind)
        return put key record rows
  | none => .ok (put key record rows)

/-- When `upsert_cursor` updates a cursor. -/
def cursorMayAdvance (existing cursor : SessionScanCursor) : Bool :=
  existing.sourceKind == cursor.sourceKind &&
  existing.generationState == cursor.generationState &&
  existing.fileIdentity == cursor.fileIdentity &&
  existing.headFingerprint == cursor.headFingerprint &&
  existing.parentSourceKey == cursor.parentSourceKey &&
  existing.parentGeneration == cursor.parentGeneration &&
  existing.replayBoundaryFingerprint == cursor.replayBoundaryFingerprint &&
  decide (cursor.observedSize ≥ existing.observedSize) &&
  decide (cursor.modifiedAt ≥ existing.modifiedAt) &&
  decide (cursor.completeByteOffset ≥ existing.completeByteOffset) &&
  decide (cursor.stableRecordOrdinal ≥ existing.stableRecordOrdinal) &&
  (decide (cursor.completeByteOffset > existing.completeByteOffset) ||
    decide (cursor.stableRecordOrdinal > existing.stableRecordOrdinal) ||
    cursor.parserCheckpoint == existing.parserCheckpoint) &&
  !(existing.resultCode.isSome && cursor.resultCode.isNone) &&
  !(existing.resultChangedAt.any fun old => cursor.resultChangedAt.any fun new =>
    decide (new < old)) &&
  (cursor.boundaryFingerprint == existing.boundaryFingerprint ||
    decide (cursor.completeByteOffset > existing.completeByteOffset) ||
    decide (cursor.stableRecordOrdinal > existing.stableRecordOrdinal))

/-- `upsert_cursor`. -/
def upsertCursor : SessionScanCursor → List SessionScanCursor → Result (List SessionScanCursor) :=
  writeOver SessionScanCursor.owner cursorMayAdvance "Session scan cursor"

/-- `write_index_record`. -/
def writeIndexRecord : SessionIndexRecord → List SessionIndexRecord →
    Result (List SessionIndexRecord) :=
  writeOver SessionIndexRecord.key (fun existing record =>
    existing.sourceKind == record.sourceKind && existing.createdAt == record.createdAt &&
    existing.availability == record.availability &&
    decide (record.lastActiveAt ≥ existing.lastActiveAt) &&
    decide (record.messageCount ≥ existing.messageCount) &&
    decide (record.usageEventCount ≥ existing.usageEventCount)) "Session index"

/-- `write_usage_record`. -/
def writeUsageRecord : SessionUsageRecord → List SessionUsageRecord →
    Result (List SessionUsageRecord) :=
  writeOver SessionUsageRecord.key
    (fun existing record => !decide (record.recordRevision ≤ existing.recordRevision))
    "Session usage"

/-- The rows of a batch that are not there yet, for tables whose rows never change. -/
def pendingRows {ρ κ : Type} [DecidableEq ρ] [DecidableEq κ] (key : ρ → κ) (recordKind : String)
    (rows : List ρ) :
    List ρ → List ρ → Result (List ρ)
  | pending, [] => .ok pending
  | pending, row :: rest =>
      match find key (key row) pending with
      | some previous =>
          if previous = row then pendingRows key recordKind rows pending rest
          else .error (.stableRecordConflict recordKind)
      | none =>
          match find key (key row) rows with
          | some existing =>
              if existing = row then pendingRows key recordKind rows pending rest
              else .error (.stableRecordConflict recordKind)
          | none => pendingRows key recordKind rows (pending ++ [row]) rest

/-- `pending_replay_signatures`. -/
def pendingReplaySignatures (rows : List CodexReplaySignature)
    (signatures : List CodexReplaySignature) :
    Result (List CodexReplaySignature) := do
  match signatures with
  | [] => return []
  | first :: _ =>
      let pending ← pendingRows CodexReplaySignature.key "Codex replay signature" rows [] signatures
      rejectIf (decide ((rows.filter fun row => decide (row.owner = first.owner)).length +
        pending.length > maxCodexReplaySignatures)) .replaySignatureLimitExceeded
      return pending

/-- `pending_supplemental_metadata` and `supplemental_batch_fits`: the rows to write, and the
    outcome. -/
def supplementalBatch (rows metadata : Supplements) : Result (Supplements × Nat × Nat) := do
  let pending ← pendingRows RequestSupplementalMetadata.key "request supplemental metadata" rows
    [] metadata
  if rows.length + pending.length ≤ maxSupplementalRows ∧
      (rows.map supplementalLogicalBytes).sum + (pending.map supplementalLogicalBytes).sum ≤
        maxSupplementalBytes then
    return (pending, pending.length, 0)
  else return ([], 0, pending.length)

structure SupplementalBatchOutcome where
  insertedRows : Nat
  droppedRows : Nat
deriving DecidableEq

inductive CandidateBeginOutcome where
  | started
  | resumed (cursor : SessionScanCursor)
  | cleanupRequired (generation : Nat)
deriving DecidableEq

structure CleanupBatchOutcome where
  deletedRows : Nat
  deletedBytes : Nat
  complete : Bool
deriving DecidableEq

namespace SessionTables

/-! ## Candidates -/

/-- Whether a candidate goes on where the staging generation stopped. -/
def resumes (persisted cursor : SessionScanCursor) : Bool :=
  persisted.sourceKind == cursor.sourceKind &&
  persisted.fileIdentity == cursor.fileIdentity &&
  persisted.headFingerprint == cursor.headFingerprint &&
  persisted.boundaryFingerprint == cursor.boundaryFingerprint &&
  persisted.parentSourceKey == cursor.parentSourceKey &&
  persisted.parentGeneration == cursor.parentGeneration &&
  persisted.replayBoundaryFingerprint == cursor.replayBoundaryFingerprint &&
  decide (cursor.observedSize ≥ persisted.completeByteOffset)

/-- `begin_or_resume_candidate`. -/
def beginOrResumeCandidate (cursor : SessionScanCursor) (t : SessionTables) :
    Result (SessionTables × CandidateBeginOutcome) := do
  validateCursor cursor
  rejectIf (cursor.generationState != .staging)
    (invalidState "a candidate cursor must have staging generation state")
  match t.findSource cursor.sourceKey with
  | none =>
      let t ← t.putSource
        { sourceKey := cursor.sourceKey
          sourceKind := cursor.sourceKind
          currentGeneration := none
          stagingGeneration := some cursor.generation
          retiredGeneration := none
          status := .undiscovered
          errorCode := none
          lastTransitionAt := none }
      let t ← t.insertCursor cursor
      return (t, .started)
  | some source =>
      rejectIf (source.sourceKind != cursor.sourceKind) (.stableRecordConflict "session source")
      match source.retiredGeneration, source.stagingGeneration with
      | some retired, _ => return (t, .cleanupRequired retired)
      | none, some staging =>
          if staging ≠ cursor.generation then return (t, .cleanupRequired staging)
          else
            let persisted ← okOr
              (.stateDatabaseCorrupt "staging generation points to a missing Session scan cursor")
              (t.queryCursor (cursor.sourceKey, staging))
            if resumes persisted cursor then return (t, .resumed persisted)
            else return (t, .cleanupRequired staging)
      | none, none =>
          rejectIf (source.currentGeneration == some cursor.generation) .candidateStateConflict
          let t ← t.putSource { source with stagingGeneration := some cursor.generation }
          let t ← t.insertCursor cursor
          return (t, .started)

/-! ## Batches -/

variable (batch : SessionBatch)

/-- The rows of a batch are written after its cursor. -/
def writeBatchRows (t : SessionTables) : Result (SessionTables × SupplementalBatchOutcome) := do
  let index ← batch.indexRecords.foldlM (fun rows record => writeIndexRecord record rows) t.index
  let usage ← batch.usageRecords.foldlM (fun rows record => writeUsageRecord record rows) t.usage
  let pending ← pendingReplaySignatures t.replay batch.replaySignatures
  let (supplemental, inserted, dropped) ←
    supplementalBatch t.supplemental batch.supplementalMetadata
  return ({ t with index, usage, replay := t.replay ++ pending,
                   supplemental := t.supplemental ++ supplemental }, ⟨inserted, dropped⟩)

/-- The cursor of a batch: it is that of the generation that its state points to. -/
def writeBatchCursor (requiredState : Option SessionGenerationState) (cursor : SessionScanCursor)
    (t : SessionTables) :
    Result SessionTables := do
  let state := requiredState.getD cursor.generationState
  rejectIf (state == .retired) (invalidState "retired generations are read-only")
  let pointed := ((t.findSource cursor.sourceKey).filter fun source =>
    source.sourceKind == cursor.sourceKind).bind fun source => source.pointer state
  rejectIf (pointed != some cursor.generation) .candidateStateConflict
  let cursors ← upsertCursor cursor t.cursors
  return { t with cursors }

/-- `commit_session_batch_internal`. -/
def commitSessionBatchInternal (requiredState : Option SessionGenerationState)
    (t : SessionTables) : Result (SessionTables × SupplementalBatchOutcome) := do
  validateSessionBatch batch
  if batch.cursor.isNone ∧ batch.indexRecords.isEmpty ∧ batch.usageRecords.isEmpty ∧
      batch.replaySignatures.isEmpty ∧ batch.supplementalMetadata.isEmpty then return (t, ⟨0, 0⟩)
  else
    match batch.cursor with
    | none => writeBatchRows batch t
    | some cursor =>
        let t ← t.writeBatchCursor requiredState cursor
        writeBatchRows batch t

/-- `commit_session_batch`. -/
def commitSessionBatch (t : SessionTables) : Result (SessionTables × SupplementalBatchOutcome) :=
  t.commitSessionBatchInternal batch none

/-- `commit_candidate_batch`. -/
def commitCandidateBatch (t : SessionTables) :
    Result (SessionTables × SupplementalBatchOutcome) := do
  let cursor ← okOr (invalidState "a candidate batch requires a cursor") batch.cursor
  rejectIf (cursor.generationState != .staging)
    (invalidState "a candidate batch cursor must have staging generation state")
  t.commitSessionBatchInternal batch (some .staging)

/-! ## Transitions of a source -/

/-- `promote_candidate`. -/
def promoteCandidate (sourceKey : String) (generation : Nat) (transitionAt : String)
    (t : SessionTables) :
    Result SessionTables := do
  validateOpaqueKey "source key" sourceKey
  validateTimestamp "transition timestamp" transitionAt
  let source ← okOr .candidateStateConflict (t.findSource sourceKey)
  rejectIf (source.stagingGeneration != some generation || source.retiredGeneration.isSome)
    .candidateStateConflict
  rejectIf (!(t.queryCursor (sourceKey, generation)).any fun cursor =>
    cursor.generationState == .staging) .candidateStateConflict
  let t ← match source.currentGeneration with
    | some current => t.moveCursor (sourceKey, current) .current .retired
    | none => pure t
  let t ← t.moveCursor (sourceKey, generation) .staging .current
  t.putSource { source with
    currentGeneration := some generation
    stagingGeneration := none
    retiredGeneration := source.currentGeneration
    status := .available
    errorCode := none
    lastTransitionAt := some transitionAt }

/-- `failed_source_status`. -/
def failedSourceStatus (source : SessionSourceState) (errorCode : SessionSourceErrorCode) :
    SessionSourceStatus :=
  if source.currentGeneration.isSome then .stale
  else if errorCode.isResourceLimit then .resourceLimited
  else .unavailable

/-- `unavailable_source_status`. -/
def unavailableSourceStatus (source : SessionSourceState) : SessionSourceStatus :=
  if source.currentGeneration.isSome then .stale else .unavailable

/-- A change of what is known of a source; one that is known already is not written. -/
def setStatus (source : SessionSourceState) (status : SessionSourceStatus)
    (errorCode : Option SessionSourceErrorCode) (transitionAt : String) (t : SessionTables) :
    Result (SessionTables × Bool) := do
  if source.status = status ∧ source.errorCode = errorCode then return (t, false)
  else
    let t ← t.putSource { source with status, errorCode, lastTransitionAt := some transitionAt }
    return (t, true)

/-- `fail_candidate`. -/
def failCandidate (sourceKey : String) (generation : Nat) (errorCode : SessionSourceErrorCode)
    (transitionAt : String) (t : SessionTables) : Result (SessionTables × Bool) := do
  validateOpaqueKey "source key" sourceKey
  validateGeneration generation
  validateTimestamp "source transition timestamp" transitionAt
  let source ← okOr .candidateStateConflict (t.findSource sourceKey)
  rejectIf (source.currentGeneration != some generation && source.stagingGeneration !=
    some generation) .candidateStateConflict
  t.setStatus source (failedSourceStatus source errorCode) (some errorCode) transitionAt

/-- `record_source_success`. -/
def recordSourceSuccess (sourceKey : String) (generation : Nat) (transitionAt : String)
    (t : SessionTables) :
    Result (SessionTables × Bool) := do
  validateOpaqueKey "source key" sourceKey
  validateGeneration generation
  validateTimestamp "source transition timestamp" transitionAt
  let source ← okOr .candidateStateConflict (t.findSource sourceKey)
  rejectIf (source.currentGeneration != some generation) .candidateStateConflict
  t.setStatus source .available none transitionAt

/-- `mark_source_unavailable`. -/
def markSourceUnavailable (sourceKey : String) (errorCode : SessionSourceErrorCode)
    (transitionAt : String) (t : SessionTables) : Result (SessionTables × Bool) := do
  validateOpaqueKey "source key" sourceKey
  validateTimestamp "source transition timestamp" transitionAt
  rejectIf errorCode.isResourceLimit
    (invalidState "an unavailable source cannot use a resource-limit error code")
  let source ← okOr .candidateStateConflict (t.findSource sourceKey)
  t.setStatus source (unavailableSourceStatus source) (some errorCode) transitionAt

/-! ## Cleanup -/

/-- A row of one of the three tables that cleanup goes through, by its key. -/
inductive RowId where
  | index (key : Owner × String)
  | usage (key : Owner × String)
  | replay (key : Owner × Nat)
deriving DecidableEq

/-- The rows of a generation, in the order in which they are removed, with their logical sizes. -/
def rowsOf (owner : Owner) : List (RowId × Nat) :=
  ((t.index.filter fun record => decide (record.owner = owner)).map fun record =>
      (.index record.key, indexLogicalBytes record)) ++
    ((t.usage.filter fun record => decide (record.owner = owner)).map fun record =>
      (.usage record.key, usageLogicalBytes record)) ++
    ((t.replay.filter fun signature => decide (signature.owner = owner)).map fun signature =>
      (.replay signature.key, replayLogicalBytes signature))

def deleteRow : RowId → SessionTables
  | .index key => { t with index := delete SessionIndexRecord.key key t.index }
  | .usage key => { t with usage := delete SessionUsageRecord.key key t.usage }
  | .replay key => { t with replay := delete CodexReplaySignature.key key t.replay }

/-- The loop that removes rows: the rows that fit into the limit, up to the first that does not. -/
def deleteRows (maxBytes : Nat) : List (RowId × Nat) → SessionTables → Nat → Nat →
    SessionTables × Nat × Nat
  | [], t, rows, bytes => (t, rows, bytes)
  | (row, size) :: rest, t, rows, bytes =>
      if bytes + size > maxBytes then (t, rows, bytes)
      else deleteRows maxBytes rest (t.deleteRow row) (rows + 1) (bytes + size)

/-- The end of a cleanup: the cursor is removed, and the pointer of the source. -/
def closeGeneration (source : SessionSourceState) (generation : Nat) : Result SessionTables :=
  (t.deleteCursor (source.sourceKey, generation)).putSource
    (if source.stagingGeneration = some generation then { source with stagingGeneration := none }
     else { source with retiredGeneration := none })

/-- `cleanup_generation_batch`. -/
def cleanupGenerationBatch (sourceKey : String) (generation maxRows maxBytes : Nat)
    (t : SessionTables) :
    Result (SessionTables × CleanupBatchOutcome) := do
  validateOpaqueKey "source key" sourceKey
  validateGeneration generation
  rejectIf (maxRows == 0 || decide (maxRows > maxSessionBatchRows) || maxBytes == 0 ||
    decide (maxBytes > maxSessionBatchBytes)) .sessionBatchLimitExceeded
  match t.findSource sourceKey with
  | none => return (t, ⟨0, 0, true⟩)
  | some source =>
      rejectIf (source.currentGeneration == some generation ||
        (source.stagingGeneration != some generation && source.retiredGeneration !=
        some generation)) .candidateStateConflict
      let (t, deletedRows, deletedBytes) :=
        deleteRows maxBytes ((t.rowsOf (sourceKey, generation)).take maxRows) t 0 0
      let cursorBytes := (t.queryCursor (sourceKey, generation)).map cursorLogicalBytes
      if (t.rowsOf (sourceKey, generation)).isEmpty ∧ deletedRows < maxRows ∧
          (cursorBytes.all fun bytes => decide (deletedBytes + bytes ≤ maxBytes)) = true then
        let t ← t.closeGeneration source generation
        return (t, ⟨deletedRows + cursorBytes.elim 0 fun _ => 1, deletedBytes + cursorBytes.getD 0,
          true⟩)
      else return (t, ⟨deletedRows, deletedBytes, false⟩)

end SessionTables

end Wokcore.Storage.Sessions
