import Wokcore.Storage.Sessions

/-!
# What a call does to the Session tables

`Operation.run` is a call, and `Change` says once what a call that succeeds does to the tables:
nothing, a new status of a source, a new generation, the rows of a batch, a promotion, the removal
of rows, the end of a generation. `change_of_run` reads this off the calls; the invariants of the
tables are then proved from `Change` alone.
-/

set_option autoImplicit false

namespace Wokcore.Storage.Sessions

open Lib Outcome SessionTables Table SessionSourceState CodexReplaySignature List

/-- A call of the store on the Session tables. -/
inductive Operation where
  | beginOrResumeCandidate (cursor : SessionScanCursor)
  | commitCandidateBatch (batch : SessionBatch)
  | commitSessionBatch (batch : SessionBatch)
  | promoteCandidate (sourceKey : String) (generation : Nat) (transitionAt : String)
  | failCandidate (sourceKey : String) (generation : Nat) (errorCode : SessionSourceErrorCode)
    (transitionAt : String)
  | recordSourceSuccess (sourceKey : String) (generation : Nat) (transitionAt : String)
  | markSourceUnavailable (sourceKey : String) (errorCode : SessionSourceErrorCode)
    (transitionAt : String)
  | cleanupGenerationBatch (sourceKey : String) (generation maxRows maxBytes : Nat)

namespace Operation

/-- The tables after a call. -/
def run : Operation → SessionTables → Result SessionTables
  | .beginOrResumeCandidate cursor, t => (t.beginOrResumeCandidate cursor).map Prod.fst
  | .commitCandidateBatch batch, t => (t.commitCandidateBatch batch).map Prod.fst
  | .commitSessionBatch batch, t => (t.commitSessionBatch batch).map Prod.fst
  | .promoteCandidate sourceKey generation transitionAt, t =>
    t.promoteCandidate sourceKey generation transitionAt
  | .failCandidate sourceKey generation errorCode transitionAt, t =>
      (t.failCandidate sourceKey generation errorCode transitionAt).map Prod.fst
  | .recordSourceSuccess sourceKey generation transitionAt, t =>
      (t.recordSourceSuccess sourceKey generation transitionAt).map Prod.fst
  | .markSourceUnavailable sourceKey errorCode transitionAt, t =>
      (t.markSourceUnavailable sourceKey errorCode transitionAt).map Prod.fst
  | .cleanupGenerationBatch sourceKey generation maxRows maxBytes, t =>
      (t.cleanupGenerationBatch sourceKey generation maxRows maxBytes).map Prod.fst

/-- The batch that a call commits. -/
def batch? : Operation → Option SessionBatch
  | .commitCandidateBatch batch => some batch
  | .commitSessionBatch batch => some batch
  | _ => none

end Operation

/-! ## Changes -/

/-- The rows of a generation. -/
structure GenerationRows where
  index : List SessionIndexRecord
  usage : List SessionUsageRecord
  replay : List CodexReplaySignature
deriving DecidableEq

section

variable (t : SessionTables)

namespace SessionTables

def rowsAt (owner : Owner) : GenerationRows where
  index := t.index.filter fun record => decide (record.owner = owner)
  usage := t.usage.filter fun record => decide (record.owner = owner)
  replay := t.replay.filter fun signature => decide (signature.owner = owner)

/-- The keys of the schema. -/
structure Keyed : Prop where
  sources : (t.sources.map sourceKey).Nodup
  cursors : (t.cursors.map SessionScanCursor.owner).Nodup
  index : (t.index.map SessionIndexRecord.key).Nodup
  usage : (t.usage.map SessionUsageRecord.key).Nodup
  replay : (t.replay.map key).Nodup

/-- The tables after a batch. -/
def written (cursor : SessionScanCursor) (batch : SessionBatch)
    (supplemental : Supplements) : SessionTables where
  sources := t.sources
  cursors := put SessionScanCursor.owner cursor t.cursors
  index := putAll SessionIndexRecord.key t.index batch.indexRecords
  usage := putAll SessionUsageRecord.key t.usage batch.usageRecords
  replay := putAll key t.replay batch.replaySignatures
  supplemental := supplemental

/-- The tables with a generation opened. -/
def opened (source : SessionSourceState) (cursor : SessionScanCursor) : SessionTables :=
  { t with sources := put sourceKey source t.sources, cursors := t.cursors ++ [cursor] }

/-- Rows of one generation are gone, and nothing else has changed. -/
structure Removed (owner : Owner) (t t' : SessionTables) : Prop where
  sources : t'.sources = t.sources
  cursors : t'.cursors = t.cursors
  index : t'.index.Sublist t.index
  usage : t'.usage.Sublist t.usage
  replay : t'.replay.Sublist t.replay
  others : ∀ other, other ≠ owner → t'.rowsAt other = t.rowsAt other

end SessionTables

/-- A source for which a generation may be opened: it is new, or it only has a current one. -/
def Openable (source : SessionSourceState) : Prop :=
  ((∀ other ∈ t.sources, other.sourceKey ≠ source.sourceKey) ∧ source.currentGeneration = none) ∨
    ∃ old ∈ t.sources, old.sourceKey = source.sourceKey ∧ old.stagingGeneration = none ∧
      old.retiredGeneration = none ∧ source.currentGeneration = old.currentGeneration

/-- What a source becomes when a generation is opened. -/
structure Opens (cursor : SessionScanCursor) (source : SessionSourceState) : Prop where
  sourceKey : source.sourceKey = cursor.sourceKey
  staging : source.stagingGeneration = some cursor.generation
  retired : source.retiredGeneration = none
  checks : sourceChecks source = true
  state : cursor.generationState = .staging
  absent : ∀ other ∈ t.cursors, other.owner ≠ cursor.owner
  before : Openable t source

/-- A batch for a generation that its source points to, and whose cursor does not go back. -/
structure Commits (cursor : SessionScanCursor) (batch : SessionBatch) : Prop where
  under : batch.cursor = some cursor
  pointed : ∃ source ∈ t.sources, source.sourceKey = cursor.sourceKey ∧
    source.pointer cursor.generationState = some cursor.generation
  advance : ∀ existing ∈ t.cursors, existing.owner = cursor.owner →
    existing = cursor ∨ cursorMayAdvance existing cursor = true
  index : ∀ record ∈ batch.indexRecords, record.owner = cursor.owner
  usage : ∀ record ∈ batch.usageRecords, record.owner = cursor.owner
  replay : ∀ signature ∈ batch.replaySignatures, signature.owner = cursor.owner

/-- A generation that may be cleaned up. -/
structure Disposable (source : SessionSourceState) (generation : Nat) : Prop where
  mem : source ∈ t.sources
  notCurrent : source.currentGeneration ≠ some generation
  pointed : source.stagingGeneration = some generation ∨ source.retiredGeneration = some generation

/-- A source whose staging generation is promoted. -/
def SessionSourceState.promoted (source : SessionSourceState) (generation : Nat)
    (transitionAt : String) :
    SessionSourceState :=
  { source with
    currentGeneration := some generation
    stagingGeneration := none
    retiredGeneration := source.currentGeneration
    status := .available
    errorCode := none
    lastTransitionAt := some transitionAt }

/-- The cursor of the current generation, if there is one, becomes that of the retired one. -/
def MovesCurrent (source : SessionSourceState) (t₁ : SessionTables) : Prop :=
  (source.currentGeneration = none ∧ t₁ = t) ∨ ∃ current, source.currentGeneration = some current ∧
    t.moveCursor (source.sourceKey, current) .current .retired = .ok t₁

end

/-- The source after the end of a cleanup, as `closeGeneration` writes it. -/
def SessionSourceState.closed (source : SessionSourceState) (generation : Nat) :
    SessionSourceState :=
  if source.stagingGeneration = some generation then { source with stagingGeneration := none }
  else { source with retiredGeneration := none }

/-- **What a call does to the tables.** -/
inductive Change : Operation → SessionTables → SessionTables → Prop where
  | idle (op : Operation) (t : SessionTables) (supplemental : Supplements) :
      Change op t { t with supplemental }
  | status (op : Operation) (t : SessionTables) {source : SessionSourceState}
      (h : source ∈ t.sources) (status : SessionSourceStatus)
      (errorCode : Option SessionSourceErrorCode) (lastTransitionAt : Option String) :
      Change op t { t with
        sources := put sourceKey { source with status, errorCode, lastTransitionAt } t.sources }
  | opened {t : SessionTables} {cursor : SessionScanCursor} {source : SessionSourceState}
      (h : Opens t cursor source) :
      Change (.beginOrResumeCandidate cursor) t (t.opened source cursor)
  | committed {op : Operation} {t : SessionTables} {cursor : SessionScanCursor}
      {batch : SessionBatch} (hop : op.batch? = some batch) (h : Commits t cursor batch)
      (supplemental : Supplements) :
      Change op t (t.written cursor batch supplemental)
  | promoted {t t₁ t₂ : SessionTables} {source : SessionSourceState} {generation : Nat}
      (transitionAt : String) (h : source ∈ t.sources)
      (hstaging : source.stagingGeneration = some generation)
      (hretired : source.retiredGeneration = none) (hcurrent : MovesCurrent t source t₁)
      (hmove : t₁.moveCursor (source.sourceKey, generation) .staging .current = .ok t₂) :
      Change (.promoteCandidate source.sourceKey generation transitionAt) t { t₂ with
        sources := put sourceKey (source.promoted generation transitionAt) t₂.sources }
  | removed {t t' : SessionTables} {source : SessionSourceState} {generation maxRows maxBytes : Nat}
      (h : Disposable t source generation) (hrows : Removed (source.sourceKey, generation) t t') :
      Change (.cleanupGenerationBatch source.sourceKey generation maxRows maxBytes) t t'
  | closed {t t₁ : SessionTables} {source : SessionSourceState} {generation maxRows maxBytes : Nat}
      (h : Disposable t source generation) (hrows : Removed (source.sourceKey, generation) t t₁)
      (hempty : t₁.rowsAt (source.sourceKey, generation) = ⟨[], [], []⟩) :
      Change (.cleanupGenerationBatch source.sourceKey generation maxRows maxBytes) t
        { t₁.deleteCursor (source.sourceKey, generation) with
          sources := put sourceKey (source.closed generation) t₁.sources }

/-! ## Statements that succeed -/

section Statements

variable {ρ κ : Type} [DecidableEq ρ] [DecidableEq κ] {key : ρ → κ} {mayReplace : ρ → ρ → Bool}
  {kind : String} {rows rows' : List ρ} {record : ρ}

/-- A record that is written is in the table afterwards, and it could replace what was there. -/
theorem writeOver_eq_ok (hn : (rows.map key).Nodup)
    (h : writeOver key mayReplace kind record rows = .ok rows') :
    rows' = put key record rows ∧
      ∀ existing ∈ rows, key existing = key record → existing = record ∨
      mayReplace existing record = true := by
  unfold writeOver at h
  split at h
  · next existing hfind =>
    obtain ⟨hmem, hkey⟩ := mem_of_find hfind
    have hunique : ∀ other ∈ rows, key other = key record → other = existing := by
      intro other hother hsame
      exact inj_on_of_nodup_map hn hother hmem (hsame.trans hkey.symm)
    split at h
    · next hsame =>
      cases h
      subst hsame
      exact ⟨(put_of_mem hn hmem).symm, fun other hother hk => .inl (hunique other hother hk)⟩
    · obtain ⟨_, hmay, hput⟩ := do_eq_ok.mp h
      cases hput
      refine ⟨rfl, fun other hother hk => .inr ?_⟩
      rw [hunique other hother hk]
      simpa using rejectIf_eq_ok.mp hmay
  · next hnone =>
    cases h
    exact ⟨rfl, fun other hother hk => absurd hk (find_eq_none.mp hnone other hother)⟩

theorem foldlM_writeOver {records : List ρ} (hn : (rows.map key).Nodup)
    (h : records.foldlM (fun rows record => writeOver key mayReplace kind record rows) rows =
    .ok rows') :
    rows' = putAll key rows records := by
  induction records generalizing rows with
  | nil =>
    cases h
    rfl
  | cons record records ih =>
    rw [foldlM_cons, do_eq_ok] at h
    obtain ⟨rows₁, hwrite, hrest⟩ := h
    obtain ⟨rfl, -⟩ := writeOver_eq_ok hn hwrite
    exact ih (nodup_put hn) hrest

/-- The rows that are added are those that are put into the table. -/
theorem pendingRows_eq_ok {pending pending' new : List ρ} (hn : ((rows ++ pending).map key).Nodup)
    (h : pendingRows key kind rows pending new = .ok pending') :
    rows ++ pending' = putAll key (rows ++ pending) new := by
  induction new generalizing pending with
  | nil =>
    cases h
    rfl
  | cons row new ih =>
    have hkept : row ∈ rows ++ pending → pendingRows key kind rows pending new = .ok pending' →
        rows ++ pending' = putAll key (put key row (rows ++ pending)) new := by
      intro hmem hrest
      rw [put_of_mem hn hmem]
      exact ih hn hrest
    show rows ++ pending' = putAll key (put key row (rows ++ pending)) new
    rw [pendingRows] at h
    split at h
    · next previous hfind =>
      split at h
      · next hsame => exact hkept (hsame ▸ mem_append_right _ (mem_of_find hfind).1) h
      · cases h
    · next hnone =>
      split at h
      · next existing hfind =>
        split at h
        · next hsame => exact hkept (hsame ▸ mem_append_left _ (mem_of_find hfind).1) h
        · cases h
      · next habsent =>
        have hnew : find key (key row) (rows ++ pending) = none := by
          rw [find_eq_none]
          intro r hr
          rcases mem_append.mp hr with hr | hr
          · exact find_eq_none.mp habsent r hr
          · exact find_eq_none.mp hnone r hr
        rw [put_of_find_none hnew, append_assoc]
        refine ih ?_ h
        rw [← append_assoc]
        exact nodup_concat hn (find_eq_none.mp hnew)

end Statements

/-! ## Calls that succeed -/

section Calls

variable {t t' : SessionTables} {sourceKey : String} {source : SessionSourceState}
  {cursor : SessionScanCursor} {generation maxRows maxBytes : Nat} {batch : SessionBatch}
  {outcome : SupplementalBatchOutcome} {requiredState : Option SessionGenerationState}
  {transitionAt : String} {op : Operation}

theorem mem_of_findSource (h : t.findSource sourceKey = some source) :
    source ∈ t.sources ∧ source.sourceKey = sourceKey := mem_of_find h

theorem putSource_eq_ok (h : t.putSource source = .ok t') :
    sourceChecks source = true ∧
      t' = { t with sources := put SessionSourceState.sourceKey source t.sources } := by
  obtain ⟨_, hchecks, hput⟩ := do_eq_ok.mp h
  cases hput
  exact ⟨by simpa using rejectIf_eq_ok.mp hchecks, rfl⟩

theorem insertCursor_eq_ok (h : t.insertCursor cursor = .ok t') :
    (∀ other ∈ t.cursors, other.owner ≠ cursor.owner) ∧
    t' = { t with cursors := t.cursors ++ [cursor] } := by
  obtain ⟨_, habsent, hinsert⟩ := do_eq_ok.mp h
  cases hinsert
  refine ⟨find_eq_none.mp ?_, rfl⟩
  simpa [queryCursor] using rejectIf_eq_ok.mp habsent

/-- Opening a generation of a source. -/
theorem opens_of_begin {t₁ : SessionTables} (hput : t.putSource source = .ok t₁)
    (hinsert : t₁.insertCursor cursor = .ok t') (hkey : source.sourceKey = cursor.sourceKey)
    (hstaging : source.stagingGeneration = some cursor.generation)
    (hretired : source.retiredGeneration = none) (hstate : cursor.generationState = .staging)
    (hbefore : Openable t source) : Opens t cursor source ∧ t' = t.opened source cursor := by
  obtain ⟨hchecks, rfl⟩ := putSource_eq_ok hput
  obtain ⟨habsent, rfl⟩ := insertCursor_eq_ok hinsert
  exact ⟨⟨hkey, hstaging, hretired, hchecks, hstate, habsent, hbefore⟩, rfl⟩

/-- A candidate is started, and a generation is opened, or the tables stay. -/
theorem begin_eq_ok {outcome : CandidateBeginOutcome}
    (h : t.beginOrResumeCandidate cursor = .ok (t', outcome)) :
    (outcome = .started ∧ ∃ source, Opens t cursor source ∧ t' = t.opened source cursor) ∨
      (outcome ≠ .started ∧ t' = t) := by
  simp only [beginOrResumeCandidate, do_ok, rejectIf_eq_ok] at h
  obtain ⟨-, hstate, h⟩ := h
  have hstaging : cursor.generationState = .staging := by simpa using hstate
  split at h
  · next hnone =>
    simp only [do_ok, Prod.mk.injEq] at h
    obtain ⟨t₁, hput, t₂, hinsert, rfl, rfl⟩ := h
    have habsent : ∀ other ∈ t.sources, other.sourceKey ≠ cursor.sourceKey := find_eq_none.mp hnone
    exact .inl ⟨rfl, _, opens_of_begin hput hinsert rfl rfl rfl hstaging (.inl ⟨habsent, rfl⟩)⟩
  · next source hsource =>
    obtain ⟨hmem, hkey⟩ := mem_of_findSource hsource
    obtain ⟨_, -, h⟩ := do_eq_ok.mp h
    split at h
    · cases h
      exact .inr ⟨by simp, rfl⟩
    · split at h
      · cases h
        exact .inr ⟨by simp, rfl⟩
      · obtain ⟨persisted, -, h⟩ := do_eq_ok.mp h
        split at h
        · cases h
          exact .inr ⟨by simp, rfl⟩
        · cases h
          exact .inr ⟨by simp, rfl⟩
    · next hretired hnostaging =>
      simp only [do_ok, rejectIf_eq_ok, Prod.mk.injEq] at h
      obtain ⟨-, t₁, hput, t₂, hinsert, rfl, rfl⟩ := h
      exact .inl ⟨rfl, _, opens_of_begin hput hinsert hkey rfl hretired hstaging
        (.inr ⟨source, hmem, rfl, hnostaging, hretired, rfl⟩)⟩

theorem change_of_begin {outcome : CandidateBeginOutcome}
    (h : t.beginOrResumeCandidate cursor = .ok (t', outcome)) :
    Change (.beginOrResumeCandidate cursor) t t' := by
  rcases begin_eq_ok h with ⟨-, source, hopens, rfl⟩ | ⟨-, rfl⟩
  · exact .opened hopens
  · exact .idle _ t' _

theorem owner_of_validate {sourceKind : SessionSourceKind} {u : Unit}
    (h : validateRecordOwner sourceKey generation sourceKind (some cursor) = .ok u) :
    (sourceKey, generation) = cursor.owner := by
  simp only [validateRecordOwner, okOr, do_eq_ok, Except.ok.injEq, exists_eq_left', rejectIf_eq_ok,
    Bool.or_eq_false_iff, bne_eq_false_iff_eq] at h
  rw [← h.1.1, ← h.1.2]
  rfl

/-- The records of a batch belong to its cursor. -/
theorem owners_of_validate {u : Unit} (hcursor : batch.cursor = some cursor)
    (h : validateSessionBatch batch = .ok u) :
    (∀ record ∈ batch.indexRecords, record.owner = cursor.owner) ∧
    (∀ record ∈ batch.usageRecords, record.owner = cursor.owner) ∧
    ∀ signature ∈ batch.replaySignatures, signature.owner = cursor.owner := by
  simp only [validateSessionBatch, hcursor, do_ok, forM_eq_ok] at h
  obtain ⟨-, -, hindex, husage, hreplay, -⟩ := h
  refine ⟨?_, ?_, ?_⟩
  · intro record hrecord
    have hvalid := hindex record hrecord
    simp only [validateIndexRecord, do_ok] at hvalid
    obtain ⟨-, -, -, -, -, -, -, howner⟩ := hvalid
    exact owner_of_validate howner
  · intro record hrecord
    have hvalid := husage record hrecord
    simp only [validateUsageRecord, do_ok] at hvalid
    obtain ⟨-, -, -, -, -, -, -, -, howner⟩ := hvalid
    exact owner_of_validate howner
  · intro signature hsignature
    have hvalid := hreplay signature hsignature
    simp only [validateReplaySignature, okOr, do_ok, Except.ok.injEq, exists_eq_left',
      rejectIf_eq_ok, Bool.or_eq_false_iff, bne_eq_false_iff_eq] at hvalid
    obtain ⟨-, -, -, -, -, hkeys, -⟩ := hvalid
    rw [owner, ← hkeys.1, ← hkeys.2]
    rfl

theorem pendingReplaySignatures_eq_ok {rows signatures pending : List CodexReplaySignature}
    (hn : (rows.map key).Nodup) (h : pendingReplaySignatures rows signatures = .ok pending) :
    rows ++ pending = putAll key rows signatures := by
  unfold pendingReplaySignatures at h
  split at h
  · cases h
    exact append_nil _
  · next first rest =>
    simp only [do_ok, rejectIf_eq_ok] at h
    obtain ⟨_, hpending, -, rfl⟩ := h
    have hrows := pendingRows_eq_ok (by rw [append_nil]; exact hn) hpending
    rwa [append_nil] at hrows

/-- The rows of a batch. -/
theorem writeBatchRows_eq_ok (hk : t.Keyed) (h : t.writeBatchRows batch = .ok (t', outcome)) :
      ∃ supplemental, t' = { t with
        index := putAll SessionIndexRecord.key t.index batch.indexRecords
        usage := putAll SessionUsageRecord.key t.usage batch.usageRecords
        replay := putAll key t.replay batch.replaySignatures
        supplemental } := by
  simp only [writeBatchRows, do_ok, Prod.exists, Prod.mk.injEq] at h
  obtain ⟨index, hindex, usage, husage, pending, hpending, supplemental, inserted, dropped, -,
    rfl, -⟩ := h
  refine ⟨t.supplemental ++ supplemental, ?_⟩
  rw [foldlM_writeOver hk.index hindex, foldlM_writeOver hk.usage husage,
    pendingReplaySignatures_eq_ok hk.replay hpending]

/-- A batch with a cursor. -/
theorem commitInternal_eq_ok (hk : t.Keyed) (hcursor : batch.cursor = some cursor)
    (hstate : requiredState.getD cursor.generationState = cursor.generationState)
    (h : t.commitSessionBatchInternal batch requiredState = .ok (t', outcome)) :
    Commits t cursor batch ∧ ∃ supplemental, t' = t.written cursor batch supplemental := by
  simp only [commitSessionBatchInternal, hcursor, Option.isNone_some, Bool.false_eq_true, false_and,
    if_false, do_eq_ok] at h
  obtain ⟨_, hvalid, t₁, hwrite, hrows⟩ := h
  simp only [writeBatchCursor, hstate, do_ok, rejectIf_eq_ok, bne_eq_false_iff_eq,
    Option.bind_eq_some_iff, Option.filter_eq_some_iff] at hwrite
  obtain ⟨-, ⟨source, ⟨hsource, -⟩, hpointer⟩, cursors, hupsert, rfl⟩ := hwrite
  obtain ⟨rfl, hadvance⟩ := writeOver_eq_ok hk.cursors hupsert
  obtain ⟨hindex, husage, hreplay⟩ := owners_of_validate hcursor hvalid
  obtain ⟨hmem, hkey⟩ := mem_of_findSource hsource
  have hk₁ : Keyed { t with cursors := put SessionScanCursor.owner cursor t.cursors } :=
    { hk with cursors := nodup_put hk.cursors }
  obtain ⟨supplemental, rfl⟩ := writeBatchRows_eq_ok hk₁ hrows
  exact ⟨⟨hcursor, ⟨source, hmem, hkey, hpointer⟩, hadvance, hindex, husage, hreplay⟩,
    supplemental, rfl⟩

theorem change_of_commit (hk : t.Keyed) (hop : op.batch? = some batch)
    (hstate : ∀ cursor, batch.cursor = some cursor → requiredState.getD cursor.generationState =
    cursor.generationState) (h : t.commitSessionBatchInternal batch requiredState =
      .ok (t', outcome)) : Change op t t' := by
  cases hcursor : batch.cursor with
  | some cursor =>
    obtain ⟨hcommits, supplemental, rfl⟩ := commitInternal_eq_ok hk hcursor
      (hstate cursor hcursor) h
    exact .committed hop hcommits supplemental
  -- Without a cursor a batch has supplemental metadata only.
  | none =>
    simp only [commitSessionBatchInternal, do_eq_ok, hcursor] at h
    obtain ⟨_, hvalid, h⟩ := h
    split at h
    · cases h
      exact .idle op t _
    · obtain ⟨supplemental, rfl⟩ := writeBatchRows_eq_ok hk h
      simp only [validateSessionBatch, hcursor, do_ok, rejectIf_eq_ok, Bool.or_eq_false_iff,
        Bool.not_eq_false', List.isEmpty_iff] at hvalid
      obtain ⟨-, ⟨⟨hindex, husage⟩, hreplay⟩, -⟩ := hvalid
      rw [hindex, husage, hreplay]
      exact .idle op t supplemental

/-- A batch of a candidate is one under its cursor. -/
theorem commitCandidate_eq_ok (hk : t.Keyed)
    (h : t.commitCandidateBatch batch = .ok (t', outcome)) :
    ∃ cursor, cursor.generationState = .staging ∧ Commits t cursor batch ∧
      ∃ supplemental, t' = t.written cursor batch supplemental := by
  simp only [commitCandidateBatch, do_ok, okOr_eq_ok, rejectIf_eq_ok, bne_eq_false_iff_eq] at h
  obtain ⟨cursor, hcursor, hstaging, h⟩ := h
  refine ⟨cursor, hstaging, commitInternal_eq_ok hk hcursor ?_ h⟩
  exact hstaging.symm

theorem change_of_setStatus {status : SessionSourceStatus}
    {errorCode : Option SessionSourceErrorCode} {changed : Bool} (hmem : source ∈ t.sources)
    (h : t.setStatus source status errorCode transitionAt = .ok (t', changed)) :
    Change op t t' := by
  unfold setStatus at h
  split at h
  · cases h
    exact .idle op t _
  · obtain ⟨t₁, hput, hend⟩ := do_eq_ok.mp h
    cases hend
    obtain ⟨-, rfl⟩ := putSource_eq_ok hput
    exact .status op t hmem _ _ _

/-- A promotion moves the cursor of the current generation, if there is one, and that of the staging
    generation. -/
theorem promote_eq_ok (h : t.promoteCandidate sourceKey generation transitionAt = .ok t') :
    ∃ source ∈ t.sources, source.sourceKey = sourceKey ∧ source.stagingGeneration =
      some generation ∧ source.retiredGeneration = none ∧ ∃ t₁ t₂, MovesCurrent t source t₁ ∧
        t₁.moveCursor (source.sourceKey, generation) .staging .current = .ok t₂ ∧
        t' = { t₂ with
          sources := put SessionSourceState.sourceKey (source.promoted generation transitionAt)
            t₂.sources } := by
  simp only [promoteCandidate, do_ok, rejectIf_eq_ok, okOr_eq_ok, Bool.or_eq_false_iff,
    bne_eq_false_iff_eq, Option.isSome_eq_false_iff, Option.isNone_iff_eq_none] at h
  obtain ⟨-, -, source, hsource, ⟨hstaging, hretired⟩, -, h⟩ := h
  obtain ⟨hmem, rfl⟩ := mem_of_findSource hsource
  refine ⟨source, hmem, rfl, hstaging, hretired, ?_⟩
  split at h
  · next current hsome =>
    simp only [do_eq_ok] at h
    obtain ⟨t₁, hcurrent, t₂, hmove, hput⟩ := h
    exact ⟨t₁, t₂, .inr ⟨current, hsome, hcurrent⟩, hmove, (putSource_eq_ok hput).2⟩
  · next hnone =>
    simp only [do_ok] at h
    obtain ⟨t₁, hsame, t₂, hmove, hput⟩ := h
    exact ⟨t₁, t₂, .inl ⟨hnone, hsame.symm⟩, hmove, (putSource_eq_ok hput).2⟩

theorem change_of_promote (h : t.promoteCandidate sourceKey generation transitionAt = .ok t') :
    Change (.promoteCandidate sourceKey generation transitionAt) t t' := by
  obtain ⟨source, hmem, rfl, hstaging, hretired, t₁, t₂, hcurrent, hmove, rfl⟩ := promote_eq_ok h
  exact .promoted transitionAt hmem hstaging hretired hcurrent hmove

namespace SessionTables

theorem Removed.refl (owner : Owner) (t : SessionTables) : Removed owner t t :=
  ⟨rfl, rfl, .refl _, .refl _, .refl _, fun _ _ => rfl⟩

theorem Removed.trans {owner : Owner} {t₁ t₂ t₃ : SessionTables} (h₁ : Removed owner t₁ t₂)
    (h₂ : Removed owner t₂ t₃) : Removed owner t₁ t₃ where
  sources := h₂.sources.trans h₁.sources
  cursors := h₂.cursors.trans h₁.cursors
  index := h₂.index.trans h₁.index
  usage := h₂.usage.trans h₁.usage
  replay := h₂.replay.trans h₁.replay
  others := fun other hne => (h₂.others other hne).trans (h₁.others other hne)

/-- The generation of a row. -/
def RowId.owner : RowId → Owner
  | .index key => key.1
  | .usage key => key.1
  | .replay key => key.1

/-- Rows of other generations are not removed with a row. -/
theorem filter_delete {ρ κ : Type} [DecidableEq κ] {key : ρ → Owner × κ} {owner : ρ → Owner}
    {k : Owner × κ} {other : Owner} {rows : List ρ} (hkey : ∀ row, (key row).1 = owner row)
    (hne : other ≠ k.1) :
    (delete key k rows).filter (fun row => decide (owner row = other)) =
      rows.filter fun row => decide (owner row = other) := by
  rw [delete, filter_filter]
  refine filter_congr ?_
  intro row _
  by_cases howner : owner row = other
  · have hother : key row ≠ k := by
      rintro rfl
      exact hne (howner.symm.trans (hkey row).symm)
    simp [hother]
  · simp [howner]

theorem removed_deleteRow (t : SessionTables) (row : RowId) :
    Removed row.owner t (t.deleteRow row) := by
  cases row with
  | index key =>
    refine ⟨rfl, rfl, filter_sublist, .refl _, .refl _, ?_⟩
    intro other hne
    exact congrArg (fun rows => GenerationRows.mk rows (t.rowsAt other).usage
      (t.rowsAt other).replay) (filter_delete (fun _ => rfl) hne)
  | usage key =>
    refine ⟨rfl, rfl, .refl _, filter_sublist, .refl _, ?_⟩
    intro other hne
    exact congrArg (fun rows => GenerationRows.mk (t.rowsAt other).index rows
      (t.rowsAt other).replay) (filter_delete (fun _ => rfl) hne)
  | replay key =>
    refine ⟨rfl, rfl, .refl _, .refl _, filter_sublist, ?_⟩
    intro other hne
    exact congrArg (fun rows => GenerationRows.mk (t.rowsAt other).index
      (t.rowsAt other).usage rows) (filter_delete (fun _ => rfl) hne)

theorem removed_deleteRows {owner : Owner} {maxBytes : Nat} {rows : List (RowId × Nat)}
    {n bytes : Nat} (h : ∀ row ∈ rows, row.1.owner = owner) :
    Removed owner t (deleteRows maxBytes rows t n bytes).1 := by
  induction rows generalizing t n bytes with
  | nil => exact .refl owner t
  | cons row rows ih =>
    obtain ⟨hrow, hrows⟩ := forall_mem_cons.mp h
    rw [deleteRows]
    split
    · exact .refl owner t
    · have hfirst := removed_deleteRow t row.1
      rw [hrow] at hfirst
      exact hfirst.trans (ih hrows)

theorem owner_of_mem_rowsOf {owner : Owner} {row : RowId × Nat} (h : row ∈ t.rowsOf owner) :
    row.1.owner = owner := by
  simp only [rowsOf, mem_append, mem_map, mem_filter, decide_eq_true_eq] at h
  rcases h with (⟨record, ⟨-, howner⟩, rfl⟩ | ⟨record, ⟨-, howner⟩, rfl⟩) | ⟨signature,
    ⟨-, howner⟩, rfl⟩
  · exact howner
  · exact howner
  · exact howner

theorem rowsAt_of_rowsOf_isEmpty {owner : Owner} (h : (t.rowsOf owner).isEmpty = true) :
    t.rowsAt owner = ⟨[], [], []⟩ := by
  simp only [rowsOf, List.isEmpty_iff, List.append_eq_nil_iff, List.map_eq_nil_iff] at h
  obtain ⟨⟨hindex, husage⟩, hreplay⟩ := h
  rw [rowsAt, hindex, husage, hreplay]

end SessionTables

/-- The rows that a cleanup removes, and how many and how large they are. -/
def SessionTables.cleaned (t : SessionTables) (owner : Owner) (maxRows maxBytes : Nat) :
    SessionTables × Nat × Nat :=
  deleteRows maxBytes ((t.rowsOf owner).take maxRows) t 0 0

/-- Whether a cleanup comes to its end. -/
def SessionTables.Finishes (t : SessionTables) (owner : Owner) (maxRows maxBytes : Nat) : Prop :=
  ((t.cleaned owner maxRows maxBytes).1.rowsOf owner).isEmpty = true ∧
    (t.cleaned owner maxRows maxBytes).2.1 < maxRows ∧
    ((((t.cleaned owner maxRows maxBytes).1.queryCursor owner).map cursorLogicalBytes).all
      fun bytes =>
      decide ((t.cleaned owner maxRows maxBytes).2.2 + bytes ≤ maxBytes)) = true

theorem cleanup_eq_ok {outcome : CleanupBatchOutcome}
    (h : t.cleanupGenerationBatch sourceKey generation maxRows maxBytes = .ok (t', outcome)) :
    t' = t ∨ ∃ source, source.sourceKey = sourceKey ∧ Disposable t source generation ∧
      ((t.Finishes (sourceKey, generation) maxRows maxBytes ∧
          (t.cleaned (sourceKey, generation) maxRows maxBytes).1.closeGeneration source generation =
        .ok t') ∨ (¬t.Finishes (sourceKey, generation) maxRows maxBytes ∧
          t' = (t.cleaned (sourceKey, generation) maxRows maxBytes).1)) := by
  simp only [cleanupGenerationBatch, do_ok] at h
  obtain ⟨-, -, -, h⟩ := h
  split at h
  · cases h
    exact .inl rfl
  · next source hsource =>
    obtain ⟨hmem, hkey⟩ := mem_of_findSource hsource
    obtain ⟨_, hpointers, h⟩ := do_eq_ok.mp h
    refine .inr ⟨source, hkey, ?_, ?_⟩
    · simp only [rejectIf_eq_ok, Bool.or_eq_false_iff, beq_eq_false_iff_ne, Bool.and_eq_false_iff,
        bne_eq_false_iff_eq] at hpointers
      exact ⟨hmem, hpointers.1, hpointers.2⟩
    · split at h
      · next hfinishes =>
        obtain ⟨t₁, hclose, hend⟩ := do_eq_ok.mp h
        cases hend
        exact .inl ⟨hfinishes, hclose⟩
      · next hnot =>
        cases h
        exact .inr ⟨hnot, rfl⟩

theorem SessionTables.removed_cleaned (t : SessionTables) (owner : Owner) (maxRows maxBytes : Nat) :
    Removed owner t (t.cleaned owner maxRows maxBytes).1 :=
  removed_deleteRows fun _ hrow => owner_of_mem_rowsOf (mem_of_mem_take hrow)

theorem change_of_cleanup {outcome : CleanupBatchOutcome}
    (h : t.cleanupGenerationBatch sourceKey generation maxRows maxBytes = .ok (t', outcome)) :
    Change (.cleanupGenerationBatch sourceKey generation maxRows maxBytes) t t' := by
  rcases cleanup_eq_ok h with rfl | ⟨source, rfl, hdisposable, ⟨hfinishes, hclose⟩ | ⟨-, rfl⟩⟩
  · exact .idle _ t' _
  · obtain ⟨-, rfl⟩ := putSource_eq_ok hclose
    exact .closed hdisposable (t.removed_cleaned _ maxRows maxBytes)
      (rowsAt_of_rowsOf_isEmpty hfinishes.1)
  · exact .removed hdisposable (t.removed_cleaned _ maxRows maxBytes)

/-- **What a call does.** A call that succeeds makes one of the changes. -/
theorem change_of_run (hk : t.Keyed) (h : op.run t = .ok t') : Change op t t' := by
  cases op with
  | beginOrResumeCandidate cursor =>
    obtain ⟨outcome, h⟩ := map_fst_eq_ok.mp h
    exact change_of_begin h
  | commitCandidateBatch batch =>
    obtain ⟨outcome, h⟩ := map_fst_eq_ok.mp h
    obtain ⟨cursor, -, hcommits, supplemental, rfl⟩ := commitCandidate_eq_ok hk h
    exact .committed rfl hcommits supplemental
  | commitSessionBatch batch =>
    obtain ⟨outcome, h⟩ := map_fst_eq_ok.mp h
    exact change_of_commit hk rfl (fun _ _ => rfl) h
  | promoteCandidate sourceKey generation transitionAt => exact change_of_promote h
  | failCandidate | recordSourceSuccess =>
    obtain ⟨changed, h⟩ := map_fst_eq_ok.mp h
    simp only [failCandidate, recordSourceSuccess, do_ok, okOr_eq_ok] at h
    obtain ⟨-, -, -, source, hsource, -, h⟩ := h
    exact change_of_setStatus (mem_of_findSource hsource).1 h
  | markSourceUnavailable sourceKey errorCode transitionAt =>
    obtain ⟨changed, h⟩ := map_fst_eq_ok.mp h
    simp only [markSourceUnavailable, do_ok, okOr_eq_ok] at h
    obtain ⟨-, -, -, source, hsource, h⟩ := h
    exact change_of_setStatus (mem_of_findSource hsource).1 h
  | cleanupGenerationBatch sourceKey generation maxRows maxBytes =>
    obtain ⟨outcome, h⟩ := map_fst_eq_ok.mp h
    exact change_of_cleanup h

end Calls

end Wokcore.Storage.Sessions
