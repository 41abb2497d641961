import Wokcore.Storage.SessionInvariant

/-!
# What a promoted generation holds

A candidate is opened by the call of `begin_or_resume_candidate` that answers `Started`, filled by
`commit_candidate_batch`, and made current by `promote_candidate`. Beside the tables a run remembers
the batches that were committed to each generation since it was opened. What a promoted generation
should hold is what these batches amount to.

Cleanup takes part in this: it removes a staging generation, a bounded number of rows at a time, and
until it comes to its end the source still points to the generation and its cursor is still there. A
candidate can therefore be promoted after some of its rows are gone. Where no cleanup stops half way
through a staging generation, promoted generations are what was committed.
-/

set_option autoImplicit false

namespace Wokcore.Storage.Sessions

open Lib CodexReplaySignature SessionSourceState Table SessionTables List
open Prod (fst snd)

/-! ## Runs -/

/-- A call that takes part in the building of a candidate. -/
inductive CandidateCall where
  | beginOrResumeCandidate (cursor : SessionScanCursor)
  | commitCandidateBatch (batch : SessionBatch)
  | cleanupGenerationBatch (sourceKey : String) (generation maxRows maxBytes : Nat)
  | promoteCandidate (sourceKey : String) (generation : Nat) (transitionAt : String)

/-- The tables, and the batches that were committed to a generation since it was opened. -/
structure CandidateRun where
  tables : SessionTables
  committed : Owner → List SessionBatch

namespace CandidateRun

def start : CandidateRun := ⟨.empty, fun _ => []⟩

/-- The batch is one of the generation of its cursor. -/
def noted (committed : Owner → List SessionBatch) (batch : SessionBatch) : Owner →
    List SessionBatch :=
  match batch.cursor with
  | some cursor => Function.update committed cursor.owner (committed cursor.owner ++ [batch])
  | none => committed

/-- A call; one that fails changes nothing. -/
def step (s : CandidateRun) : CandidateCall → CandidateRun
  | .beginOrResumeCandidate cursor =>
      match s.tables.beginOrResumeCandidate cursor with
      | .ok (t, outcome) =>
          ⟨t, if outcome = .started then Function.update s.committed cursor.owner []
            else s.committed⟩
      | .error _ => s
  | .commitCandidateBatch batch =>
      match s.tables.commitCandidateBatch batch with
      | .ok (t, _) => ⟨t, noted s.committed batch⟩
      | .error _ => s
  | .cleanupGenerationBatch sourceKey generation maxRows maxBytes =>
      match s.tables.cleanupGenerationBatch sourceKey generation maxRows maxBytes with
      | .ok (t, _) => { s with tables := t }
      | .error _ => s
  | .promoteCandidate sourceKey generation transitionAt =>
      match s.tables.promoteCandidate sourceKey generation transitionAt with
      | .ok t => { s with tables := t }
      | .error _ => s

def run (s : CandidateRun) (calls : List CandidateCall) : CandidateRun := calls.foldl step s

end CandidateRun

/-! ## What batches amount to -/

/-- The rows with those of a batch. -/
def GenerationRows.write (rows : GenerationRows) (batch : SessionBatch) : GenerationRows where
  index := putAll SessionIndexRecord.key rows.index batch.indexRecords
  usage := putAll SessionUsageRecord.key rows.usage batch.usageRecords
  replay := putAll key rows.replay batch.replaySignatures

/-- The rows that batches leave in a new generation. -/
def accumulated (batches : List SessionBatch) : GenerationRows :=
    batches.foldl GenerationRows.write .none

theorem accumulated_concat (batches : List SessionBatch) (batch : SessionBatch) :
    accumulated (batches ++ [batch]) = (accumulated batches).write batch :=
  foldl_concat ..

/-- **What is claimed of a promotion**: the generation that becomes current holds what was committed
    to it. -/
def PromotesCommitted (s : CandidateRun) : Prop :=
  ∀ sourceKey generation transitionAt t,
    s.tables.promoteCandidate sourceKey generation transitionAt = .ok t →
      t.rowsAt (sourceKey, generation) = accumulated (s.committed (sourceKey, generation))

section Sample

def sampleSourceKey : String := "aaaaaaaaaaaaaaaaaaaaaaaaaaaaaaaaaaaaaaaaaaaaaaaaaaaaaaaaaaaaaaaa"

def sampleTimestamp : String := "2026-07-26T00:00:00Z"

/-- A cursor at the beginning of a file of a hundred bytes. -/
def sampleCursor : SessionScanCursor where
  sourceKey := sampleSourceKey
  sourceKind := .gemini
  generation := 1
  generationState := .staging
  fileIdentity := "bbbbbbbbbbbbbbbbbbbbbbbbbbbbbbbbbbbbbbbbbbbbbbbbbbbbbbbbbbbbbbbb"
  observedSize := 100
  modifiedAt := sampleTimestamp
  completeByteOffset := 0
  stableRecordOrdinal := 0
  parserCheckpoint := ⟨1, 0, 0, 0, 0, 0, none, 0, none, none, 0, none⟩
  headFingerprint := []
  boundaryFingerprint := []
  parentSourceKey := none
  parentGeneration := none
  replayBoundaryFingerprint := none
  resultCode := none
  resultChangedAt := none

/-- A batch with one Session, with which the file is read to its end. -/
def sampleBatch : SessionBatch where
  cursor := some { sampleCursor with completeByteOffset := 100 }
  indexRecords := [{
    sessionKey := "cccccccccccccccccccccccccccccccccccccccccccccccccccccccccccccccc"
    sourceKey := sampleSourceKey
    generation := 1
    sourceKind := .gemini
    createdAt := sampleTimestamp
    lastActiveAt := sampleTimestamp
    messageCount := 1
    usageEventCount := 0
    availability := .available }]
  usageRecords := []
  replaySignatures := []
  supplementalMetadata := []

/-- A candidate that is complete, whose cleanup is begun and not ended, and that is then resumed. -/
def halfCleanup : List CandidateCall :=
  [.beginOrResumeCandidate sampleCursor, .commitCandidateBatch sampleBatch,
    .cleanupGenerationBatch sampleSourceKey 1 1 maxSessionBatchBytes,
    .beginOrResumeCandidate sampleCursor]

/-- The candidate can be promoted, and what it held is gone. -/
theorem not_promotesCommitted_halfCleanup :
    ¬PromotesCommitted (CandidateRun.start.run halfCleanup) := by
  intro h
  have hpromoted :
      ((CandidateRun.start.run halfCleanup).tables.promoteCandidate sampleSourceKey 1
        sampleTimestamp).map (fun t => t.rowsAt (sampleSourceKey, 1)) = .ok .none := by
        decide +kernel
  have hcommitted : accumulated ((CandidateRun.start.run halfCleanup).committed
      (sampleSourceKey, 1)) ≠ .none := by
    decide +kernel
  cases hresult : (CandidateRun.start.run halfCleanup).tables.promoteCandidate sampleSourceKey 1
    sampleTimestamp with
  | error e =>
    rw [hresult] at hpromoted
    cases hpromoted
  | ok t =>
    rw [hresult] at hpromoted
    exact hcommitted ((h _ _ _ t hresult).symm.trans (Except.ok.inj hpromoted))

end Sample

/-! ## Cleanups that do not stop half way -/

/-- The limits let a cleanup of the generation remove all of it, or nothing. -/
def WholeOrNothing (t : SessionTables) (owner : Owner) (maxRows maxBytes : Nat) : Prop :=
  (∀ row ∈ (t.rowsOf owner).head?, maxBytes < row.2) ∨
    ((t.rowsOf owner).length < maxRows ∧
      ((t.rowsOf owner).map snd).sum + ((t.queryCursor owner).map cursorLogicalBytes).getD 0 ≤
        maxBytes)

/-- A cleanup accepts the limits. -/
def ValidLimits (maxRows maxBytes : Nat) : Prop :=
  (0 < maxRows ∧ maxRows ≤ maxSessionBatchRows) ∧ 0 < maxBytes ∧ maxBytes ≤ maxSessionBatchBytes

/-- A cleanup of a staging generation removes all of it, or nothing; one whose limits are not valid
    is refused. -/
def CandidateCall.Safe (t : SessionTables) : CandidateCall → Prop
  | .cleanupGenerationBatch sourceKey generation maxRows maxBytes =>
      ValidLimits maxRows maxBytes → ((t.findSource sourceKey).bind stagingGeneration) =
        some generation → WholeOrNothing t (sourceKey, generation) maxRows maxBytes
  | _ => True

/-- Every call of a run is safe. -/
def CandidateRun.AllSafe : CandidateRun → List CandidateCall → Prop
  | _, [] => True
  | s, call :: calls => call.Safe s.tables ∧ (s.step call).AllSafe calls

/-! ## Rows that are removed -/

namespace SessionTables

variable {t : SessionTables} {owner : Owner} {maxRows maxBytes : Nat}

/-- Rows that fit are all removed. -/
theorem deleteRows_all {rows : List (RowId × Nat)} {n bytes : Nat}
    (h : bytes + (rows.map snd).sum ≤ maxBytes) :
    deleteRows maxBytes rows t n bytes =
      ((rows.map fst).foldl deleteRow t, n + rows.length, bytes + (rows.map snd).sum) := by
  induction rows generalizing t n bytes with
  | nil => rfl
  | cons row rows ih =>
    rw [map_cons, sum_cons] at h
    rw [deleteRows, if_neg (by omega), ih (by omega)]
    simp only [map_cons, foldl_cons, length_cons, sum_cons, Prod.mk.injEq, true_and]
    omega

/-- The rows of the three tables. -/
def ids (t : SessionTables) : List RowId :=
  t.index.map (fun record => .index record.key) ++ t.usage.map (fun record => .usage record.key) ++
    t.replay.map fun signature => .replay signature.key

theorem ids_deleteRow (t : SessionTables) (id : RowId) :
    (t.deleteRow id).ids = t.ids.filter fun other => other ≠ id := by
  have hother : ∀ {ρ : Type} (f : ρ → RowId) (rows : List ρ), (∀ row, f row ≠ id) →
      (rows.map f).filter (fun other => other ≠ id) = rows.map f := by
    intro ρ f rows hne
    rw [filter_eq_self]
    intro other hmem
    obtain ⟨row, -, rfl⟩ := mem_map.mp hmem
    exact decide_eq_true (hne row)
  have hsame : ∀ {ρ κ : Type} [DecidableEq κ] (f : κ → RowId) (key : ρ → κ) (rows : List ρ) (k : κ),
      (∀ a b, f a = f b → a = b) → id = f k →
      (rows.map fun row => f (key row)).filter (fun other => other ≠ id) =
        (delete key k rows).map fun row => f (key row) := by
    intro ρ κ _ f key rows k hf hid
    rw [delete, filter_map]
    congr 1
    refine filter_congr ?_
    intro row _
    simp only [Function.comp_apply, hid, ne_eq, decide_not]
    by_cases hk : key row = k
    · simp [hk]
    · have hne : f (key row) ≠ f k := fun h => hk (hf _ _ h)
      simp [hk, hne]
  cases id with
  | index key =>
    rw [ids, ids, filter_append, filter_append, hother _ t.usage (by simp), hother _ t.replay
      (by simp), hsame RowId.index SessionIndexRecord.key t.index key
      (fun _ _ => RowId.index.inj) rfl]
    rfl
  | usage key =>
    rw [ids, ids, filter_append, filter_append, hother _ t.index (by simp), hother _ t.replay
      (by simp), hsame RowId.usage SessionUsageRecord.key t.usage key
      (fun _ _ => RowId.usage.inj) rfl]
    rfl
  | replay key =>
    rw [ids, ids, filter_append, filter_append, hother _ t.index (by simp), hother _ t.usage
      (by simp), hsame RowId.replay CodexReplaySignature.key t.replay key
      (fun _ _ => RowId.replay.inj) rfl]
    rfl

theorem ids_foldl_deleteRow (removed : List RowId) (t : SessionTables) :
    (removed.foldl deleteRow t).ids = t.ids.filter fun id => id ∉ removed := by
  induction removed generalizing t with
  | nil => simp
  | cons id removed ih =>
    rw [foldl_cons, ih, ids_deleteRow, filter_filter]
    refine filter_congr ?_
    intro other _
    simp [Bool.and_comm]

theorem fst_rowsOf (t : SessionTables) (owner : Owner) :
    (t.rowsOf owner).map fst = t.ids.filter fun id => id.owner = owner := by
  simp only [rowsOf, ids, map_append, map_map, filter_append, filter_map]
  rfl

/-- Once its rows are removed a generation has none. -/
theorem rowsOf_foldl_deleteRow (t : SessionTables) (owner : Owner) :
    (((t.rowsOf owner).map fst).foldl deleteRow t).rowsOf owner = [] := by
  rw [← map_eq_nil_iff (f := fst), fst_rowsOf, ids_foldl_deleteRow, filter_filter,
    filter_eq_nil_iff, fst_rowsOf]
  intro id hid
  simp [hid]

theorem queryCursor_cleaned (t : SessionTables) (owner : Owner) (maxRows maxBytes : Nat) :
    (t.cleaned owner maxRows maxBytes).1.queryCursor owner = t.queryCursor owner := by
  rw [queryCursor, (t.removed_cleaned owner maxRows maxBytes).cursors]
  rfl

/-- With limits that are large enough a cleanup comes to its end. -/
theorem finishes_of_limits (hrows : (t.rowsOf owner).length < maxRows)
    (hbytes : ((t.rowsOf owner).map snd).sum + ((t.queryCursor owner).map cursorLogicalBytes).getD 0
    ≤ maxBytes) :
    t.Finishes owner maxRows maxBytes := by
  have hcleaned : t.cleaned owner maxRows maxBytes = (((t.rowsOf owner).map fst).foldl deleteRow t,
      (t.rowsOf owner).length, ((t.rowsOf owner).map snd).sum) := by
    rw [cleaned, List.take_of_length_le hrows.le, deleteRows_all (by omega), Nat.zero_add,
      Nat.zero_add]
  refine ⟨?_, ?_, ?_⟩
  · rw [hcleaned, List.isEmpty_iff]
    exact rowsOf_foldl_deleteRow t owner
  · rw [hcleaned]
    exact hrows
  · rw [queryCursor_cleaned, hcleaned]
    cases hcursor : t.queryCursor owner with
    | none => rfl
    | some cursor =>
      rw [hcursor] at hbytes
      exact decide_eq_true hbytes

/-- A cleanup whose first row does not fit removes nothing. -/
theorem cleaned_of_head (h : ∀ row ∈ (t.rowsOf owner).head?, maxBytes < row.2) :
    (t.cleaned owner maxRows maxBytes).1 = t := by
  unfold cleaned
  cases hrows : t.rowsOf owner with
  | nil => rw [take_nil, deleteRows]
  | cons row rows =>
    cases maxRows with
    | zero => rw [take_zero, deleteRows]
    | succ maxRows =>
      have hlarge : maxBytes < row.2 := h row (by rw [hrows]; rfl)
      rw [take_succ_cons, deleteRows, if_pos (by omega)]

end SessionTables

/-! ## Runs without half cleanups -/

/-- **The invariant.** A staging generation holds what was committed to it. -/
structure Faithful (s : CandidateRun) : Prop where
  sound : Sound s.tables
  staged : ∀ owner, Points s.tables.sources owner .staging → s.tables.rowsAt owner = accumulated
    (s.committed owner)

theorem Faithful.start : Faithful .start where
  sound := .empty
  staged := fun _ ⟨_, h, _⟩ => absurd h not_mem_nil

section Steps

variable {s : CandidateRun} {t : SessionTables} {generation : Nat} {cursor : SessionScanCursor}
    {batch : SessionBatch}

theorem Faithful.of_begin (h : Faithful s) {outcome : CandidateBeginOutcome}
    (hbegin : s.tables.beginOrResumeCandidate cursor = .ok (t, outcome)) :
    Faithful ⟨t, if outcome = .started then Function.update s.committed cursor.owner []
      else s.committed⟩ := by
  have hsound : Sound t := h.sound.of_change (change_of_begin hbegin)
  refine ⟨hsound, ?_⟩
  intro owner hstaging
  show t.rowsAt owner =
    accumulated ((if outcome = .started then Function.update s.committed cursor.owner []
      else s.committed) owner)
  rcases begin_eq_ok hbegin with ⟨hstarted, source, hopens, rfl⟩ | ⟨hnot, rfl⟩
  · rw [if_pos hstarted]
    by_cases howner : owner = cursor.owner
    -- The generation is new: it had no cursor, so it has no rows.
    · subst howner
      rw [Function.update_self]
      refine h.sound.rows cursor.owner ?_
      rintro state ⟨other, hother, hsame, -⟩
      exact hopens.absent other hother hsame
    · rw [Function.update_of_ne howner]
      refine h.staged owner ?_
      by_cases hkey : source.sourceKey = owner.1
      · have hpointer := (points_put_self hkey).mp hstaging
        have hgeneration : cursor.generation = owner.2 := Option.some.inj
          (hopens.staging.symm.trans hpointer)
        exact absurd (Prod.ext (hkey.symm.trans hopens.sourceKey) hgeneration.symm) howner
      · exact (points_put_of_ne hkey).mp hstaging
  · rw [if_neg hnot]
    exact h.staged owner hstaging

theorem filter_putAll_own {ρ κ : Type} [DecidableEq κ] (key : ρ → Owner × κ) (ownerOf : ρ → Owner)
    (rows : List ρ) {new : List ρ} {owner : Owner} (hkey : ∀ row, (key row).1 = ownerOf row)
    (hnew : ∀ row ∈ new, ownerOf row = owner) :
    (putAll key rows new).filter (fun row => decide (ownerOf row = owner)) =
      putAll key (rows.filter fun row => decide (ownerOf row = owner)) new :=
  filter_putAll (onKey_owner hkey owner) fun row hrow => decide_eq_true (hnew row hrow)

/-- A batch writes its rows to its generation. -/
theorem rowsAt_written_self (hcommits : Commits t cursor batch) (supplemental : Supplements) :
    (t.written cursor batch supplemental).rowsAt cursor.owner =
      (t.rowsAt cursor.owner).write batch := by
  have hindex := filter_putAll_own SessionIndexRecord.key SessionIndexRecord.owner t.index
    (fun _ => rfl) hcommits.index
  have husage := filter_putAll_own SessionUsageRecord.key SessionUsageRecord.owner t.usage
    (fun _ => rfl) hcommits.usage
  have hreplay := filter_putAll_own key owner t.replay (fun _ => rfl)
    hcommits.replay
  simp only [rowsAt, SessionTables.written, GenerationRows.write, hindex, husage, hreplay]

theorem Faithful.of_commit (h : Faithful s) {outcome : SupplementalBatchOutcome}
    (hcommit : s.tables.commitCandidateBatch batch = .ok (t, outcome)) :
    Faithful ⟨t, CandidateRun.noted s.committed batch⟩ := by
  obtain ⟨cursor, -, hcommits, supplemental, rfl⟩ := commitCandidate_eq_ok h.sound.keyed hcommit
  refine ⟨h.sound.of_committed hcommits supplemental, ?_⟩
  intro owner hstaging
  have hbefore := h.staged owner hstaging
  simp only [CandidateRun.noted, hcommits.under]
  by_cases howner : owner = cursor.owner
  · subst howner
    rw [Function.update_self, accumulated_concat, ← hbefore]
    exact rowsAt_written_self hcommits supplemental
  · rw [Function.update_of_ne howner, ← hbefore]
    exact rowsAt_written hcommits supplemental howner

/-- A promotion leaves the other sources' candidates. -/
theorem Faithful.of_promote (h : Faithful s) {sourceKey transitionAt : String}
    (hpromote : s.tables.promoteCandidate sourceKey generation transitionAt = .ok t) :
    Faithful { s with tables := t } := by
  refine ⟨h.sound.of_change (change_of_promote hpromote), ?_⟩
  intro owner hstaging
  obtain ⟨source, hmem, rfl, -, -, t₁, t₂, hcurrent, hmove, rfl⟩ := promote_eq_ok hpromote
  obtain ⟨hsources, hrows⟩ := rowsAt_promoted hcurrent hmove owner
  refine hrows.trans (h.staged owner ?_)
  rw [← hsources]
  have hafter : Points (put sourceKey (source.promoted generation transitionAt) t₂.sources)
    owner .staging := hstaging
  by_cases hkey : (source.promoted generation transitionAt).sourceKey = owner.1
  · cases (points_put_self hkey).mp hafter
  · exact (points_put_of_ne hkey).mp hafter

/-- A source that points to a staging generation after the end of a cleanup did so before, to
    another generation. -/
theorem Disposable.staging_of_closed {source : SessionSourceState} {owner : Owner}
    (hdisposable : Disposable t source generation) (h : Sound t)
    (hstaging : Points (put sourceKey (source.closed generation) t.sources) owner .staging) :
    Points t.sources owner .staging ∧ owner ≠ (source.sourceKey, generation) := by
  have hclosed := source.sourceKey_closed generation
  by_cases hkey : source.sourceKey = owner.1
  · obtain ⟨hpointer, hne⟩ := (hdisposable.pointer_closed h .staging owner.2).mp
      ((points_put_self (hclosed.trans hkey)).mp hstaging)
    exact ⟨⟨source, hdisposable.mem, hkey, hpointer⟩, fun howner => hne (congrArg snd howner)⟩
  · have hne : (source.closed generation).sourceKey ≠ owner.1 := fun hsame =>
      hkey (hclosed.symm.trans hsame)
    exact ⟨(points_put_of_ne hne).mp hstaging, fun howner => hkey (congrArg fst howner).symm⟩

theorem validLimits_of_cleanup {sourceKey : String} {maxRows maxBytes : Nat}
    {r : SessionTables × CleanupBatchOutcome}
    (h : t.cleanupGenerationBatch sourceKey generation maxRows maxBytes = .ok r) :
    ValidLimits maxRows maxBytes := by
  simp only [cleanupGenerationBatch, Outcome.do_ok, Outcome.rejectIf_eq_ok, Bool.or_eq_false_iff,
    beq_eq_false_iff_ne, decide_eq_false_iff_not, not_lt] at h
  obtain ⟨-, -, ⟨⟨⟨hrows, hmaxRows⟩, hbytes⟩, hmaxBytes⟩, -⟩ := h
  exact ⟨⟨Nat.pos_of_ne_zero hrows, hmaxRows⟩, Nat.pos_of_ne_zero hbytes, hmaxBytes⟩

theorem Faithful.of_cleanup (h : Faithful s) {sourceKey : String} {maxRows maxBytes : Nat}
    {outcome : CleanupBatchOutcome}
    (hsafe : (CandidateCall.cleanupGenerationBatch sourceKey generation maxRows maxBytes).Safe
    s.tables) (hcleanup : s.tables.cleanupGenerationBatch sourceKey generation maxRows maxBytes =
    .ok (t, outcome)) :
    Faithful { s with tables := t } := by
  refine ⟨h.sound.of_change (change_of_cleanup hcleanup), ?_⟩
  intro owner hstaging
  rcases cleanup_eq_ok hcleanup with rfl | ⟨source, rfl, hdisposable, hend⟩
  · exact h.staged owner hstaging
  have hremoved := s.tables.removed_cleaned (source.sourceKey, generation) maxRows maxBytes
  rcases hend with ⟨-, hclose⟩ | ⟨hnot, rfl⟩
  -- The generation is closed: its source no longer points to it, and the rows of the others are
  -- there.
  · obtain ⟨-, rfl⟩ := putSource_eq_ok hclose
    have hafter : Points (put sourceKey (source.closed generation)
      (s.tables.cleaned (source.sourceKey, generation) maxRows maxBytes).1.sources) owner
      .staging := hstaging
    rw [hremoved.sources] at hafter
    have hbefore := hdisposable.staging_of_closed h.sound hafter
    exact (rowsAt_deleteCursor_of_ne hbefore.2).trans
      ((hremoved.others owner hbefore.2).trans (h.staged owner hbefore.1))
  · have hpoints : Points s.tables.sources owner .staging := hremoved.sources ▸ hstaging
    by_cases howner : owner = (source.sourceKey, generation)
    · subst howner
      have hsource : s.tables.findSource source.sourceKey = some source :=
        (find_eq_some h.sound.keyed.sources).mpr ⟨hdisposable.mem, rfl⟩
      have hpointer : source.stagingGeneration = some generation :=
        (points_iff h.sound.keyed.sources hdisposable.mem rfl).mp hpoints
      rcases hsafe (validLimits_of_cleanup hcleanup) (by rw [hsource]; exact hpointer) with hlarge
        | ⟨hrows, hbytes⟩
      · show (s.tables.cleaned (source.sourceKey, generation) maxRows maxBytes).1.rowsAt _ = _
        rw [cleaned_of_head hlarge]
        exact h.staged _ hpoints
      · exact absurd (finishes_of_limits hrows hbytes) hnot
    · exact (hremoved.others owner howner).trans (h.staged owner hpoints)

theorem Faithful.step (h : Faithful s) {call : CandidateCall} (hsafe : call.Safe s.tables) :
    Faithful (s.step call) := by
  cases call <;> rw [CandidateRun.step]
  case beginOrResumeCandidate =>
    split
    · next t outcome hbegin => exact h.of_begin hbegin
    · exact h
  case commitCandidateBatch =>
    split
    · next t outcome hcommit => exact h.of_commit hcommit
    · exact h
  case cleanupGenerationBatch =>
    split
    · next t outcome hcleanup => exact h.of_cleanup hsafe hcleanup
    · exact h
  case promoteCandidate =>
    split
    · next t hpromote => exact h.of_promote hpromote
    · exact h

theorem Faithful.run (h : Faithful s) {calls : List CandidateCall} (hsafe : s.AllSafe calls) :
    Faithful (s.run calls) := by
  induction calls generalizing s with
  | nil => exact h
  | cons call calls ih => exact ih (h.step hsafe.1) hsafe.2

/-- A promotion does not change rows, so it makes current what is staged. -/
theorem Faithful.promotesCommitted (h : Faithful s) : PromotesCommitted s := by
  intro sourceKey generation transitionAt t hpromote
  obtain ⟨source, hmem, rfl, hstaging, -, t₁, t₂, hcurrent, hmove, rfl⟩ := promote_eq_ok hpromote
  obtain ⟨-, hrows⟩ := rowsAt_promoted hcurrent hmove (source.sourceKey, generation)
  exact hrows.trans (h.staged _ ⟨source, hmem, rfl, hstaging⟩)

end Steps

/-- **Promotions without half cleanups.** When no cleanup of the run stops half way through a
    staging generation, a promoted generation holds what was committed to it since it was opened. -/
theorem promotesCommitted_of_allSafe (calls : List CandidateCall)
    (h : CandidateRun.start.AllSafe calls) :
    PromotesCommitted (CandidateRun.start.run calls) :=
  (Faithful.start.run h).promotesCommitted

/-- A cleanup that may remove two rows ends with the only one, and the candidate is built again. -/
theorem promotesCommitted_of_allSafe_sample :
    CandidateRun.start.AllSafe
        [.beginOrResumeCandidate sampleCursor, .commitCandidateBatch sampleBatch,
        .cleanupGenerationBatch sampleSourceKey 1 2 maxSessionBatchBytes,
        .beginOrResumeCandidate sampleCursor, .commitCandidateBatch sampleBatch] ∧
      PromotesCommitted (CandidateRun.start.run
        [.beginOrResumeCandidate sampleCursor, .commitCandidateBatch sampleBatch,
        .cleanupGenerationBatch sampleSourceKey 1 2 maxSessionBatchBytes,
        .beginOrResumeCandidate sampleCursor, .commitCandidateBatch sampleBatch]) := by
  refine ⟨?safe, promotesCommitted_of_allSafe _ ?safe⟩
  refine ⟨trivial, trivial, fun _ _ => .inr ?_, trivial, trivial, trivial⟩
  decide +kernel

end Wokcore.Storage.Sessions
