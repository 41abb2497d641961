import Wokcore.Storage.SessionSteps

/-!
# The generations of a source

A source points to up to three generations, and each generation that is pointed to has a cursor in
the matching state. The tables are sound when the two views agree: a source points to a generation
for a state exactly when there is a cursor of the generation in the state. As a generation has one
cursor, the pointers of a source are then distinct; and as rows belong to generations with a cursor,
no row is left behind.

`Sound` is kept by every change of the tables (`Sound.of_change`), so it holds after every sequence
of calls. What a call leaves alone is read off the changes in the same way: the rows of a current
generation, and how far a cursor is.
-/

set_option autoImplicit false

namespace Wokcore.Storage.Sessions

open Lib Outcome SessionSourceState Table SessionTables List

variable {old : SessionGenerationState} {generation : Nat} {t : SessionTables}

/-! ## Pointers and cursors -/

/-- A source points to a generation for a state. -/
def Points (sources : List SessionSourceState) (owner : Owner) (state : SessionGenerationState) :
    Prop :=
  ∃ source ∈ sources, source.sourceKey = owner.1 ∧ source.pointer state = some owner.2

/-- There is a cursor of a generation in a state. -/
def HasCursor (cursors : List SessionScanCursor) (owner : Owner) (state : SessionGenerationState) :
    Prop :=
  ∃ cursor ∈ cursors, cursor.owner = owner ∧ cursor.generationState = state

/-- A cursor in another state. -/
def SessionScanCursor.inState (state : SessionGenerationState) (cursor : SessionScanCursor) :
    SessionScanCursor :=
  { cursor with generationState := state }

section Views

variable {sources : List SessionSourceState} {source : SessionSourceState}
  {cursors : List SessionScanCursor} {cursor : SessionScanCursor} {owner k : Owner}
  {state state' new : SessionGenerationState}

theorem points_iff (hn : (sources.map sourceKey).Nodup) (hmem : source ∈ sources)
    (hkey : source.sourceKey = owner.1) : Points sources owner state ↔
      source.pointer state = some owner.2 := by
  constructor
  · rintro ⟨other, hother, hsame, hpointer⟩
    rwa [inj_on_of_nodup_map hn hother hmem (hsame.trans hkey.symm)] at hpointer
  · exact fun hpointer => ⟨source, hmem, hkey, hpointer⟩

theorem points_put_self (hkey : source.sourceKey = owner.1) :
    Points (put sourceKey source sources) owner state ↔ source.pointer state = some owner.2 :=
  exists_mem_put.trans (by simp [hkey])

theorem points_put_of_ne (hkey : source.sourceKey ≠ owner.1) :
    Points (put sourceKey source sources) owner state ↔ Points sources owner state :=
  exists_mem_put.trans (by simp [hkey, Points])

/-- A generation has one cursor, so it is in one state. -/
theorem HasCursor.unique (hn : (cursors.map SessionScanCursor.owner).Nodup)
    (h : HasCursor cursors owner state) (h' : HasCursor cursors owner state') : state = state' := by
  obtain ⟨cursor, hmem, howner, rfl⟩ := h
  obtain ⟨other, hother, hsame, rfl⟩ := h'
  rw [inj_on_of_nodup_map hn hmem hother (howner.trans hsame.symm)]

theorem hasCursor_concat : HasCursor (cursors ++ [cursor]) owner state ↔
    HasCursor cursors owner state ∨ (cursor.owner = owner ∧ cursor.generationState = state) := by
  simp only [HasCursor, mem_append, mem_singleton, or_and_right, exists_or, exists_eq_left]

theorem hasCursor_put : HasCursor (put SessionScanCursor.owner cursor cursors) owner state ↔
    (cursor.owner = owner ∧ cursor.generationState = state) ∨
      (cursor.owner ≠ owner ∧ HasCursor cursors owner state) :=
  exists_mem_put

theorem hasCursor_modify (h : HasCursor cursors k state') :
    HasCursor (modify SessionScanCursor.owner k (.inState new) cursors)
        owner state ↔
      (owner = k ∧ state = new) ∨ (owner ≠ k ∧ HasCursor cursors owner state) := by
  constructor
  · rintro ⟨other, hother, rfl, rfl⟩
    rcases mem_modify.mp hother with ⟨hmem, hne⟩ | ⟨old, -, hold, rfl⟩
    · exact .inr ⟨hne, other, hmem, rfl, rfl⟩
    · exact .inl ⟨hold, rfl⟩
  · rintro (⟨rfl, rfl⟩ | ⟨hne, other, hmem, rfl, rfl⟩)
    · obtain ⟨old, hmem, hold, -⟩ := h
      exact ⟨_, mem_modify.mpr (.inr ⟨old, hmem, hold, rfl⟩), hold, rfl⟩
    · exact ⟨other, mem_modify.mpr (.inl ⟨hmem, hne⟩), rfl, rfl⟩

theorem hasCursor_delete : HasCursor (delete SessionScanCursor.owner k cursors) owner state ↔
    owner ≠ k ∧ HasCursor cursors owner state := by
  constructor
  · rintro ⟨cursor, hmem, rfl, hstate⟩
    obtain ⟨hmem, hne⟩ := mem_delete.mp hmem
    exact ⟨hne, cursor, hmem, rfl, hstate⟩
  · rintro ⟨hne, cursor, hmem, rfl, hstate⟩
    exact ⟨cursor, mem_delete.mpr ⟨hmem, hne⟩, rfl, hstate⟩

end Views

/-- The update of a cursor's state finds a cursor in the state it expects. -/
theorem moveCursor_eq_ok {t' : SessionTables} {owner : Owner} {new : SessionGenerationState}
    (h : t.moveCursor owner old new = .ok t') :
    HasCursor t.cursors owner old ∧
      t' = { t with cursors := modify SessionScanCursor.owner owner (.inState new) t.cursors } := by
  rw [moveCursor, do_eq_ok] at h
  obtain ⟨_, hfound, hend⟩ := h
  cases hend
  refine ⟨?_, rfl⟩
  simp only [rejectIf_eq_ok, Bool.not_eq_false', Option.any_eq_true, beq_iff_eq] at hfound
  obtain ⟨cursor, hcursor, hstate⟩ := hfound
  obtain ⟨hmem, howner⟩ := mem_of_find hcursor
  exact ⟨cursor, hmem, howner, hstate⟩

/-! ## Sound tables -/

/-- A generation without rows. -/
def GenerationRows.none : GenerationRows := ⟨[], [], []⟩

/-- Rows belong to generations with a cursor. -/
def RowsOwned (t : SessionTables) : Prop :=
  ∀ owner, (∀ state, ¬HasCursor t.cursors owner state) → t.rowsAt owner = .none

/-- **The invariant.** Pointers and cursors agree, and rows belong to generations with a cursor. -/
structure Sound (t : SessionTables) : Prop where
  keyed : t.Keyed
  agree : ∀ owner state, Points t.sources owner state ↔ HasCursor t.cursors owner state
  rows : RowsOwned t

theorem Sound.empty : Sound .empty where
  keyed := ⟨.nil, .nil, .nil, .nil, .nil⟩
  agree := fun _ _ => ⟨fun ⟨_, h, _⟩ => absurd h (not_mem_nil), fun ⟨_, h, _⟩ =>
    absurd h (not_mem_nil)⟩
  rows := fun _ _ => rfl

section Steps

variable {t t' : SessionTables} {source source' : SessionSourceState} {cursor : SessionScanCursor}
  {owner : Owner} {state new : SessionGenerationState} {other : Owner} {batch : SessionBatch}

/-- What a source points to has a cursor. -/
theorem Sound.hasCursor (h : Sound t) (hmem : source ∈ t.sources)
    (hpointer : source.pointer state = some generation) :
    HasCursor t.cursors (source.sourceKey, generation) state :=
  (h.agree _ _).mp ⟨source, hmem, rfl, hpointer⟩

/-- The pointers of a source are distinct. -/
theorem Sound.pointer_unique (h : Sound t) (hmem : source ∈ t.sources)
    {state' : SessionGenerationState} (hpointer : source.pointer state = some generation)
    (hpointer' : source.pointer state' = some generation) :
    state = state' :=
  (h.hasCursor hmem hpointer).unique h.keyed.cursors (h.hasCursor hmem hpointer')

/-- The cursors of a source are those it points to. -/
theorem Sound.hasCursor_iff (h : Sound t) (hmem : source ∈ t.sources)
    (hkey : source.sourceKey = owner.1) :
    HasCursor t.cursors owner state ↔ source.pointer state = some owner.2 :=
  (h.agree owner state).symm.trans (points_iff h.keyed.sources hmem hkey)

/-- A source that changes its pointers as its cursors change is one with which the tables agree. -/
theorem Sound.agree_put (h : Sound t) {cursors : List SessionScanCursor}
    (hself : ∀ owner state, source.sourceKey = owner.1 →
      (HasCursor cursors owner state ↔ source.pointer state = some owner.2))
    (hother : ∀ owner state, source.sourceKey ≠ owner.1 →
      (HasCursor cursors owner state ↔ HasCursor t.cursors owner state)) (owner : Owner)
    (state : SessionGenerationState) :
    Points (put sourceKey source t.sources) owner state ↔ HasCursor cursors owner state := by
  by_cases hkey : source.sourceKey = owner.1
  · exact (points_put_self hkey).trans (hself owner state hkey).symm
  · exact (points_put_of_ne hkey).trans ((h.agree owner state).trans (hother owner state hkey).symm)

theorem Sound.of_status (h : Sound t) (hmem : source ∈ t.sources)
    (hkey : source'.sourceKey = source.sourceKey)
    (hpointer : ∀ state, source'.pointer state = source.pointer state) :
    Sound { t with sources := put sourceKey source' t.sources } where
  keyed := { h.keyed with sources := nodup_put h.keyed.sources }
  agree := by
    refine h.agree_put ?_ fun _ _ _ => Iff.rfl
    intro owner state howner
    rw [hpointer]
    exact h.hasCursor_iff hmem (hkey.symm.trans howner)
  rows := h.rows

theorem Opens.not_hasCursor (hopens : Opens t cursor source) (h : Sound t)
    (hkey : source.sourceKey = owner.1) (state : SessionGenerationState) :
    HasCursor t.cursors owner state ↔ state = .current ∧ source.currentGeneration =
      some owner.2 := by
  rcases hopens.before with ⟨hnew, hcurrent⟩ | ⟨old, hmem, hold, hstaging, hretired, hcurrent⟩
  · rw [← h.agree, hcurrent]
    constructor
    · rintro ⟨other, hother, hsame, -⟩
      exact absurd (hsame.trans hkey.symm) (hnew other hother)
    · rintro ⟨-, hfalse⟩
      cases hfalse
  · rw [h.hasCursor_iff hmem (hold.trans hkey), hcurrent]
    cases state with
    | staging => simp [pointer, hstaging]
    | current => simp [pointer]
    | retired => simp [pointer, hretired]

theorem Sound.of_opened (h : Sound t) (hopens : Opens t cursor source) :
    Sound (t.opened source cursor) where
  keyed := { h.keyed with
    sources := nodup_put h.keyed.sources
    cursors := nodup_concat h.keyed.cursors hopens.absent }
  agree := by
    refine h.agree_put ?_ ?_
    · intro owner state hkey
      refine hasCursor_concat.trans ?_
      rw [hopens.not_hasCursor h hkey]
      have howner : cursor.owner = owner ↔ source.stagingGeneration = some owner.2 := by
        rw [hopens.staging, Option.some.injEq]
        exact ⟨fun h => congrArg Prod.snd h, fun h => Prod.ext (hopens.sourceKey.symm.trans hkey) h⟩
      cases state with
      | staging => simp [pointer, howner, hopens.state]
      | current => simp [pointer, hopens.state]
      | retired => simp [pointer, hopens.retired, hopens.state]
    · intro owner state hne
      refine hasCursor_concat.trans (or_iff_left ?_)
      rintro ⟨rfl, -⟩
      exact hne hopens.sourceKey
  rows := by
    intro owner hnone
    exact h.rows owner fun state hcursor => hnone state (hasCursor_concat.mpr (.inl hcursor))

/-- The generation of a row is part of its key. -/
theorem onKey_owner {ρ κ : Type} {key : ρ → Owner × κ} {ownerOf : ρ → Owner}
    (hkey : ∀ row, (key row).1 = ownerOf row) (owner : Owner) :
    OnKey key fun row => decide (ownerOf row = owner) := by
  intro a b h
  show decide (ownerOf a = owner) = decide (ownerOf b = owner)
  rw [← hkey a, ← hkey b, h]

theorem filter_putAll_other {ρ κ : Type} [DecidableEq κ] (key : ρ → Owner × κ) (ownerOf : ρ → Owner)
    (rows : List ρ) {new : List ρ} (hkey : ∀ row, (key row).1 = ownerOf row)
    (hnew : ∀ row ∈ new, ownerOf row = owner) (hne : other ≠ owner) :
    (putAll key rows new).filter (fun row => decide (ownerOf row = other)) =
      rows.filter fun row => decide (ownerOf row = other) := by
  refine filter_putAll_of_not (onKey_owner hkey other) ?_
  intro row hrow
  rw [hnew row hrow]
  exact decide_eq_false hne.symm

/-- A batch writes rows of its own generation. -/
theorem rowsAt_written (hcommits : Commits t cursor batch) (supplemental : Supplements)
    (hne : other ≠ cursor.owner) :
    (t.written cursor batch supplemental).rowsAt other = t.rowsAt other := by
  have hindex := filter_putAll_other SessionIndexRecord.key SessionIndexRecord.owner t.index
    (fun _ => rfl) hcommits.index hne
  have husage := filter_putAll_other SessionUsageRecord.key SessionUsageRecord.owner t.usage
    (fun _ => rfl) hcommits.usage hne
  have hreplay := filter_putAll_other CodexReplaySignature.key CodexReplaySignature.owner t.replay
    (fun _ => rfl) hcommits.replay hne
  simp only [rowsAt, SessionTables.written, hindex, husage, hreplay]

theorem Sound.of_committed (h : Sound t) (hcommits : Commits t cursor batch)
    (supplemental : Supplements) : Sound (t.written cursor batch supplemental) := by
  have hpointed : HasCursor t.cursors cursor.owner cursor.generationState := by
    obtain ⟨source, hmem, hkey, hpointer⟩ := hcommits.pointed
    exact (h.agree _ _).mp ⟨source, hmem, hkey, hpointer⟩
  have hsame : ∀ owner state, HasCursor (t.written cursor batch supplemental).cursors owner state ↔
      HasCursor t.cursors owner state := by
    intro owner state
    refine hasCursor_put.trans ?_
    by_cases howner : cursor.owner = owner
    · subst howner
      simp only [true_and, ne_eq, not_true_eq_false, false_and, or_false]
      exact ⟨fun hstate => hstate ▸ hpointed, fun hcursor =>
        hpointed.unique h.keyed.cursors hcursor⟩
    · simp [howner]
  refine ⟨⟨h.keyed.sources, nodup_put h.keyed.cursors, nodup_putAll h.keyed.index,
    nodup_putAll h.keyed.usage, nodup_putAll h.keyed.replay⟩, ?_, ?_⟩
  · intro owner state
    exact (h.agree owner state).trans (hsame owner state).symm
  · intro owner hnone
    have hbefore : ∀ state, ¬HasCursor t.cursors owner state := fun state hcursor =>
      hnone state ((hsame owner state).mpr hcursor)
    have hne : owner ≠ cursor.owner := by
      rintro rfl
      exact hbefore _ hpointed
    exact (rowsAt_written hcommits supplemental hne).trans (h.rows owner hbefore)

theorem hasCursor_moved_of_ne {k : Owner} (hmove : t.moveCursor k old new = .ok t')
    (hne : owner ≠ k) :
    HasCursor t'.cursors owner state ↔ HasCursor t.cursors owner state := by
  obtain ⟨hold, rfl⟩ := moveCursor_eq_ok hmove
  rw [hasCursor_modify hold]
  simp [hne]

/-- A cursor that changes its state keeps its generation, and no row changes. -/
theorem rows_of_moved {k : Owner} (hmove : t.moveCursor k old new = .ok t') (hrows : RowsOwned t) :
    RowsOwned t' := by
  intro owner hnone
  have hne : owner ≠ k := by
    rintro rfl
    obtain ⟨hold, rfl⟩ := moveCursor_eq_ok hmove
    exact hnone new ((hasCursor_modify hold).mpr (.inl ⟨rfl, rfl⟩))
  have hbefore := hrows owner fun state hcursor =>
    hnone state ((hasCursor_moved_of_ne hmove hne).mpr hcursor)
  obtain ⟨-, rfl⟩ := moveCursor_eq_ok hmove
  exact hbefore

theorem keyed_of_moved {k : Owner} (hmove : t.moveCursor k old new = .ok t') (hk : t.Keyed) :
    t'.Keyed := by
  obtain ⟨-, rfl⟩ := moveCursor_eq_ok hmove
  exact { hk with cursors := nodup_modify (fun _ h => h) hk.cursors }

/-- The first step of a promotion: the current generation, if there is one, becomes the retired
    one. -/
structure Retires (t : SessionTables) (source : SessionSourceState) (t₁ : SessionTables) :
    Prop where
  sources : t₁.sources = t.sources
  keyed : t.Keyed → t₁.Keyed
  rows : RowsOwned t → RowsOwned t₁
  retired : ∀ owner, owner.1 = source.sourceKey → source.currentGeneration = some owner.2 →
    ∀ state, HasCursor t₁.cursors owner state ↔ state = .retired
  others : ∀ owner, ¬(owner.1 = source.sourceKey ∧ source.currentGeneration = some owner.2) →
    ∀ state, HasCursor t₁.cursors owner state ↔ HasCursor t.cursors owner state

theorem retires_of_moved {t₁ : SessionTables} (h : MovesCurrent t source t₁) :
    Retires t source t₁ := by
  rcases h with ⟨hnone, rfl⟩ | ⟨current, hsome, hmove⟩
  · exact ⟨rfl, id, id, fun owner _ h => (by cases hnone.symm.trans h), fun _ _ _ => Iff.rfl⟩
  · refine ⟨?_, keyed_of_moved hmove, rows_of_moved hmove, ?_, ?_⟩
    · obtain ⟨-, rfl⟩ := moveCursor_eq_ok hmove
      rfl
    · intro owner hkey hcurrent state
      obtain rfl : owner = (source.sourceKey, current) :=
        Prod.ext hkey (Option.some.inj (hcurrent.symm.trans hsome))
      obtain ⟨hold, rfl⟩ := moveCursor_eq_ok hmove
      rw [hasCursor_modify hold]
      simp
    · intro owner hother state
      refine hasCursor_moved_of_ne hmove ?_
      rintro rfl
      exact hother ⟨rfl, hsome⟩

theorem Sound.of_promoted (h : Sound t) (hmem : source ∈ t.sources) {t₁ t₂ : SessionTables}
    (hstaging : source.stagingGeneration = some generation)
    (hretired : source.retiredGeneration = none) (hretires : Retires t source t₁)
    (hmove : t₁.moveCursor (source.sourceKey, generation) .staging .current = .ok t₂)
    (hkey' : source'.sourceKey = source.sourceKey)
    (hcurrent' : source'.currentGeneration = some generation)
    (hstaging' : source'.stagingGeneration = none)
    (hretired' : source'.retiredGeneration = source.currentGeneration) :
    Sound { t₂ with sources := put sourceKey source' t₂.sources } := by
  have hkeyed : t₂.Keyed := keyed_of_moved hmove (hretires.keyed h.keyed)
  have hsources : t₂.sources = t.sources := by
    obtain ⟨-, rfl⟩ := moveCursor_eq_ok hmove
    exact hretires.sources
  have hrows := rows_of_moved hmove (hretires.rows h.rows)
  refine ⟨{ hkeyed with sources := nodup_put hkeyed.sources }, ?_, hrows⟩
  rw [hsources]
  refine h.agree_put ?_ ?_
  · intro owner state hkey
    have hsource : source.sourceKey = owner.1 := hkey'.symm.trans hkey
    by_cases howner : owner = (source.sourceKey, generation)
    -- The generation that was staging: its cursor is in the state `Current` now.
    · have hcursor : HasCursor t₂.cursors owner state ↔ state = .current := by
        obtain ⟨hold, rfl⟩ := moveCursor_eq_ok hmove
        rw [hasCursor_modify hold]
        simp [howner]
      have hcurrent : source.currentGeneration ≠ some generation := by
        intro hsame
        have hstates : SessionGenerationState.current = .staging :=
          h.pointer_unique hmem hsame hstaging
        cases hstates
      rw [hcursor, howner]
      cases state with
      | staging => simp [pointer, hstaging']
      | current => simp [pointer, hcurrent']
      | retired => simp [pointer, hretired', hcurrent]
    · rw [hasCursor_moved_of_ne hmove howner]
      have hne : owner.2 ≠ generation := fun hsame => howner (Prod.ext hsource.symm hsame)
      by_cases hcurrent : source.currentGeneration = some owner.2
      · rw [hretires.retired owner hsource.symm hcurrent]
        cases state <;>
          simp [pointer, hcurrent', hstaging', hretired', hcurrent, Ne.symm hne]
      · rw [hretires.others owner (fun hboth => hcurrent hboth.2), h.hasCursor_iff hmem hsource]
        cases state <;>
          simp [pointer, hcurrent', hstaging', hretired', hcurrent, hstaging, hretired, Ne.symm hne]
  · intro owner state hkey
    have hsource : source.sourceKey ≠ owner.1 := fun hsame => hkey (hkey'.trans hsame)
    rw [hasCursor_moved_of_ne hmove (fun howner => hsource (congrArg Prod.fst howner).symm),
      hretires.others owner fun hboth => hsource hboth.1.symm]

/-- A generation that may be cleaned up has a cursor. -/
theorem Disposable.hasCursor (hdisposable : Disposable t source generation) (h : Sound t) :
    ∃ state, HasCursor t.cursors (source.sourceKey, generation) state := by
  rcases hdisposable.pointed with hpointer | hpointer
  · exact ⟨.staging, h.hasCursor hdisposable.mem hpointer⟩
  · exact ⟨.retired, h.hasCursor hdisposable.mem hpointer⟩

theorem Sound.of_removed (h : Sound t) (hdisposable : Disposable t source generation)
    (hrows : Removed (source.sourceKey, generation) t t') : Sound t' where
  keyed :=
    ⟨hrows.sources ▸ h.keyed.sources, hrows.cursors ▸ h.keyed.cursors,
      h.keyed.index.sublist (hrows.index.map _), h.keyed.usage.sublist (hrows.usage.map _),
      h.keyed.replay.sublist (hrows.replay.map _)⟩
  agree := by
    rw [hrows.sources, hrows.cursors]
    exact h.agree
  rows := by
    intro owner hnone
    rw [hrows.cursors] at hnone
    refine (hrows.others owner ?_).trans (h.rows owner hnone)
    rintro rfl
    obtain ⟨state, hcursor⟩ := hdisposable.hasCursor h
    exact hnone state hcursor

theorem SessionSourceState.sourceKey_closed (source : SessionSourceState) (generation : Nat) :
    (source.closed generation).sourceKey = source.sourceKey := by
  unfold closed
  split <;> rfl

theorem SessionSourceState.currentGeneration_closed (source : SessionSourceState)
    (generation : Nat) :
    (source.closed generation).currentGeneration = source.currentGeneration := by
  unfold closed
  split <;> rfl

/-- The source points to what it pointed to, but for the generation. -/
theorem Disposable.pointer_closed (hdisposable : Disposable t source generation) (h : Sound t)
    (state : SessionGenerationState) (other : Nat) :
    (source.closed generation).pointer state = some other ↔ source.pointer state = some other ∧
    other ≠ generation := by
  have hgone : none = some other ↔ some generation = some other ∧ other ≠ generation := by
    simp [eq_comm]
  have hkept : source.pointer state ≠ some generation →
      (source.pointer state = some other ↔ source.pointer state = some other ∧
        other ≠ generation) := by
    intro hne
    refine (and_iff_left_of_imp ?_).symm
    rintro hpointer rfl
    exact hne hpointer
  unfold closed
  split
  · next hstaging =>
    have hother : state ≠ .staging → source.pointer state ≠ some generation := by
      intro hne hpointer
      exact hne (h.pointer_unique hdisposable.mem hpointer hstaging)
    cases state with
    | staging => rwa [pointer, pointer, hstaging]
    | current | retired => exact hkept (hother (by decide))
  · next hstaging =>
    have hretired : source.retiredGeneration = some generation :=
      hdisposable.pointed.resolve_left hstaging
    cases state with
    | staging => exact hkept hstaging
    | current => exact hkept hdisposable.notCurrent
    | retired => rwa [pointer, pointer, hretired]

theorem rowsAt_deleteCursor_of_ne (hne : other ≠ owner) :
    (t.deleteCursor owner).rowsAt other = t.rowsAt other := by
  have hrows : ∀ {ρ : Type} (ownerOf : ρ → Owner) (rows : List ρ),
      (rows.filter fun row => !decide (ownerOf row = owner)).filter
        (fun row => decide (ownerOf row = other)) = rows.filter fun row =>
        decide (ownerOf row = other) := by
    intro ρ ownerOf rows
    rw [filter_filter]
    refine filter_congr ?_
    intro row _
    by_cases howner : ownerOf row = other
    · simp [howner, hne]
    · simp [howner]
  simp only [rowsAt, deleteCursor, hrows]

theorem rowsAt_deleteCursor_self : (t.deleteCursor owner).rowsAt owner = .none := by
  have hrows : ∀ {ρ : Type} (ownerOf : ρ → Owner) (rows : List ρ),
      (rows.filter fun row => !decide (ownerOf row = owner)).filter
      (fun row => decide (ownerOf row = owner)) = [] := by
    intro ρ ownerOf rows
    simp
  simp only [rowsAt, deleteCursor, hrows, GenerationRows.none]

theorem Sound.of_closed (h : Sound t) (hdisposable : Disposable t source generation) :
    Sound { t.deleteCursor (source.sourceKey, generation) with
      sources := put sourceKey (source.closed generation) t.sources } where
  keyed :=
    ⟨nodup_put h.keyed.sources, nodup_filter h.keyed.cursors, nodup_filter h.keyed.index,
      nodup_filter h.keyed.usage, nodup_filter h.keyed.replay⟩
  agree := by
    refine h.agree_put ?_ ?_
    · intro owner state hkey
      rw [source.sourceKey_closed] at hkey
      rw [hdisposable.pointer_closed h, and_comm, ← h.hasCursor_iff hdisposable.mem hkey]
      refine hasCursor_delete.trans (and_congr_left' (not_congr ?_))
      exact ⟨fun howner => congrArg Prod.snd howner, fun hsame => Prod.ext hkey.symm hsame⟩
    · intro owner state hkey
      rw [source.sourceKey_closed] at hkey
      refine hasCursor_delete.trans (and_iff_right ?_)
      rintro rfl
      exact hkey rfl
  rows := by
    intro owner hnone
    by_cases howner : owner = (source.sourceKey, generation)
    · subst howner
      exact rowsAt_deleteCursor_self
    · refine (rowsAt_deleteCursor_of_ne howner).trans (h.rows owner ?_)
      intro state hcursor
      exact hnone state (hasCursor_delete.mpr ⟨howner, hcursor⟩)

/-- **Every change keeps the tables sound.** -/
theorem Sound.of_change {op : Operation} (h : Sound t) (hchange : Change op t t') : Sound t' := by
  cases hchange with
  | idle _ _ supplemental =>
    exact ⟨⟨h.keyed.1, h.keyed.2, h.keyed.3, h.keyed.4, h.keyed.5⟩, h.agree, h.rows⟩
  | status _ _ hmem status errorCode lastTransitionAt =>
    exact h.of_status hmem rfl fun state => by cases state <;> rfl
  | opened hopens => exact h.of_opened hopens
  | committed hop hcommits supplemental => exact h.of_committed hcommits supplemental
  | promoted transitionAt hmem hstaging hretired hcurrent hmove =>
    exact h.of_promoted hmem hstaging hretired (retires_of_moved hcurrent) hmove rfl rfl rfl rfl
  | removed hdisposable hrows => exact h.of_removed hdisposable hrows
  | closed hdisposable hrows hempty =>
    have hremoved := h.of_removed hdisposable hrows
    exact hremoved.of_closed ⟨hrows.sources.symm ▸ hdisposable.mem, hdisposable.notCurrent,
      hdisposable.pointed⟩

end Steps

/-! ## What a call leaves alone -/

/-- A cursor is at least as far as another. -/
structure CursorLe (cursor cursor' : SessionScanCursor) : Prop where
  completeByteOffset : cursor.completeByteOffset ≤ cursor'.completeByteOffset
  stableRecordOrdinal : cursor.stableRecordOrdinal ≤ cursor'.stableRecordOrdinal
  observedSize : cursor.observedSize ≤ cursor'.observedSize
  modifiedAt : cursor.modifiedAt ≤ cursor'.modifiedAt

/-- The calls that may write rows of a current generation: a promotion of its source, and a commit
    under its cursor. -/
def Operation.MayWrite (op : Operation) (owner : Owner) : Prop :=
  (∃ generation transitionAt, op = .promoteCandidate owner.1 generation transitionAt) ∨
    ∃ batch cursor, op.batch? = some batch ∧ batch.cursor = some cursor ∧ cursor.owner = owner ∧
      cursor.generationState = .current

section Frames

variable {t t' : SessionTables} {op : Operation} {owner k : Owner} {cursor : SessionScanCursor}
  {new : SessionGenerationState}
  {source : SessionSourceState}

theorem CursorLe.refl (cursor : SessionScanCursor) : CursorLe cursor cursor :=
  ⟨le_refl _, le_refl _, le_refl _, le_refl _⟩

theorem CursorLe.trans {a b c : SessionScanCursor} (h : CursorLe a b) (h' : CursorLe b c) :
    CursorLe a c :=
  ⟨h.1.trans h'.1, h.2.trans h'.2, h.3.trans h'.3, h.4.trans h'.4⟩

theorem cursorLe_of_mayAdvance {existing : SessionScanCursor}
    (h : cursorMayAdvance existing cursor = true) :
    CursorLe existing cursor := by
  simp only [cursorMayAdvance, Bool.and_eq_true, decide_eq_true_eq, ge_iff_le] at h
  exact ⟨by tauto, by tauto, by tauto, by tauto⟩

/-- The cursor comes from one of its generation that was not further. -/
def Advanced (t : SessionTables) (cursor : SessionScanCursor) : Prop :=
  ∃ before ∈ t.cursors, before.owner = cursor.owner ∧ CursorLe before cursor

theorem advanced_of_mem (h : cursor ∈ t.cursors) : Advanced t cursor :=
  ⟨cursor, h, rfl, .refl cursor⟩

theorem advanced_of_moved (hmove : t.moveCursor k old new = .ok t')
    (hmem : cursor ∈ t'.cursors) : Advanced t cursor := by
  obtain ⟨-, rfl⟩ := moveCursor_eq_ok hmove
  rcases mem_modify.mp hmem with ⟨hbefore, -⟩ | ⟨before, hbefore, -, rfl⟩
  · exact advanced_of_mem hbefore
  · exact ⟨before, hbefore, rfl, le_refl _, le_refl _, le_refl _, le_refl _⟩

theorem rowsAt_moved (hmove : t.moveCursor k old new = .ok t')
    (owner : Owner) : t'.sources = t.sources ∧ t'.rowsAt owner = t.rowsAt owner := by
  obtain ⟨-, rfl⟩ := moveCursor_eq_ok hmove
  exact ⟨rfl, rfl⟩

section Promoted

variable {t₁ t₂ : SessionTables} (hcurrent : MovesCurrent t source t₁)
  (hmove : t₁.moveCursor (source.sourceKey, generation) .staging .current = .ok t₂)
include hcurrent hmove

theorem advanced_of_promoted (hmem : cursor ∈ t₂.cursors) : Advanced t cursor := by
  obtain ⟨middle, hmiddle, howner, hle⟩ := advanced_of_moved hmove hmem
  rcases hcurrent with ⟨-, rfl⟩ | ⟨current, -, hretire⟩
  · exact ⟨middle, hmiddle, howner, hle⟩
  · obtain ⟨before, hbefore, howner', hle'⟩ := advanced_of_moved hretire hmiddle
    exact ⟨before, hbefore, howner'.trans howner, hle'.trans hle⟩

theorem rowsAt_promoted (owner : Owner) :
    t₂.sources = t.sources ∧ t₂.rowsAt owner = t.rowsAt owner := by
  obtain ⟨hsources, hrows⟩ := rowsAt_moved hmove owner
  rcases hcurrent with ⟨-, rfl⟩ | ⟨current, -, hretire⟩
  · exact ⟨hsources, hrows⟩
  · obtain ⟨hsources', hrows'⟩ := rowsAt_moved hretire owner
    exact ⟨hsources.trans hsources', hrows.trans hrows'⟩

end Promoted

/-- **A cursor does not go back.** After a change a cursor is new, or as far as it was. -/
theorem advanced_of_change (hchange : Change op t t') (hmem : cursor ∈ t'.cursors) :
    Advanced t cursor ∨ ∀ other ∈ t.cursors, other.owner ≠ cursor.owner := by
  cases hchange with
  | idle | status => exact .inl (advanced_of_mem hmem)
  | opened hopens =>
    rcases mem_append.mp hmem with hbefore | hnew
    · exact .inl (advanced_of_mem hbefore)
    · obtain rfl := mem_singleton.mp hnew
      exact .inr hopens.absent
  | committed hop hcommits supplemental =>
    rcases mem_put.mp hmem with rfl | ⟨hbefore, -⟩
    · by_cases hexists : ∃ other ∈ t.cursors, other.owner = cursor.owner
      · obtain ⟨other, hother, howner⟩ := hexists
        refine .inl ⟨other, hother, howner, ?_⟩
        rcases hcommits.advance other hother howner with rfl | hmay
        · exact .refl other
        · exact cursorLe_of_mayAdvance hmay
      · exact .inr fun other hother howner => hexists ⟨other, hother, howner⟩
    · exact .inl (advanced_of_mem hbefore)
  | promoted transitionAt hsource hstaging hretired hcurrent hmove =>
    exact .inl (advanced_of_promoted hcurrent hmove hmem)
  | removed hdisposable hrows => exact .inl (advanced_of_mem (hrows.cursors ▸ hmem))
  | closed hdisposable hrows hempty =>
    exact .inl (advanced_of_mem (hrows.cursors ▸ (mem_delete.mp hmem).1))

theorem points_put_current {sources : List SessionSourceState} {source' : SessionSourceState}
    (hn : (sources.map sourceKey).Nodup) (hmem : source ∈ sources)
    (hkey : source'.sourceKey = source.sourceKey)
    (hcurrent : source'.currentGeneration = source.currentGeneration)
    (h : Points sources owner .current) :
    Points (put sourceKey source' sources) owner .current := by
  by_cases howner : source.sourceKey = owner.1
  · rw [points_put_self (hkey.trans howner)]
    exact hcurrent.trans ((points_iff hn hmem howner).mp h)
  · exact (points_put_of_ne fun hsame => howner (hkey.symm.trans hsame)).mpr h

theorem Disposable.ne_current (hdisposable : Disposable t source generation) (h : Sound t)
    (hcurrent : Points t.sources owner .current) : owner ≠ (source.sourceKey, generation) := by
  rintro rfl
  exact hdisposable.notCurrent ((points_iff h.keyed.sources hdisposable.mem rfl).mp hcurrent)

/-- **A current generation is left alone**, but by the calls that may write it. -/
theorem current_of_change (h : Sound t) (hchange : Change op t t')
    (hcurrent : Points t.sources owner .current) :
    (Points t'.sources owner .current ∧ t'.rowsAt owner = t.rowsAt owner) ∨ op.MayWrite owner := by
  cases hchange with
  | idle _ _ supplemental => exact .inl ⟨hcurrent, rfl⟩
  | status _ _ hsource status errorCode lastTransitionAt =>
    exact .inl ⟨points_put_current h.keyed.sources hsource rfl rfl hcurrent, rfl⟩
  | opened hopens =>
    refine .inl ⟨?_, rfl⟩
    rcases hopens.before with ⟨hnew, -⟩ | ⟨old, hold, hkey, -, -, hsame⟩
    · refine (points_put_of_ne ?_).mpr hcurrent
      intro howner
      obtain ⟨other, hother, hsame, -⟩ := hcurrent
      exact hnew other hother (hsame.trans howner.symm)
    · exact points_put_current h.keyed.sources hold hkey.symm hsame hcurrent
  | @committed _ _ cursor batch hop hcommits supplemental =>
    by_cases howner : owner = cursor.owner
    · subst howner
      obtain ⟨source, hmem, hkey, hpointer⟩ := hcommits.pointed
      have hstate := h.pointer_unique hmem hpointer
        ((points_iff h.keyed.sources hmem hkey).mp hcurrent)
      exact .inr (.inr ⟨batch, cursor, hop, hcommits.under, rfl, hstate⟩)
    · exact .inl ⟨hcurrent, rowsAt_written hcommits supplemental howner⟩
  | @promoted _ t₁ t₂ source generation transitionAt hsource hstaging hretired hmoved hmove =>
    by_cases howner : source.sourceKey = owner.1
    · exact .inr (.inl ⟨generation, transitionAt, by rw [howner]⟩)
    · obtain ⟨hsources, hrows⟩ := rowsAt_promoted hmoved hmove owner
      refine .inl ⟨?_, hrows⟩
      rw [hsources]
      refine (points_put_of_ne ?_).mpr hcurrent
      exact howner
  | removed hdisposable hrows =>
    exact .inl ⟨hrows.sources.symm ▸ hcurrent, hrows.others owner
      (hdisposable.ne_current h hcurrent)⟩
  | @closed _ t₁ source generation _ _ hdisposable hrows hempty =>
    have hne := hdisposable.ne_current h hcurrent
    refine .inl ⟨?_, (rowsAt_deleteCursor_of_ne hne).trans (hrows.others owner hne)⟩
    rw [hrows.sources]
    exact points_put_current h.keyed.sources hdisposable.mem (source.sourceKey_closed generation)
      (source.currentGeneration_closed generation) hcurrent

end Frames

/-! ## Runs -/

/-- A call whose transaction is applied, or is not. A call that fails leaves the tables as they
    were. -/
def SessionTables.attempt (t : SessionTables) (op : Operation) (applied : Bool) : SessionTables :=
  match op.run t with
  | .ok t' => if applied then t' else t
  | .error _ => t

/-- The tables after a sequence of calls. -/
def SessionTables.attemptAll (t : SessionTables) (calls : List (Operation × Bool)) :
    SessionTables :=
  calls.foldl (fun t call => t.attempt call.1 call.2) t

theorem attempt_cases (h : Sound t) (op : Operation) (applied : Bool) :
    t.attempt op applied = t ∨ Change op t (t.attempt op applied) := by
  unfold attempt
  split
  · next t' hrun =>
    cases applied with
    | false => exact .inl rfl
    | true => exact .inr (change_of_run h.keyed hrun)
  · exact .inl rfl

theorem Sound.attempt (h : Sound t) (op : Operation) (applied : Bool) :
    Sound (t.attempt op applied) := by
  rcases attempt_cases h op applied with hsame | hchange
  · rwa [hsame]
  · exact h.of_change hchange

theorem Sound.attemptAll (h : Sound t) (calls : List (Operation × Bool)) :
    Sound (t.attemptAll calls) := by
  induction calls generalizing t with
  | nil => exact h
  | cons call calls ih => exact ih (h.attempt call.1 call.2)

/-- **The generations of the sources after a sequence of calls.** -/
structure GenerationsConsistent (t : SessionTables) : Prop where
  /-- There is one row for a source. -/
  sources : (t.sources.map sourceKey).Nodup
  /-- The generations that a source points to are distinct. -/
  distinct : ∀ source ∈ t.sources, ∀ state state' generation,
    source.pointer state = some generation → source.pointer state' = some generation →
    state = state'
  /-- Each has one cursor, and the cursor is in the matching state. -/
  cursor : ∀ source ∈ t.sources, ∀ state generation, source.pointer state = some generation →
    ∃ cursor, t.cursors.filter
      (fun cursor => decide (cursor.owner = (source.sourceKey, generation))) = [cursor] ∧
      cursor.generationState = state
  /-- There is no other cursor. -/
  named : ∀ cursor ∈ t.cursors, ∃ source ∈ t.sources, source.sourceKey = cursor.sourceKey ∧
    source.pointer cursor.generationState = some cursor.generation
  /-- Rows belong to a generation that a source points to. -/
  rows : ∀ owner, t.rowsAt owner ≠ .none → ∃ source ∈ t.sources, source.sourceKey = owner.1 ∧
    ∃ state, source.pointer state = some owner.2

/-- **What a call keeps.** -/
structure CallKeeps (op : Operation) (t t' : SessionTables) : Prop where
  /-- A current generation and its rows stay, unless the call is a promotion of the source or a
      commit under the cursor of the generation. -/
  current : ∀ owner, Points t.sources owner .current → ¬op.MayWrite owner →
    Points t'.sources owner .current ∧ t'.rowsAt owner = t.rowsAt owner
  /-- A cursor does not go back. -/
  cursors : ∀ cursor ∈ t.cursors, ∀ cursor' ∈ t'.cursors, cursor'.owner = cursor.owner →
    CursorLe cursor cursor'

theorem Sound.generationsConsistent (h : Sound t) : GenerationsConsistent t where
  sources := h.keyed.sources
  distinct := fun source hmem state state' generation => h.pointer_unique hmem
  cursor := by
    intro source hmem state generation hpointer
    obtain ⟨cursor, hcursor, howner, hstate⟩ := h.hasCursor hmem hpointer
    refine ⟨cursor, ?_, hstate⟩
    rw [← howner]
    exact filter_eq_singleton h.keyed.cursors hcursor
  named := fun cursor hcursor => (h.agree _ _).mpr ⟨cursor, hcursor, rfl, rfl⟩
  rows := by
    intro owner hrows
    by_contra hnone
    refine hrows (h.rows owner ?_)
    intro state hcursor
    obtain ⟨source, hmem, hkey, hpointer⟩ := (h.agree owner state).mpr hcursor
    exact hnone ⟨source, hmem, hkey, state, hpointer⟩

theorem Sound.callKeeps (h : Sound t) (op : Operation) (applied : Bool) :
    CallKeeps op t (t.attempt op applied) := by
  rcases attempt_cases h op applied with hsame | hchange
  · rw [hsame]
    refine ⟨fun owner hcurrent _ => ⟨hcurrent, rfl⟩, ?_⟩
    intro cursor hmem cursor' hmem' howner
    rw [inj_on_of_nodup_map h.keyed.cursors hmem' hmem howner]
    exact .refl cursor
  · refine ⟨fun owner hcurrent hnot => (current_of_change h hchange hcurrent).resolve_right hnot,
      ?_⟩
    intro cursor hmem cursor' hmem' howner
    rcases advanced_of_change hchange hmem' with ⟨before, hbefore, hsame, hle⟩ | hnew
    · rwa [inj_on_of_nodup_map h.keyed.cursors hbefore hmem (hsame.trans howner)] at hle
    · exact absurd howner.symm (hnew cursor hmem)

/-- **Generations stay consistent.** After any sequence of calls on an empty store, each applied or
    not at all, the pointers, the cursors and the rows are consistent, and no further call changes a
    current generation behind its back or moves a cursor back. -/
theorem attemptAll_consistent (calls : List (Operation × Bool)) :
    GenerationsConsistent (SessionTables.empty.attemptAll calls) ∧
      ∀ op applied, CallKeeps op (SessionTables.empty.attemptAll calls)
        ((SessionTables.empty.attemptAll calls).attempt op applied) := by
  have hsound := Sound.empty.attemptAll calls
  exact ⟨hsound.generationsConsistent, hsound.callKeeps⟩

end Wokcore.Storage.Sessions
