import Mathlib.Data.List.Nodup

/-!
# Tables with a primary key

A table is a list of rows in the order in which they were inserted, and a function gives each row
its key. `put` replaces the row with the key of a new one or appends it, `modify` changes the rows
of a key and `delete` removes them. No operation makes two rows of one key (`nodup_put`,
`nodup_modify`, `nodup_delete`), membership says what a table holds afterwards, and the rows that a
condition on keys selects are those that the operation makes of the rows it selected before
(`filter_put`).
-/

set_option autoImplicit false

namespace Wokcore.Lib.Table

open List

variable {ρ κ : Type*} [DecidableEq κ] {key : ρ → κ} {rows : List ρ} {row r : ρ} {k : κ} {f : ρ → ρ}

/-- The row of a key. -/
def find (key : ρ → κ) (k : κ) (rows : List ρ) : Option ρ := rows.find? fun r => decide (key r = k)

/-- The table with the rows of a key changed. -/
def modify (key : ρ → κ) (k : κ) (f : ρ → ρ) (rows : List ρ) : List ρ :=
  rows.map fun r => if key r = k then f r else r

/-- The table with a row, in the place of the row with its key or at the end. -/
def put (key : ρ → κ) (row : ρ) (rows : List ρ) : List ρ :=
  match find key (key row) rows with
  | some _ => modify key (key row) (fun _ => row) rows
  | none => rows ++ [row]

/-- The table without the rows of a key. -/
def delete (key : ρ → κ) (k : κ) (rows : List ρ) : List ρ := rows.filter fun r =>
    !decide (key r = k)

theorem mem_of_find (h : find key k rows = some r) : r ∈ rows ∧ key r = k :=
  ⟨mem_of_find?_eq_some h, by simpa using find?_some h⟩

theorem find_eq_none : find key k rows = none ↔ ∀ r ∈ rows, key r ≠ k := by
  simp [find, find?_eq_none]

theorem find_eq_some (hn : (rows.map key).Nodup) : find key k rows = some r ↔ r ∈ rows ∧
    key r = k := by
  constructor
  · exact mem_of_find
  · rintro ⟨hmem, rfl⟩
    cases hfind : find key (key r) rows with
    | none => exact absurd rfl (find_eq_none.mp hfind r hmem)
    | some r' =>
      obtain ⟨hmem', hkey⟩ := mem_of_find hfind
      rw [inj_on_of_nodup_map hn hmem' hmem hkey]

/-! ## Keys stay unique -/

theorem map_modify (hf : ∀ r, key r = k → key (f r) = k) :
    (modify key k f rows).map key = rows.map key := by
  rw [modify, map_map]
  refine map_congr_left ?_
  intro r _
  show key (if key r = k then f r else r) = key r
  split
  · next h => rw [hf r h, h]
  · rfl

theorem nodup_modify (hf : ∀ r, key r = k → key (f r) = k) (hn : (rows.map key).Nodup) :
    ((modify key k f rows).map key).Nodup := by
  rw [map_modify hf]
  exact hn

omit [DecidableEq κ] in
theorem nodup_concat (hn : (rows.map key).Nodup) (h : ∀ r ∈ rows, key r ≠ key row) :
    ((rows ++ [row]).map key).Nodup := by
  rw [map_append, map_singleton, nodup_append]
  refine ⟨hn, nodup_singleton _, ?_⟩
  intro a ha b hb
  obtain ⟨r, hr, rfl⟩ := mem_map.mp ha
  rw [mem_singleton.mp hb]
  exact h r hr

theorem nodup_put (hn : (rows.map key).Nodup) : ((put key row rows).map key).Nodup := by
  unfold put
  split
  · exact nodup_modify (fun _ _ => rfl) hn
  · next hnone => exact nodup_concat hn (find_eq_none.mp hnone)

omit [DecidableEq κ] in
theorem nodup_filter {p : ρ → Bool} (hn : (rows.map key).Nodup) : ((rows.filter p).map key).Nodup :=
  hn.sublist (filter_sublist.map key)

/-! ## What a table holds -/

theorem mem_modify : r ∈ modify key k f rows ↔ (r ∈ rows ∧ key r ≠ k) ∨ ∃ r' ∈ rows, key r' = k ∧
    r = f r' := by
  rw [modify, mem_map]
  constructor
  · rintro ⟨r', hr', rfl⟩
    split
    · next h => exact .inr ⟨r', hr', h, rfl⟩
    · next h => exact .inl ⟨hr', h⟩
  · rintro (⟨hr, h⟩ | ⟨r', hr', h, rfl⟩)
    · exact ⟨r, hr, if_neg h⟩
    · exact ⟨r', hr', if_pos h⟩

theorem mem_put : r ∈ put key row rows ↔ r = row ∨ (r ∈ rows ∧ key r ≠ key row) := by
  unfold put
  split
  · next old hfind =>
    obtain ⟨hold, hkey⟩ := mem_of_find hfind
    rw [mem_modify]
    constructor
    · rintro (hkept | ⟨_, _, _, rfl⟩)
      · exact .inr hkept
      · exact .inl rfl
    · rintro (rfl | hkept)
      · exact .inr ⟨old, hold, hkey, rfl⟩
      · exact .inl hkept
  · next hnone =>
    have habsent := find_eq_none.mp hnone
    rw [mem_append, mem_singleton]
    constructor
    · rintro (hr | rfl)
      · exact .inr ⟨hr, habsent r hr⟩
      · exact .inl rfl
    · rintro (rfl | ⟨hr, -⟩)
      · exact .inr rfl
      · exact .inl hr

/-- The row of a key after `put`. -/
theorem exists_mem_put {p : ρ → Prop} : (∃ r ∈ put key row rows, key r = k ∧ p r) ↔
    (key row = k ∧ p row) ∨ (key row ≠ k ∧ ∃ r ∈ rows, key r = k ∧ p r) := by
  constructor
  · rintro ⟨r, hr, rfl, hp⟩
    rcases mem_put.mp hr with rfl | ⟨hmem, hne⟩
    · exact .inl ⟨rfl, hp⟩
    · exact .inr ⟨hne.symm, r, hmem, rfl, hp⟩
  · rintro (⟨hkey, hp⟩ | ⟨hne, r, hmem, rfl, hp⟩)
    · exact ⟨row, mem_put.mpr (.inl rfl), hkey, hp⟩
    · exact ⟨r, mem_put.mpr (.inr ⟨hmem, hne.symm⟩), rfl, hp⟩

theorem mem_delete : r ∈ delete key k rows ↔ r ∈ rows ∧ key r ≠ k := by
  simp [delete]

/-- A key has one row. -/
theorem filter_eq_singleton (hn : (rows.map key).Nodup) (h : row ∈ rows) :
    rows.filter (fun r => decide (key r = key row)) = [row] := by
  induction rows with
  | nil => cases h
  | cons first rows ih =>
    obtain ⟨hfirst, hrest⟩ := nodup_cons.mp hn
    rcases mem_cons.mp h with rfl | hmem
    · have hnone : rows.filter (fun r => decide (key r = key row)) = [] := by
        rw [filter_eq_nil_iff]
        intro r hr hkey
        exact hfirst (of_decide_eq_true hkey ▸ mem_map_of_mem hr)
      rw [filter_cons_of_pos (by simp), hnone]
    · have hne : key first ≠ key row := fun hkey => hfirst (hkey ▸ mem_map_of_mem hmem)
      rw [filter_cons_of_neg (by simpa using hne)]
      exact ih hrest hmem

/-! ## Selections -/

section Selections

variable {p : ρ → Bool}

/-- A condition that only looks at the key. -/
def OnKey (key : ρ → κ) (p : ρ → Bool) : Prop := ∀ a b, key a = key b → p a = p b

theorem find_filter (hp : OnKey key p) (h : p row = true) :
    find key (key row) (rows.filter p) = find key (key row) rows := by
  rw [find, find, find?_filter]
  congr 1
  funext r
  by_cases hkey : key r = key row
  · simp [hkey, hp r row hkey, h]
  · simp [hkey]

theorem filter_modify {f : ρ → ρ} (hp : OnKey key p) (hf : ∀ r, key r = k → key (f r) = k) :
    (modify key k f rows).filter p = modify key k f (rows.filter p) := by
  have hsame : ∀ r, p (if key r = k then f r else r) = p r := by
    intro r
    split
    · next h => exact hp _ _ ((hf r h).trans h.symm)
    · rfl
  rw [modify, modify, filter_map]
  congr 1
  exact filter_congr fun r _ => hsame r

/-- A selection that the row is in. -/
theorem filter_put (hp : OnKey key p) (h : p row = true) :
    (put key row rows).filter p = put key row (rows.filter p) := by
  unfold put
  rw [find_filter hp h]
  split
  · exact filter_modify hp fun _ _ => rfl
  · rw [filter_append, filter_singleton, h]
    rfl

/-- A selection that the row is not in. -/
theorem filter_put_of_not (hp : OnKey key p) (h : p row = false) :
    (put key row rows).filter p = rows.filter p := by
  unfold put
  split
  · rw [filter_modify hp fun _ _ => rfl, modify]
    refine (map_congr_left ?_).trans (map_id _)
    intro r hr
    rw [if_neg]
    · rfl
    · intro hkey
      have hsel := (mem_filter.mp hr).2
      rw [hp r row hkey, h] at hsel
      cases hsel
  · rw [filter_append, filter_singleton, h]
    exact append_nil _

end Selections

/-! ## Many rows -/

/-- The table with rows put into it, one after the other. -/
def putAll (key : ρ → κ) (rows new : List ρ) : List ρ :=
    new.foldl (fun rows row => put key row rows) rows

section Many

variable {new : List ρ} {p : ρ → Bool}

theorem nodup_putAll (hn : (rows.map key).Nodup) : ((putAll key rows new).map key).Nodup := by
  induction new generalizing rows with
  | nil => exact hn
  | cons row new ih => exact ih (nodup_put hn)

theorem filter_putAll (hp : OnKey key p) (h : ∀ r ∈ new, p r = true) :
    (putAll key rows new).filter p = putAll key (rows.filter p) new := by
  induction new generalizing rows with
  | nil => rfl
  | cons row new ih =>
    obtain ⟨hrow, hnew⟩ := forall_mem_cons.mp h
    show (putAll key (put key row rows) new).filter p = putAll key (put key row (rows.filter p)) new
    rw [ih hnew, filter_put hp hrow]

theorem filter_putAll_of_not (hp : OnKey key p) (h : ∀ r ∈ new, p r = false) :
    (putAll key rows new).filter p = rows.filter p := by
  induction new generalizing rows with
  | nil => rfl
  | cons row new ih =>
    obtain ⟨hrow, hnew⟩ := forall_mem_cons.mp h
    show (putAll key (put key row rows) new).filter p = rows.filter p
    rw [ih hnew, filter_put_of_not hp hrow]

/-- A row that is there already changes nothing. -/
theorem put_of_mem (hn : (rows.map key).Nodup) (h : row ∈ rows) : put key row rows = rows := by
  unfold put
  rw [(find_eq_some hn).mpr ⟨h, rfl⟩]
  refine (map_congr_left ?_).trans (map_id _)
  intro r hr
  by_cases hkey : key r = key row
  · rw [if_pos hkey, inj_on_of_nodup_map hn hr h hkey]
    rfl
  · rw [if_neg hkey]
    rfl

theorem put_of_find_none (h : find key (key row) rows = none) :
    put key row rows = rows ++ [row] := by
  unfold put
  rw [h]

end Many

end Wokcore.Lib.Table
