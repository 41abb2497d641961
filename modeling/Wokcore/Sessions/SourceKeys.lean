import Mathlib.Data.List.Nodup
import Wokcore.Lib.Echo
import Wokcore.Lib.Word

/-!
# Which key a session file gets (`crates/wokcore-sessions/src/codex.rs`, `claude.rs`)

A file whose identity is known keeps the key under which it is persisted, and a new file gets the
key of its path, or another one if that is taken. A full scan reserves the keys of all known files
before it gives out any other. The slices decide file by file: a new file takes the key of its path
as long as the known file that owns the key has not been seen, which then finds it taken. Both
scanners work like this; only Codex checks again that a new key is free.
-/

set_option autoImplicit false

namespace Wokcore.Sessions

open Lib Outcome List
open Prod (fst snd)

inductive KeyError where
  /-- `StableRecordConflict` of a "Session file identity". -/
  | fileIdentity
  /-- `StableRecordConflict` of a "Session source key". -/
  | sourceKey
  | parse
deriving DecidableEq

/-- A persisted source, with the file identities of its scan cursors. -/
structure PersistedSource (ι κ : Type) where
  sourceKey : κ
  current : Option ι
  staging : Option ι

/-- A discovered file. `path_source_key` and `collision_source_key` are digests, the second one also
    of a counter. -/
structure DiscoveredFile (ι κ : Type) where
  identity : ι
  pathKey : κ
  collisionKey : Nat → κ

section

variable {ι κ : Type} [DecidableEq ι] [DecidableEq κ]

/-- The file identities of all scan cursors, with the keys of their sources. -/
def cursors (sources : List (PersistedSource ι κ)) : List (ι × κ) :=
  sources.flatMap fun source =>
    (source.current.toList ++ source.staging.toList).map fun identity =>
      (identity, source.sourceKey)

def knownKey (sources : List (PersistedSource ι κ)) (identity : ι) : Option κ :=
    (cursors sources).lookup identity

/-- `persisted_identity_sources`: no identity may have two keys. -/
def persistedIdentitySources (sources : List (PersistedSource ι κ)) : Except KeyError
    (ι → Option κ) := do
  rejectIf (!decide ((cursors sources).Pairwise fun c d => c.1 = d.1 → c.2 = d.2)) .fileIdentity
  return knownKey sources

/-- The loop over the collision keys, which fails where its counter would overflow. -/
def freeKey (taken : κ → Bool) (collisionKey : Nat → κ) (remaining counter : Nat) :
    Except KeyError κ :=
  if taken (collisionKey counter) then
    match remaining with
    | 0 => .error .parse
    | remaining + 1 => freeKey taken collisionKey remaining (counter + 1)
  else .ok (collisionKey counter)

/-- `reserved_keys`: each key with the identity of its file. -/
abbrev Reserved (ι κ : Type) := List (κ × ι)

/-- The key of a file that is not known. -/
def newKey (persisted : List κ) (reserved : Reserved ι κ) (file : DiscoveredFile ι κ) :
    Except KeyError κ :=
  let taken := reserved.map fst
  if file.pathKey ∈ taken then
    freeKey (fun key => decide (key ∈ taken ∨ key ∈ persisted)) file.collisionKey u64Max 0
  else .ok file.pathKey

def reserve (reserved : Reserved ι κ) (identity : ι) (key : κ) : Except KeyError (Reserved ι κ) :=
    do
  rejectIf (decide (key ∈ reserved.map fst)) .sourceKey
  return (key, identity) :: reserved

/-- The first loop of a full scan. -/
def reserveKnown (known : ι → Option κ) (reserved : Reserved ι κ) (file : DiscoveredFile ι κ) :
    Except KeyError (Reserved ι κ) :=
  match known file.identity with
  | none => .ok reserved
  | some key => reserve reserved file.identity key

/-- The second loop of a full scan. -/
def reserveNew (known : ι → Option κ) (persisted : List κ) (reserved : Reserved ι κ)
    (file : DiscoveredFile ι κ) :
    Except KeyError (Reserved ι κ) :=
  match known file.identity with
  | some _ => .ok reserved
  | none => do
    let key ← newKey persisted reserved file
    reserve reserved file.identity key

/-- The assignment of a full scan. -/
def scanKeys (sources : List (PersistedSource ι κ)) (files : List (DiscoveredFile ι κ)) :
    Except KeyError (Reserved ι κ) := do
  let known ← persistedIdentitySources sources
  let reserved ← files.foldlM (reserveKnown known) []
  files.foldlM (reserveNew known (sources.map PersistedSource.sourceKey)) reserved

/-- `observe`. A file that has been observed has a reserved key. -/
def observe (known : ι → Option κ) (persisted : List κ) (reserved : Reserved ι κ)
    (file : DiscoveredFile ι κ) :
    Except KeyError (Reserved ι κ) :=
  if file.identity ∈ reserved.map snd then .ok reserved
  else do
    let key ← (known file.identity).elim (newKey persisted reserved file) .ok
    rejectIf ((reserved.lookup key).any fun existing => existing ≠ file.identity) .sourceKey
    return (key, file.identity) :: reserved

/-- The assignment of the slices. -/
def sliceKeys (sources : List (PersistedSource ι κ)) (files : List (DiscoveredFile ι κ)) :
    Except KeyError (Reserved ι κ) := do
  let known ← persistedIdentitySources sources
  files.foldlM (observe known (sources.map PersistedSource.sourceKey)) []

end

/-! ## Two assignments side by side -/

variable {ι κ : Type} {known : ι → Option κ} {a b c : Reserved ι κ} {file : DiscoveredFile ι κ}
  {files : List (DiscoveredFile ι κ)} {key : κ}

/-- The file `g` does not own the key of the path at which the new file `f` is. -/
def Unclaimed (known : ι → Option κ) (f g : DiscoveredFile ι κ) : Prop :=
  known f.identity = none → known g.identity ≠ some f.pathKey

/-- The full scan and the slices before the same files. What the scan has reserved beyond the slices
    are the keys of the known files among them. -/
structure Beside (known : ι → Option κ) (files : List (DiscoveredFile ι κ)) (a b : Reserved ι κ) :
    Prop where
  pairs : ∀ p, p ∈ a ↔ p ∈ b ∨ ∃ g ∈ files, known g.identity = some p.1 ∧ g.identity = p.2
  keys : (a.map fst).Nodup
  identities : (files.map DiscoveredFile.identity).Nodup
  fresh : ∀ g ∈ files, g.identity ∉ b.map snd

theorem Beside.mem_keys (h : Beside known files a b) :
    key ∈ a.map fst ↔ key ∈ b.map fst ∨ ∃ g ∈ files, known g.identity = some key := by
  simp only [mem_map, h.pairs, or_and_right, exists_or]
  refine or_congr_right ⟨?_, fun ⟨g, hg, hk⟩ => ⟨(key, g.identity), ⟨g, hg, hk, rfl⟩, rfl⟩⟩
  rintro ⟨p, ⟨g, hg, hk, -⟩, rfl⟩
  exact ⟨g, hg, hk⟩

/-- The key of a known file that is still to come has not been given out. -/
theorem Beside.kept (h : Beside known files a b) {g : DiscoveredFile ι κ} (hg : g ∈ files)
    (hk : known g.identity = some key) : key ∉ b.map fst := by
  intro hmem
  obtain ⟨p, hp, rfl⟩ := mem_map.mp hmem
  have heq := inj_on_of_nodup_map h.keys ((h.pairs p).mpr (.inl hp))
    ((h.pairs (p.1, g.identity)).mpr (.inr ⟨g, hg, hk, rfl⟩)) rfl
  exact h.fresh g hg (mem_map.mpr ⟨p, hp, congrArg snd heq⟩)

/-- The slices have given the first file its key. -/
theorem Beside.step (h : Beside known (file :: files) a b) (hkeys : (c.map fst).Nodup)
    (hpairs : ∀ p, p ∈ c ↔ p = (key, file.identity) ∨ p ∈ b ∨
      ∃ g ∈ files, known g.identity = some p.1 ∧ g.identity = p.2) :
    Beside known files c ((key, file.identity) :: b) := by
  obtain ⟨hid, hids⟩ := nodup_cons.mp h.identities
  refine ⟨by simpa only [mem_cons, or_assoc] using hpairs, hkeys, hids, fun g hg => ?_⟩
  rw [map_cons, mem_cons, not_or]
  exact ⟨fun heq => hid (mem_map.mpr ⟨g, hg, heq⟩), h.fresh g (mem_cons_of_mem _ hg)⟩

/-! ## The loops -/

/-- What a loop over files does that gives a key to those with `p`. -/
structure Reserves (p : DiscoveredFile ι κ → Bool) (files : List (DiscoveredFile ι κ))
    (a b : Reserved ι κ) : Prop where
  subset : a ⊆ b
  keys : (a.map fst).Nodup → (b.map fst).Nodup
  identities : (b.map snd).Perm ((files.filter p).map DiscoveredFile.identity ++ a.map snd)

variable [DecidableEq κ] {persisted : List κ} {identity : ι}

theorem reserve_eq_ok : reserve a identity key = .ok b ↔ key ∉ a.map fst ∧
    (key, identity) :: a = b := by
  simp only [reserve, do_ok, rejectIf_eq_ok, decide_eq_false_iff_not]

theorem Reserves.of_foldlM {p : DiscoveredFile ι κ → Bool}
    {step : Reserved ι κ → DiscoveredFile ι κ → Except KeyError (Reserved ι κ)}
    (hstep : ∀ {a b file}, step a file = .ok b →
      if p file then ∃ key, reserve a file.identity key = .ok b else a = b)
    (h : files.foldlM step a = .ok b) : Reserves p files a b := by
  induction files generalizing a with
  | nil =>
    cases h
    exact ⟨fun _ => id, id, .refl _⟩
  | cons file files ih =>
    obtain ⟨middle, hfirst, hrest⟩ := do_eq_ok.mp ((foldlM_cons ..).symm.trans h)
    have hrest := ih hrest
    have hfirst := hstep hfirst
    split at hfirst
    · next hp =>
      obtain ⟨key, hkey⟩ := hfirst
      obtain ⟨hfree, rfl⟩ := reserve_eq_ok.mp hkey
      refine ⟨fun _ hmem => hrest.subset (.tail _ hmem), fun hnd =>
        hrest.keys (nodup_cons.mpr ⟨hfree, hnd⟩), ?_⟩
      rw [filter_cons_of_pos hp]
      exact hrest.identities.trans perm_middle
    · next hp =>
      subst hfirst
      refine ⟨hrest.subset, hrest.keys, ?_⟩
      rw [filter_cons_of_neg hp]
      exact hrest.identities

theorem reserves_known (h : files.foldlM (reserveKnown known) a = .ok b) :
    Reserves (fun file => (known file.identity).isSome) files a b := by
  refine .of_foldlM (fun h => ?_) h
  unfold reserveKnown at h
  split at h
  · next hnone => simpa [hnone] using h
  · next key hsome => simpa [hsome] using ⟨key, h⟩

theorem reserves_new (h : files.foldlM (reserveNew known persisted) a = .ok b) :
    Reserves (fun file => !(known file.identity).isSome) files a b := by
  refine .of_foldlM (fun h => ?_) h
  unfold reserveNew at h
  split at h
  · next key hsome => simpa [hsome] using h
  · next hnone =>
    obtain ⟨key, -, h⟩ := do_eq_ok.mp h
    simpa [hnone] using ⟨key, h⟩

/-- The known files are reserved, each under its key. -/
theorem mem_of_reserveKnown (h : files.foldlM (reserveKnown known) a = .ok b) (p : κ × ι) :
    p ∈ b ↔ p ∈ a ∨ ∃ file ∈ files, known file.identity = some p.1 ∧ file.identity = p.2 := by
  induction files generalizing a with
  | nil =>
    cases h
    simp
  | cons file files ih =>
    obtain ⟨middle, hfirst, hrest⟩ := do_eq_ok.mp ((foldlM_cons ..).symm.trans h)
    rw [ih hrest, exists_mem_cons_iff]
    unfold reserveKnown at hfirst
    split at hfirst
    · next hnone =>
      cases hfirst
      simp [hnone]
    · next key hsome =>
      obtain ⟨-, rfl⟩ := reserve_eq_ok.mp hfirst
      rw [mem_cons, hsome, Option.some.injEq, Prod.ext_iff, eq_comm, eq_comm (a := p.2)]
      tauto

variable [DecidableEq ι]

theorem observe_eq_cons (hfresh : file.identity ∉ a.map snd) (hfree : key ∉ a.map fst)
    (hkey : (known file.identity).elim (newKey persisted a file) .ok = .ok key) :
    observe known persisted a file = .ok ((key, file.identity) :: a) := by
  have hlookup : a.lookup key = none := lookup_eq_none_iff.mpr fun pair hpair =>
    bne_iff_ne.mpr fun heq => hfree (heq ▸ mem_map_of_mem hpair)
  rw [observe, if_neg hfresh, hkey, ok_bind, hlookup]
  rfl

theorem subset_of_observe (h : observe known persisted a file = .ok b) : a ⊆ b := by
  unfold observe at h
  split at h
  · cases h
    exact fun _ => id
  · simp only [do_ok] at h
    obtain ⟨key, -, -, rfl⟩ := h
    exact subset_cons_self _ _

/-- **Side by side.** After a full scan that succeeds, the slices give out the same keys exactly if
    no new file comes before the known file that owns the key of its path. -/
theorem Beside.run (hpersisted : ∀ identity key, known identity = some key → key ∈ persisted)
    (h : Beside known files a b) (hscan : files.foldlM (reserveNew known persisted) a = .ok c) :
    (∃ d, files.foldlM (observe known persisted) b = .ok d ∧ ∀ p, p ∈ d ↔ p ∈ c) ↔
      files.Pairwise (Unclaimed known) := by
  induction files generalizing a b with
  | nil =>
    cases hscan
    exact ⟨fun _ => .nil, fun _ => ⟨b, rfl, fun p => by simp [h.pairs]⟩⟩
  | cons file files ih =>
    obtain ⟨middle, hfirst, hrest⟩ := do_eq_ok.mp ((foldlM_cons ..).symm.trans hscan)
    have hfresh := h.fresh file mem_cons_self
    have hpairs := h.pairs
    simp only [exists_mem_cons_iff] at hpairs
    rw [pairwise_cons]
    cases hknown : known file.identity with
    | some key =>
      rw [reserveNew, hknown] at hfirst
      cases hfirst
      have hnext : Beside known files a ((key, file.identity) :: b) := by
        refine h.step h.keys fun p => ?_
        rw [hpairs, hknown, Option.some.injEq, Prod.ext_iff, eq_comm, eq_comm (a := file.identity)]
        tauto
      rw [foldlM_cons_of_ok (observe_eq_cons hfresh (h.kept mem_cons_self hknown)
        (by rw [hknown]; rfl)), ih hnext hrest]
      simp [Unclaimed, hknown]
    | none =>
      rw [reserveNew, hknown] at hfirst
      obtain ⟨key, hnew, hfirst⟩ := do_eq_ok.mp hfirst
      obtain ⟨hfree, rfl⟩ := reserve_eq_ok.mp hfirst
      have hkeys : ∀ k, k ∈ a.map fst ↔ k ∈ b.map fst ∨ ∃ g ∈ files, known g.identity = some k := by
        intro k
        rw [h.mem_keys, exists_mem_cons_iff, hknown]
        simp
      by_cases hclaimed : ∃ g ∈ files, known g.identity = some file.pathKey
      · obtain ⟨g, hg, hk⟩ := hclaimed
        have hunseen := h.kept (mem_cons_of_mem _ hg) hk
        refine ⟨?_, fun hp => absurd hk (hp.1 g hg hknown)⟩
        -- the slices take the key of the path, which the scan has reserved for another file
        rintro ⟨d, hd, hsame⟩
        rw [foldlM_cons_of_ok
          (observe_eq_cons hfresh hunseen
            (by rw [hknown, Option.elim, newKey, if_neg hunseen]))] at hd
        have hmine :=
          (hsame _).mp
          (rel_of_foldlM (R := (· ⊆ ·)) (fun _ => Subset.refl _) Subset.trans subset_of_observe hd
            mem_cons_self)
        have hloop := reserves_new hscan
        have hits :=
          hloop.subset ((hpairs (file.pathKey, g.identity)).mpr (.inr (.inr ⟨g, hg, hk, rfl⟩)))
        have heq := congrArg snd (inj_on_of_nodup_map (hloop.keys h.keys) hmine hits rfl)
        exact absurd (mem_map.mpr ⟨g, hg, heq.symm⟩) (nodup_cons.mp h.identities).1
      · have hall : ∀ k, (k ∈ a.map fst ∨ k ∈ persisted) ↔ (k ∈ b.map fst ∨ k ∈ persisted) := by
          intro k
          rw [hkeys]
          tauto
        simp only [newKey, hkeys file.pathKey, hclaimed, or_false, hall] at hnew
        have hnext : Beside known files ((key, file.identity) :: a)
            ((key, file.identity) :: b) := by
          refine h.step (nodup_cons.mpr ⟨hfree, h.keys⟩) fun p => ?_
          rw [mem_cons, hpairs, hknown]
          simp
        have hunused : key ∉ b.map fst := fun hmem => hfree ((hkeys key).mpr (.inl hmem))
        rw [foldlM_cons_of_ok (observe_eq_cons hfresh hunused (by rw [hknown]; exact hnew)),
          ih hnext hrest]
        exact ⟨fun hp => ⟨fun g hg _ hk => hclaimed ⟨g, hg, hk⟩, hp⟩, fun hp => hp.2⟩

/-! ## Whole assignments -/

variable {sources : List (PersistedSource ι κ)} {scan : Reserved ι κ}

omit [DecidableEq κ] in
theorem mem_sourceKeys (h : knownKey sources identity = some key) :
    key ∈ sources.map PersistedSource.sourceKey := by
  obtain ⟨before, after, heq, -⟩ := lookup_eq_some_iff.mp h
  have hmem : (identity, key) ∈ cursors sources := by simp [heq]
  obtain ⟨source, hsource, hcursor⟩ := mem_flatMap.mp hmem
  obtain ⟨_, -, hpair⟩ := mem_map.mp hcursor
  exact mem_map.mpr ⟨source, hsource, congrArg snd hpair⟩

theorem persistedIdentitySources_eq_ok (h : persistedIdentitySources sources = .ok known) :
    knownKey sources = known := by
  simp only [persistedIdentitySources, do_ok] at h
  exact h.2

theorem loops_of_scanKeys (h : scanKeys sources files = .ok scan) : ∃ reserved,
    files.foldlM (reserveKnown (knownKey sources)) [] = .ok reserved ∧
      files.foldlM (reserveNew (knownKey sources) (sources.map PersistedSource.sourceKey))
        reserved = .ok scan := by
  obtain ⟨known, hknown, h⟩ := do_eq_ok.mp h
  obtain rfl := persistedIdentitySources_eq_ok hknown
  exact do_eq_ok.mp h

/-- A known file has its persisted key. -/
theorem known_of_scanKeys (h : scanKeys sources files = .ok scan) (hfile : file ∈ files)
    (hkey : knownKey sources file.identity = some key) : (key, file.identity) ∈ scan := by
  obtain ⟨reserved, hfirst, hsecond⟩ := loops_of_scanKeys h
  exact (reserves_new hsecond).subset
    ((mem_of_reserveKnown hfirst _).mpr (.inr ⟨file, hfile, hkey, rfl⟩))

/-- **The slices and the full scan.** A full scan that succeeds gives every file one key and no key
    to two files. The slices give out the same keys exactly if no new file comes before the known
    file that owns the key of its path. Where the full scan takes the files in another order (that
    of Claude sorts them by path), known files still have their persisted keys: the order can only
    change the keys of new files. -/
theorem sliceKeys_iff (hids : (files.map DiscoveredFile.identity).Nodup)
    (hscan : scanKeys sources files = .ok scan) :
    ((∃ slices, sliceKeys sources files = .ok slices ∧ ∀ p, p ∈ slices ↔ p ∈ scan) ↔
      files.Pairwise (Unclaimed (knownKey sources))) ∧
    (scan.map Prod.fst).Nodup ∧ (scan.map Prod.snd).Perm (files.map DiscoveredFile.identity) ∧
    ∀ order scan', order.Perm files → scanKeys sources order = .ok scan' →
      ∀ file ∈ files, ∀ key, knownKey sources file.identity = some key →
      (key, file.identity) ∈ scan' := by
  obtain ⟨known, hknown, -⟩ := do_eq_ok.mp hscan
  obtain ⟨reserved, hfirst, hsecond⟩ := loops_of_scanKeys hscan
  rw [sliceKeys, hknown, ok_bind, ← persistedIdentitySources_eq_ok hknown]
  have hloop := reserves_known hfirst
  have hloop' := reserves_new hsecond
  have hkeys := hloop.keys .nil
  refine ⟨Beside.run (fun _ _ => mem_sourceKeys)
      ⟨mem_of_reserveKnown hfirst, hkeys, hids, fun _ _ => not_mem_nil⟩ hsecond,
      hloop'.keys hkeys, ?_, ?_⟩
  · have hboth := hloop'.identities.trans (hloop.identities.append_left _)
    rw [map_nil, append_nil, ← map_append] at hboth
    exact hboth.trans ((perm_append_comm.trans (filter_append_perm ..)).map _)
  · intro order scan' hperm hscan' file hfile key hkey
    exact known_of_scanKeys hscan' (hperm.mem_iff.mpr hfile) hkey

/-- A file that has been moved, and a new file at its old path. -/
def movedFile : DiscoveredFile Nat Nat := ⟨1, 20, fun counter => 100 + counter⟩

@[inherit_doc movedFile]
def replacement : DiscoveredFile Nat Nat := ⟨2, 10, fun counter => 200 + counter⟩

def persistedBefore : List (PersistedSource Nat Nat) := [⟨10, some 1, none⟩]

theorem sliceKeys_of_movedFile_first :
    ∃ slices, sliceKeys persistedBefore [movedFile, replacement] = .ok slices ∧
      ∀ p, p ∈ slices ↔ p ∈ [(200, 2), (10, 1)] :=
  (sliceKeys_iff (by decide) (show scanKeys persistedBefore [movedFile, replacement] =
    .ok [(200, 2), (10, 1)] by
    decide +kernel)).1.mpr (by unfold Unclaimed; decide +kernel)

/-- The full scan has a key for either file, and the slices fail at the second one. -/
theorem sliceKeys_of_replacement_first :
    scanKeys persistedBefore [replacement, movedFile] = .ok [(200, 2), (10, 1)] ∧
      sliceKeys persistedBefore [replacement, movedFile] = .error .sourceKey := by
  decide +kernel

end Wokcore.Sessions
