import Wokcore.Lib.Word
import Wokcore.Core.Config

/-!
# The configuration file (`crates/wokcore-storage/src/config`)

`ConfigStore` keeps one versioned configuration in one file. `commit` validates the candidate, takes
a lock file, checks the revision against the file, and replaces the file by writing a temporary one
and renaming it. Every system call on the way can fail, and what the caller may conclude depends on
which: up to the rename nothing has changed, from the rename on the new document is there although
the call still answers with an I/O error.

The document format is a parameter. A `Codec` is an encoder that may refuse a configuration (the
format has no integers above `i64::MAX`) and a decoder that may refuse a document; what the store
relies on is that a document it wrote reads back as what it wrote. The rename is atomic: the file
holds the old document or the new one.
-/

set_option autoImplicit false

namespace Wokcore.Storage

open Lib Wokcore.Core

structure ServerConfig where
  port : Nat
deriving DecidableEq, Repr

structure AppConfig where
  server : ServerConfig
  providers : ProviderConfig
  routing : RoutingConfig
deriving DecidableEq

/-- `AppConfig::default`. -/
def AppConfig.initial : AppConfig := ⟨⟨10101⟩, {}, {}⟩

/-- `VersionedConfig`; `PersistedConfig` holds the same data flat. -/
structure VersionedConfig where
  revision : Nat
  config : AppConfig
deriving DecidableEq

/-- The document format of the file. -/
structure Codec where
  Document : Type
  encode : VersionedConfig → Option Document
  decode : Document → Option VersionedConfig
  round_trip : ∀ config document, encode config = some document → decode document = some config

/-- The `StorageError`s the configuration store answers with. -/
inductive StorageError where
  | revisionConflict (expected actual : Nat)
  | invalidConfig (message : String)
  | serializeConfig (message : String)
  | io
deriving DecidableEq, Repr

abbrev Result (α : Type*) := Except StorageError α

def validate (parseUrl : UrlParser) (config : AppConfig) : Result Unit :=
  if config.server.port = 0 then .error (.invalidConfig "server port must be non-zero")
  else
    match validateProviderConfigurationShape parseUrl config.providers config.routing with
    | .error _ =>
        .error (.invalidConfig "Provider or routing configuration has an invalid shape")
    | .ok () => .ok ()

/-- What the file at the store's path holds, `none` while it does not exist. -/
abbrev Disk (codec : Codec) := Option codec.Document

/-- Which of the system calls of one `commit` fail. -/
structure CommitFaults where
  /-- Opening the lock file or locking it. -/
  lock : Bool := false
  /-- Reading the current document. -/
  read : Bool := false
  /-- Creating, writing or syncing the temporary file. -/
  write : Bool := false
  rename : Bool := false
  /-- Syncing the parent directory, after the rename. -/
  syncParent : Bool := false
  unlock : Bool := false
deriving DecidableEq, Repr

variable (parseUrl : UrlParser) (codec : Codec) (disk : Disk codec)

/-- `load`. A missing file is the default configuration at revision zero. -/
def load (readFails : Bool) : Result VersionedConfig :=
  if readFails then .error .io
  else
    match disk with
    | none => .ok ⟨0, .initial⟩
    | some document =>
        match codec.decode document with
        | none =>
            .error (.invalidConfig "configuration document does not match the supported schema")
        | some loaded =>
            match validate parseUrl loaded.config with
            | .error e => .error e
            | .ok () => .ok loaded

/-- `replace_atomically`: the file afterwards, and the answer. -/
def replaceAtomically (document : codec.Document) (faults : CommitFaults) :
    Disk codec × Result Unit :=
  if faults.write then (disk, .error .io)
  else if faults.rename then (disk, .error .io)
  else if faults.syncParent then (some document, .error .io)
  else (some document, .ok ())

def commitLocked (expectedRevision : Nat) (candidate : AppConfig)
    (faults : CommitFaults) : Disk codec × Result VersionedConfig :=
  match load parseUrl codec disk faults.read with
  | .error e => (disk, .error e)
  | .ok current =>
      if expectedRevision ≠ current.revision then
        (disk, .error (.revisionConflict expectedRevision current.revision))
      else
        match checkedAdd u64Max current.revision 1 with
        | none => (disk, .error (.invalidConfig "configuration revision cannot exceed u64::MAX"))
        | some revision =>
            match codec.encode ⟨revision, candidate⟩ with
            | none => (disk, .error (.serializeConfig "configuration could not be encoded"))
            | some document =>
                match replaceAtomically codec disk document faults with
                | (disk, .error e) => (disk, .error e)
                | (disk, .ok ()) => (disk, .ok ⟨revision, candidate⟩)

/-- `commit`. An unlock failure after a successful replacement is reported as an I/O error. -/
def commit (expectedRevision : Nat) (candidate : AppConfig)
    (faults : CommitFaults) : Disk codec × Result VersionedConfig :=
  match validate parseUrl candidate with
  | .error e => (disk, .error e)
  | .ok () =>
      if faults.lock then (disk, .error .io)
      else
        match commitLocked parseUrl codec disk expectedRevision candidate faults with
        | (disk, .error e) => (disk, .error e)
        | (disk, .ok committed) =>
          if faults.unlock then (disk, .error .io) else (disk, .ok committed)

/-! ## What a commit can do to the file -/

variable {parseUrl codec} {disk' : Disk codec} {expectedRevision : Nat} {candidate : AppConfig}
  {faults : CommitFaults}

/-- **A commit leaves the file or replaces it by the new revision.** It answers `Ok` only in the
    second case, and an error in it only if a step after the rename has failed. -/
theorem commit_cases {disk : Disk codec} {r : Result VersionedConfig}
    (h : commit parseUrl codec disk expectedRevision candidate faults = (disk', r)) :
    (∃ e, r = .error e ∧ disk' = disk) ∨
    (load parseUrl codec disk' false = .ok ⟨expectedRevision + 1, candidate⟩ ∧
      (r = .ok ⟨expectedRevision + 1, candidate⟩ ∨
        (r = .error .io ∧ (faults.syncParent = true ∨ faults.unlock = true)))) := by
  unfold commit at h
  cases hv : validate parseUrl candidate with
  | error e => rw [hv] at h; cases h; exact Or.inl ⟨e, rfl, rfl⟩
  | ok u =>
  rw [hv] at h
  dsimp only at h
  split at h
  · cases h; exact Or.inl ⟨_, rfl, rfl⟩
  -- What is left is the locked part; its early exits leave the file alone.
  unfold commitLocked at h
  cases hl : load parseUrl codec disk faults.read with
  | error e => rw [hl] at h; cases h; exact Or.inl ⟨e, rfl, rfl⟩
  | ok current =>
  rw [hl] at h
  dsimp only at h
  by_cases hrev : expectedRevision = current.revision
  swap
  · rw [if_pos hrev] at h; cases h; exact Or.inl ⟨_, rfl, rfl⟩
  rw [if_neg (by simpa using hrev)] at h
  cases hadd : checkedAdd u64Max current.revision 1 with
  | none => rw [hadd] at h; cases h; exact Or.inl ⟨_, rfl, rfl⟩
  | some revision =>
  rw [hadd] at h
  obtain ⟨_, rfl⟩ := checkedAdd_eq_some.mp hadd
  dsimp only at h
  cases henc : codec.encode ⟨current.revision + 1, candidate⟩ with
  | none => rw [henc] at h; cases h; exact Or.inl ⟨_, rfl, rfl⟩
  | some document =>
  rw [henc] at h
  dsimp only at h
  have hload : load parseUrl codec (some document) false =
      .ok ⟨expectedRevision + 1, candidate⟩ := by
    unfold load
    simp only [Bool.false_eq_true, if_false, codec.round_trip _ _ henc, hv, hrev]
  unfold replaceAtomically at h
  by_cases hw : faults.write = true
  · rw [if_pos hw] at h; cases h; exact Or.inl ⟨_, rfl, rfl⟩
  rw [if_neg hw] at h
  by_cases hr : faults.rename = true
  · rw [if_pos hr] at h; cases h; exact Or.inl ⟨_, rfl, rfl⟩
  rw [if_neg hr] at h
  by_cases hs : faults.syncParent = true
  · rw [if_pos hs] at h; cases h; exact Or.inr ⟨hload, Or.inr ⟨rfl, Or.inl hs⟩⟩
  rw [if_neg hs] at h
  dsimp only at h
  by_cases hu : faults.unlock = true
  · rw [if_pos hu] at h; cases h; exact Or.inr ⟨hload, Or.inr ⟨rfl, Or.inr hu⟩⟩
  rw [if_neg hu] at h
  cases h
  exact Or.inr ⟨hload, Or.inl (by rw [hrev])⟩

end Wokcore.Storage
