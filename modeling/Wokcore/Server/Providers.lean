import Wokcore.Engine.Reconfigure
import Wokcore.Engine.Snapshot
import Wokcore.Storage.ConfigStore

/-!
# Provider management (`crates/wokcore-server/src/providers.rs`)

`ProviderManagement` owns the active configuration in memory, the file it was loaded from, and the
execution snapshot requests run on: the compiled routes and the account health table. `commit` and
`reload` are serialised by the `mutation` lock, so a call is one step here. Requests keep using the
health table while such a call is under way; the table is read only when the call publishes, so the
health calls that matter are those that land between the durable write and the publication, and they
are an argument (`during`).

`install` ends in an `expect`. A failed `expect` unwinds the task the call runs in, and
`await_owned` turns that into `StorageFailure`; `Abort` keeps the two apart, since only one of them
leaves the file ahead of memory.
-/

set_option autoImplicit false

namespace Wokcore.Server

open Lib Wokcore.Core Engine Storage
open AccountHealthTable (TableOp defaultPolicy tableStep)

structure ProviderCandidate where
  providers : ProviderConfig
  routing : RoutingConfig
deriving DecidableEq

inductive ReloadStatus where
  | ready
  | failed
deriving DecidableEq, Repr

structure ProviderCommit where
  revision : Nat
  snapshotRevision : Nat
  providerCount : Nat
  models : List PublicModelMetadata
deriving DecidableEq

structure ActiveConfiguration where
  revision : Nat
  snapshotRevision : Nat
  metadataUpdatedAtMs : Nat
  reloadStatus : ReloadStatus
  server : ServerConfig
  candidate : ProviderCandidate
deriving DecidableEq

structure ProviderExecutionSnapshot where
  snapshot : RuntimeSnapshot
  accountHealth : AccountHealthTable

/-- The `ProviderManagementError`s of the calls modelled here. -/
inductive ProviderManagementError where
  | invalidConfiguration
  | revisionConflict
  | secretNotFound
  | secretAlreadyExists
  | secretInUse
  | secretProtected
  | readOnlySecretStore
  | storageFailure
deriving DecidableEq, Repr

/-- How an owned task can end without a value: with an error it returned, or unwinding. -/
inductive Abort where
  | returned (e : ProviderManagementError)
  | panicked
deriving DecidableEq, Repr

/-- `await_owned`: a task that did not finish is a storage failure to the caller. -/
def awaitOwned {α : Type} : Except Abort α → Except ProviderManagementError α
  | .ok a => .ok a
  | .error (.returned e) => .error e
  | .error .panicked => .error .storageFailure

/-! ## Helpers -/

def authReferencesAny (auth : AccountAuthConfig) (secrets : List SecretRef) : Bool :=
  match auth with
  | .forward credential => secrets.contains credential
  | .oauth access refresh => secrets.contains access || refresh.any secrets.contains
  | .apiKey secret => secrets.contains secret
  | .local => false

def authReferences (auth : AccountAuthConfig) (secretRef : SecretRef) : Bool :=
  match auth with
  | .forward credential => credential == secretRef
  | .oauth access refresh => access == secretRef || refresh == some secretRef
  | .apiKey secret => secret == secretRef
  | .local => false

def activeAccountIds (candidate : ProviderCandidate) : List AccountId :=
  (candidate.providers.accounts.filter AccountConfig.enabled).map AccountConfig.id

/-- `default_account_health_policy`. -/
def defaultAccountHealthPolicy : AccountHealthPolicy := defaultPolicy

def mapConfigLoadError : StorageError → ProviderManagementError
  | .invalidConfig _ => .invalidConfiguration
  | .serializeConfig _ => .invalidConfiguration
  | _ => .storageFailure

def mapCommitError : StorageError → ProviderManagementError
  | .revisionConflict _ _ => .revisionConflict
  | .invalidConfig _ => .invalidConfiguration
  | .serializeConfig _ => .invalidConfiguration
  | .io => .storageFailure

/-! ## The manager -/

/-- What the whole development of the manager is stated for: a URL parser, a document format and a
    catalog. -/
structure Setting where
  parseUrl : UrlParser
  codec : Codec
  catalog : ProviderCatalog

/-- The manager's state. `disk` is the file behind its `store`. -/
structure ProviderManagement (S : Setting) where
  disk : Disk S.codec
  execution : ProviderExecutionSnapshot
  active : ActiveConfiguration
  protectedSecrets : List SecretRef

variable {S : Setting}

/-- `build_snapshot`. -/
def buildSnapshot (S : Setting) (candidate : ProviderCandidate) :
    Except ProviderManagementError RuntimeSnapshot :=
  match RuntimeSnapshot.build S.parseUrl S.catalog candidate.providers candidate.routing with
  | .error _ => .error .invalidConfiguration
  | .ok snapshot => .ok snapshot

/-- The candidate a loaded configuration stands for. -/
def candidateOf (loaded : VersionedConfig) : ProviderCandidate :=
  ⟨loaded.config.providers, loaded.config.routing⟩

namespace ProviderManagement

def fromLoaded (disk : Disk S.codec) (loaded : VersionedConfig) (nowMs : Nat) :
    Except ProviderManagementError (ProviderManagement S) :=
  let candidate := candidateOf loaded
  match buildSnapshot S candidate with
  | .error e => .error e
  | .ok snapshot =>
      match AccountHealthTable.new defaultAccountHealthPolicy (activeAccountIds candidate) with
      | .error _ => .error .invalidConfiguration
      | .ok accountHealth =>
          .ok
            { disk := disk
              execution := ⟨snapshot, accountHealth⟩
              active := ⟨loaded.revision, loaded.revision, nowMs, .ready, loaded.config.server,
                candidate⟩
              protectedSecrets := [] }

/-- `open`: load the file and start from it. -/
def openManagement (disk : Disk S.codec) (readFails : Bool) (nowMs : Nat) :
    Except ProviderManagementError (ProviderManagement S) :=
  match load S.parseUrl S.codec disk readFails with
  | .error e => .error (mapConfigLoadError e)
  | .ok loaded => fromLoaded disk loaded nowMs

variable (m : ProviderManagement S)

/-- A health call on the published table. -/
def observe (op : TableOp) : ProviderManagement S :=
  { m with execution := { m.execution with accountHealth := op.apply m.execution.accountHealth } }

def observeAll (ops : List TableOp) : ProviderManagement S :=
  ops.foldl observe m

def rejectProtectedCandidate (candidate : ProviderCandidate) :
    Except ProviderManagementError Unit :=
  if candidate.providers.accounts.any fun a => authReferencesAny a.auth m.protectedSecrets then
    .error .secretProtected
  else .ok ()

/-- `install`: rebuild the health table, publish the snapshot, then switch `active`. When the table
    cannot be rebuilt the `expect` unwinds before anything is published. -/
def install (loaded : VersionedConfig) (candidate : ProviderCandidate)
    (snapshot : RuntimeSnapshot) (nowMs : Nat) :
    ProviderManagement S × Except Abort ProviderCommit :=
  match m.execution.accountHealth.reconfigured (activeAccountIds candidate) nowMs with
  | (old, .error _) =>
      ({ m with execution := { m.execution with accountHealth := old } }, .error .panicked)
  | (_, .ok accountHealth) =>
      ({ m with
          execution := ⟨snapshot, accountHealth⟩
          active := ⟨loaded.revision, loaded.revision, nowMs, .ready, loaded.config.server,
            candidate⟩ },
        .ok ⟨loaded.revision, loaded.revision, snapshot.providerCount, snapshot.publicModels⟩)

/-- `reconcile_indeterminate_commit`: after an I/O error, look whether the file holds the new
    revision. -/
def reconcileIndeterminateCommit (committedRevision : Nat)
    (config : AppConfig) (readFails : Bool) : Except ProviderManagementError VersionedConfig :=
  match load S.parseUrl S.codec m.disk readFails with
  | .error _ => .error .storageFailure
  | .ok loaded =>
      if loaded.revision = committedRevision ∧ loaded.config = config then .ok loaded
      else .error .storageFailure

/-- What the environment does to one `commit` or `reload`: the faults of the store's system calls,
    the health calls that land before the publication, and the clock. -/
structure Environment where
  faults : CommitFaults := {}
  /-- The read of a `reload`, or of the reconciliation of a `commit`, fails. -/
  readFails : Bool := false
  during : List TableOp := []
  nowMs : Nat := 0

/-- The configuration a commit writes: the candidate under the active server settings. -/
def configFor (candidate : ProviderCandidate) : AppConfig :=
  ⟨m.active.server, candidate.providers, candidate.routing⟩

/-- The manager once the file holds `disk`. -/
def withDisk (disk : Disk S.codec) : ProviderManagement S :=
  { m with disk := disk }

/-- The `match commit_result` of `commit_owned`: only an I/O error is looked into. -/
def settleCommit (committedRevision : Nat) (config : AppConfig) (readFails : Bool) :
    Except StorageError VersionedConfig → Except ProviderManagementError VersionedConfig
  | .ok committed => .ok committed
  | .error .io => m.reconcileIndeterminateCommit committedRevision config readFails
  | .error e => .error (mapCommitError e)

/-- The part of `commit_owned` after the checks: write, reconcile, publish. -/
def writeAndInstall (expectedRevision committedRevision : Nat)
    (candidate : ProviderCandidate) (snapshot : RuntimeSnapshot) (env : Environment) :
    ProviderManagement S × Except Abort ProviderCommit :=
  let config := m.configFor candidate
  let (disk, r) := commit S.parseUrl S.codec m.disk expectedRevision config env.faults
  let m := m.withDisk disk
  match m.settleCommit committedRevision config env.readFails r with
  | .error e => (m, .error (.returned e))
  | .ok committed => (m.observeAll env.during).install committed candidate snapshot env.nowMs

def commitOwned (expectedRevision : Nat) (candidate : ProviderCandidate)
    (env : Environment) : ProviderManagement S × Except Abort ProviderCommit :=
  match buildSnapshot S candidate with
  | .error e => (m, .error (.returned e))
  | .ok snapshot =>
      match m.rejectProtectedCandidate candidate with
      | .error e => (m, .error (.returned e))
      | .ok () =>
          if m.active.revision ≠ expectedRevision then (m, .error (.returned .revisionConflict))
          else
            match checkedAdd u64Max expectedRevision 1 with
            | none => (m, .error (.returned .invalidConfiguration))
            | some committedRevision =>
                m.writeAndInstall expectedRevision committedRevision candidate snapshot env

def markReloadFailed : ProviderManagement S :=
  { m with active := { m.active with reloadStatus := .failed } }

def reloadOwned (env : Environment) : ProviderManagement S × Except Abort ProviderCommit :=
  match load S.parseUrl S.codec m.disk env.readFails with
  | .error e => (m.markReloadFailed, .error (.returned (mapConfigLoadError e)))
  | .ok loaded =>
      let candidate := candidateOf loaded
      match m.rejectProtectedCandidate candidate with
      | .error e => (m.markReloadFailed, .error (.returned e))
      | .ok () =>
          match buildSnapshot S candidate with
          | .error e => (m.markReloadFailed, .error (.returned e))
          | .ok snapshot => (m.observeAll env.during).install loaded candidate snapshot env.nowMs

def protectSecretRef (secretRef : SecretRef) :
    ProviderManagement S × Except ProviderManagementError Unit :=
  if m.active.candidate.providers.accounts.any fun a => authReferences a.auth secretRef then
    (m, .error .secretProtected)
  else if m.protectedSecrets.contains secretRef then (m, .ok ())
  else ({ m with protectedSecrets := m.protectedSecrets ++ [secretRef] }, .ok ())

end ProviderManagement

end Wokcore.Server
