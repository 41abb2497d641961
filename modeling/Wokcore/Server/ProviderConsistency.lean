import Wokcore.Server.Providers

/-!
# Memory and disk stay consistent

The manager promises that a successful `commit` is in the file and in memory, that a refused one
changed neither, and that what is published always belongs to the active configuration. `Consistent`
is the state part of that promise and `CallSound` the part about one call.

The promise depends on the last step of a call: `install` rebuilds the health table after the file
has been written, and it panics when the table holds a state `restore` rejects.
`not_sound_after_quarantined_failure` is a run in which it does, and the file is left a revision
ahead of memory. `management_sound` proves the promise for every run in which the health calls meet
the condition under which tables stay restorable.
-/

set_option autoImplicit false

namespace Wokcore.Server

open Lib Wokcore.Core Engine Storage AccountHealthTable RuntimeSnapshot
open AccountHealthTable (TableOp tableStep All)

variable {S : Setting}

/-! ## Calls -/

/-- A call on the manager, or a health call on the table it has published. -/
inductive ManagementCall where
  | commit (expectedRevision : Nat) (candidate : ProviderCandidate)
      (env : ProviderManagement.Environment)
  | reload (env : ProviderManagement.Environment)
  | protectSecretRef (secretRef : SecretRef)
  | health (op : TableOp)

def ManagementCall.apply (m : ProviderManagement S) : ManagementCall → ProviderManagement S
  | .commit expectedRevision candidate env => (m.commitOwned expectedRevision candidate env).1
  | .reload env => (m.reloadOwned env).1
  | .protectSecretRef secretRef => (m.protectSecretRef secretRef).1
  | .health op => m.observe op

def managementStep (m : ProviderManagement S) (call : ManagementCall) :
    Option (ProviderManagement S) :=
  some (call.apply m)

/-- **The condition on a call.** Every health call it makes, or that lands while it is under way, is
    one the table tolerates. -/
def ManagementCall.Tolerated (m : ProviderManagement S) : ManagementCall → Prop
  | .commit _ _ env | .reload env =>
      StepsMeet tableStep (fun t op => op.Tolerated t) m.execution.accountHealth env.during
  | .protectSecretRef _ => True
  | .health op => op.Tolerated m.execution.accountHealth

namespace ProviderManagement

variable {m : ProviderManagement S} {candidate : ProviderCandidate} {snapshot : RuntimeSnapshot}
  {disk : Disk S.codec} {expectedRevision : Nat} {loaded : VersionedConfig}

/-- What is published belongs to the active configuration. -/
structure Consistent (m : ProviderManagement S) : Prop where
  revision_eq : m.active.revision = m.active.snapshotRevision
  published : build S.parseUrl S.catalog m.active.candidate.providers
    m.active.candidate.routing = .ok m.execution.snapshot
  registered : ∀ id, (m.execution.accountHealth.get? id).isSome ↔
    id ∈ activeAccountIds m.active.candidate

/-- The file holds exactly this revision and configuration. -/
def Holds (m : ProviderManagement S) (revision : Nat) (config : AppConfig) : Prop :=
  load S.parseUrl S.codec m.disk false = .ok ⟨revision, config⟩

/-- What a call promises about the file and the active configuration. A call never ends unwinding,
    which would leave a written file unpublished. -/
def CallSound (m : ProviderManagement S) : ManagementCall → Prop
  | .commit expectedRevision candidate env =>
      let (m', r) := m.commitOwned expectedRevision candidate env
      r ≠ .error .panicked ∧
      (∀ c, awaitOwned r = .ok c →
        m'.Holds (expectedRevision + 1) (m.configFor candidate) ∧
        m'.active.revision = expectedRevision + 1 ∧ m'.active.candidate = candidate) ∧
      (∀ e, awaitOwned r = .error e → e ≠ .storageFailure → m'.disk = m.disk ∧ m'.active = m.active)
  | .reload env =>
      let (m', r) := m.reloadOwned env
      r ≠ .error .panicked ∧ m'.disk = m.disk ∧
      (∀ c, awaitOwned r = .ok c →
        m'.Holds m'.active.revision (m'.configFor m'.active.candidate))
  | .protectSecretRef secretRef =>
      (m.protectSecretRef secretRef).1.disk = m.disk ∧
        (m.protectSecretRef secretRef).1.active = m.active
  | .health op => (m.observe op).disk = m.disk ∧ (m.observe op).active = m.active

/-- `Consistent`, and the health table can be rebuilt. -/
structure Invariant (m : ProviderManagement S) : Prop extends Consistent m where
  restorable : All AccountState.Restorable m.execution.accountHealth

/-! ## Health calls -/

@[simp] theorem disk_observeAll (m : ProviderManagement S) (ops : List TableOp) :
    (m.observeAll ops).disk = m.disk := by
  induction ops generalizing m with
  | nil => rfl
  | cons op ops ih => exact ih (m.observe op)

theorem Invariant.observe (h : m.Invariant) {op : TableOp}
    (hop : op.Tolerated m.execution.accountHealth) :
    (m.observe op).Invariant := by
  refine ⟨⟨h.revision_eq, h.published, ?_⟩, ?_⟩
  · intro id
    show ((op.apply m.execution.accountHealth).get? id).isSome ↔ _
    rw [registered_apply]
    exact h.registered id
  · exact restorable_step _ op _ h.restorable hop rfl

theorem Invariant.observeAll (h : m.Invariant) {ops : List TableOp}
    (hops : StepsMeet tableStep (fun t op => op.Tolerated t) m.execution.accountHealth ops) :
    (m.observeAll ops).Invariant := by
  induction ops generalizing m with
  | nil => exact h
  | cons op ops ih => exact ih (h.observe hops.1) (hops.2 _ rfl)

theorem Invariant.withDisk (h : m.Invariant) (disk : Disk S.codec) : (m.withDisk disk).Invariant :=
  ⟨⟨h.revision_eq, h.published, h.registered⟩, h.restorable⟩

/-! ## Publishing -/

theorem build_of_buildSnapshot (h : buildSnapshot S candidate = .ok snapshot) :
    build S.parseUrl S.catalog candidate.providers candidate.routing =
      .ok snapshot := by
  unfold buildSnapshot at h
  split at h
  · cases h
  · next hb => cases h; exact hb

theorem activeAccountIds_nodup (h : buildSnapshot S candidate = .ok snapshot) :
    (activeAccountIds candidate).Nodup ∧
      (activeAccountIds candidate).length ≤ Engine.maxAccounts := by
  obtain ⟨hnd, hlen⟩ := build_accounts (build_of_buildSnapshot h)
  constructor
  · exact hnd.sublist (List.filter_sublist.map _)
  · unfold activeAccountIds
    rw [List.length_map]
    exact le_trans (List.length_filter_le _ _) hlen

/-- **Publishing succeeds on a restorable table**, and what it publishes is the new
    configuration. -/
theorem Invariant.install (h : m.Invariant) (loaded : VersionedConfig) (nowMs : Nat)
    (hb : buildSnapshot S candidate = .ok snapshot) :
    ∃ m' c, m.install loaded candidate snapshot nowMs = (m', .ok c) ∧ m'.Invariant ∧
      m'.disk = m.disk ∧ m'.active.revision = loaded.revision ∧
      m'.active.server = loaded.config.server ∧ m'.active.candidate = candidate := by
  obtain ⟨hnd, hlen⟩ := activeAccountIds_nodup hb
  obtain ⟨u, hu, hall, hreg⟩ := @All.reconfigured _ _ nowMs h.restorable hnd hlen
  have hpair : m.execution.accountHealth.reconfigured (activeAccountIds candidate) nowMs =
      ((m.execution.accountHealth.reconfigured (activeAccountIds candidate) nowMs).1, .ok u) :=
    Prod.ext rfl hu
  unfold ProviderManagement.install
  rw [hpair]
  exact ⟨_, _, rfl, ⟨⟨rfl, build_of_buildSnapshot hb, hreg⟩, hall⟩, rfl, rfl, rfl, rfl⟩

/-! ## One call -/

theorem Invariant.markReloadFailed (h : m.Invariant) : m.markReloadFailed.Invariant :=
  ⟨⟨h.revision_eq, h.published, h.registered⟩, h.restorable⟩

/-- Reconciliation answers `Ok` only with what the file holds, and otherwise with a storage
    failure. -/
theorem reconcile_cases (m : ProviderManagement S) (revision : Nat) (config : AppConfig)
    (readFails : Bool) :
    m.reconcileIndeterminateCommit revision config readFails = .error .storageFailure ∨
      (m.reconcileIndeterminateCommit revision config readFails = .ok ⟨revision, config⟩ ∧
        m.Holds revision config) := by
  unfold reconcileIndeterminateCommit
  cases readFails with
  | true => exact Or.inl rfl
  | false =>
    cases hl : load S.parseUrl S.codec m.disk false with
    | error e => exact Or.inl rfl
    | ok loaded =>
      dsimp only
      by_cases heq : loaded.revision = revision ∧ loaded.config = config
      · rw [if_pos heq]
        obtain ⟨rfl, rfl⟩ := heq
        exact Or.inr ⟨rfl, hl⟩
      · rw [if_neg heq]
        exact Or.inl rfl

/-- After the store has answered, either the file holds the new revision and the call goes on to
    publish it, or the call returns an error, and if that is not a storage failure the file is as it
    was. -/
theorem settleCommit_cases {config : AppConfig} {faults : CommitFaults}
    {r : Except StorageError VersionedConfig}
    (hc : commit S.parseUrl S.codec m.disk expectedRevision config faults = (disk, r))
    (readFails : Bool) :
    (∃ e, (m.withDisk disk).settleCommit (expectedRevision + 1) config readFails r = .error e ∧
      (e ≠ .storageFailure → disk = m.disk)) ∨
    ((m.withDisk disk).settleCommit (expectedRevision + 1) config readFails r =
        .ok ⟨expectedRevision + 1, config⟩ ∧
      (m.withDisk disk).Holds (expectedRevision + 1) config) := by
  have hio : (∃ e, (m.withDisk disk).settleCommit (expectedRevision + 1) config readFails
        (.error .io) = .error e ∧ (e ≠ .storageFailure → disk = m.disk)) ∨
      ((m.withDisk disk).settleCommit (expectedRevision + 1) config readFails (.error .io) =
          .ok ⟨expectedRevision + 1, config⟩ ∧
        (m.withDisk disk).Holds (expectedRevision + 1) config) := by
    rcases reconcile_cases (m.withDisk disk) (expectedRevision + 1) config readFails with he | hok
    · exact Or.inl ⟨_, he, fun hne => absurd rfl hne⟩
    · exact Or.inr hok
  rcases commit_cases hc with ⟨e, rfl, hdisk⟩ | ⟨hload, rfl | ⟨rfl, -⟩⟩
  · cases e with
    | io => exact hio
    | revisionConflict | invalidConfig | serializeConfig => exact Or.inl ⟨_, rfl, fun _ => hdisk⟩
  · exact Or.inr ⟨rfl, hload⟩
  · exact hio

/-- How a commit can end. -/
inductive CommitEnd (m : ProviderManagement S) (expectedRevision : Nat)
    (candidate : ProviderCandidate) :
    ProviderManagement S → Except Abort ProviderCommit → Prop
  | committed (m' : ProviderManagement S) (c : ProviderCommit)
      (holds : m'.Holds (expectedRevision + 1) (m.configFor candidate))
      (revision : m'.active.revision = expectedRevision + 1)
      (installed : m'.active.candidate = candidate) :
      CommitEnd m expectedRevision candidate m' (.ok c)
  | refused (m' : ProviderManagement S) (e : ProviderManagementError)
      (disk : e ≠ .storageFailure → m'.disk = m.disk) (active : m'.active = m.active) :
      CommitEnd m expectedRevision candidate m' (.error (.returned e))

theorem Invariant.writeAndInstall (h : m.Invariant) {env : Environment}
    (hb : buildSnapshot S candidate = .ok snapshot)
    (henv : StepsMeet tableStep (fun t op => op.Tolerated t) m.execution.accountHealth env.during) :
    ∃ m' r, m.writeAndInstall expectedRevision (expectedRevision + 1) candidate snapshot env =
      (m', r) ∧ m'.Invariant ∧ CommitEnd m expectedRevision candidate m' r := by
  unfold ProviderManagement.writeAndInstall
  cases hc : commit S.parseUrl S.codec m.disk expectedRevision
    (m.configFor candidate) env.faults with
  | mk disk r =>
  dsimp only
  rw [hc]
  have hdisk := h.withDisk disk
  rcases settleCommit_cases hc env.readFails with ⟨e, he, hsame⟩ | ⟨hok, hholds⟩
  · rw [he]
    exact ⟨_, _, rfl, hdisk, .refused _ e hsame rfl⟩
  · rw [hok]
    obtain ⟨m', c, heq, hm', hd, hrev, _, hcand⟩ :=
      (hdisk.observeAll henv).install ⟨expectedRevision + 1, m.configFor candidate⟩ env.nowMs hb
    refine ⟨m', .ok c, heq, hm', .committed m' c ?_ hrev hcand⟩
    unfold Holds
    rw [hd, disk_observeAll]
    exact hholds

theorem Invariant.commitOwned (h : m.Invariant) (expectedRevision : Nat)
    (candidate : ProviderCandidate) (env : Environment)
    (henv : StepsMeet tableStep (fun t op => op.Tolerated t) m.execution.accountHealth env.during) :
    ∃ m' r, m.commitOwned expectedRevision candidate env = (m', r) ∧
      m'.Invariant ∧ CommitEnd m expectedRevision candidate m' r := by
  unfold ProviderManagement.commitOwned
  cases hb : buildSnapshot S candidate with
  | error e => exact ⟨m, _, rfl, h, .refused m e (fun _ => rfl) rfl⟩
  | ok snapshot =>
  cases hp : m.rejectProtectedCandidate candidate with
  | error e => exact ⟨m, _, rfl, h, .refused m e (fun _ => rfl) rfl⟩
  | ok u =>
  dsimp only
  by_cases hrev : m.active.revision = expectedRevision
  swap
  · rw [if_pos hrev]
    exact ⟨m, _, rfl, h, .refused m _ (fun _ => rfl) rfl⟩
  rw [if_neg (by simpa using hrev)]
  cases hadd : checkedAdd u64Max expectedRevision 1 with
  | none => exact ⟨m, _, rfl, h, .refused m _ (fun _ => rfl) rfl⟩
  | some committedRevision =>
    obtain ⟨_, rfl⟩ := checkedAdd_eq_some.mp hadd
    exact h.writeAndInstall hb henv

theorem load_of_readFails {readFails : Bool}
    (h : load S.parseUrl S.codec disk readFails = .ok loaded) :
    load S.parseUrl S.codec disk false = .ok loaded := by
  cases readFails with
  | true => exact absurd h (by simp [load])
  | false => exact h

theorem Invariant.reloadOwned (h : m.Invariant) (env : Environment)
    (henv : StepsMeet tableStep (fun t op => op.Tolerated t) m.execution.accountHealth env.during) :
    ∃ m' r, m.reloadOwned env = (m', r) ∧ m'.Invariant ∧ m'.disk = m.disk ∧
      ((∃ c, r = .ok c ∧ m'.Holds m'.active.revision (m'.configFor m'.active.candidate)) ∨
        ∃ e, r = .error (.returned e)) := by
  unfold ProviderManagement.reloadOwned
  cases hl : load S.parseUrl S.codec m.disk env.readFails with
  | error e => exact ⟨_, _, rfl, h.markReloadFailed, rfl, Or.inr ⟨_, rfl⟩⟩
  | ok loaded =>
  dsimp only
  cases hp : m.rejectProtectedCandidate (candidateOf loaded) with
  | error e => exact ⟨_, _, rfl, h.markReloadFailed, rfl, Or.inr ⟨_, rfl⟩⟩
  | ok u =>
  cases hb : buildSnapshot S (candidateOf loaded) with
  | error e => exact ⟨_, _, rfl, h.markReloadFailed, rfl, Or.inr ⟨_, rfl⟩⟩
  | ok snapshot =>
    obtain ⟨m', c, heq, hm', hd, hrev, hserver, hcand⟩ :=
      (h.observeAll henv).install loaded env.nowMs hb
    rw [disk_observeAll] at hd
    refine ⟨m', .ok c, heq, hm', hd, Or.inl ⟨c, rfl, ?_⟩⟩
    unfold Holds configFor
    rw [hd, hrev, hserver, hcand]
    exact load_of_readFails hl

theorem protectSecretRef_cases (m : ProviderManagement S) (secretRef : SecretRef) :
    ∃ secrets, (m.protectSecretRef secretRef).1 = { m with protectedSecrets := secrets } := by
  unfold protectSecretRef
  split
  · exact ⟨m.protectedSecrets, rfl⟩
  split
  · exact ⟨m.protectedSecrets, rfl⟩
  · exact ⟨m.protectedSecrets ++ [secretRef], rfl⟩

/-- **One tolerated call keeps the invariant and its own promise.** -/
theorem Invariant.call (h : m.Invariant) {call : ManagementCall} (hcall : call.Tolerated m) :
    (call.apply m).Invariant ∧ m.CallSound call := by
  cases call with
  | commit expectedRevision candidate env =>
    obtain ⟨m', r, heq, hm', hend⟩ := h.commitOwned expectedRevision candidate env hcall
    refine ⟨by show (m.commitOwned expectedRevision candidate env).1.Invariant; rw [heq]; exact hm',
      ?_⟩
    simp only [CallSound, heq]
    cases hend with
    | committed c holds revision installed =>
      refine ⟨by simp, fun _ _ => ⟨holds, revision, installed⟩, ?_⟩
      intro e he
      exact absurd he (by simp [awaitOwned])
    | refused e disk active =>
      refine ⟨by simp, ?_, ?_⟩
      · intro c hc
        exact absurd hc (by simp [awaitOwned])
      · intro e' he hne
        cases he
        exact ⟨disk hne, active⟩
  | reload env =>
    obtain ⟨m', r, heq, hm', hdisk, hend⟩ := h.reloadOwned env hcall
    refine ⟨by show (m.reloadOwned env).1.Invariant; rw [heq]; exact hm', ?_⟩
    simp only [CallSound, heq]
    rcases hend with ⟨c, rfl, hholds⟩ | ⟨e, rfl⟩
    · exact ⟨by simp, hdisk, fun _ _ => hholds⟩
    · refine ⟨by simp, hdisk, ?_⟩
      intro c hc
      exact absurd hc (by simp [awaitOwned])
  | protectSecretRef secretRef =>
    obtain ⟨secrets, heq⟩ := m.protectSecretRef_cases secretRef
    constructor
    · show (m.protectSecretRef secretRef).1.Invariant
      rw [heq]
      exact ⟨⟨h.revision_eq, h.published, h.registered⟩, h.restorable⟩
    · simp only [CallSound, heq, and_self]
  | health op => exact ⟨h.observe hcall, rfl, rfl⟩

/-! ## Whole runs -/

theorem Invariant.fromLoaded {nowMs : Nat} (h : fromLoaded disk loaded nowMs = .ok m) :
    m.Invariant := by
  unfold ProviderManagement.fromLoaded at h
  dsimp only at h
  split at h
  · cases h
  next snapshot hb =>
  split at h
  · cases h
  next health hnew =>
  cases h
  refine ⟨⟨rfl, build_of_buildSnapshot hb, ?_⟩,
    all_new hnew AccountState.restorable_default⟩
  intro id
  rw [get?_new hnew]
  by_cases hid : id ∈ activeAccountIds (candidateOf loaded)
  · simp [hid]
  · simp [hid]

/-- **Memory and disk stay consistent in every tolerated run.** From a manager opened on any file,
    after any tolerated calls, what is published belongs to the active configuration, and the next
    tolerated call keeps its promise: a commit that answers `Ok` is in the file and in memory, one
    that answers an error other than a storage failure changed neither, and no call fails to publish
    what it has written. -/
theorem management_sound {disk : Disk S.codec} {readFails : Bool} {nowMs : Nat}
    {m₀ m : ProviderManagement S} (hopen : openManagement disk readFails nowMs = .ok m₀)
    {calls : List ManagementCall} {call : ManagementCall}
    (hmeet : StepsMeet managementStep (fun m call => call.Tolerated m) m₀ (calls ++ [call]))
    (hrun : run managementStep m₀ calls = some m) : m.Consistent ∧ m.CallSound call := by
  have h₀ : m₀.Invariant := by
    unfold openManagement at hopen
    split at hopen
    · cases hopen
    · exact Invariant.fromLoaded hopen
  obtain ⟨hcalls, hlast⟩ := hmeet.append hrun
  have hinv : ∀ (m : ProviderManagement S) call m', m.Invariant → call.Tolerated m →
      managementStep m call = some m' → m'.Invariant := by
    intro m call m' hm hcall hstep
    cases hstep
    exact (hm.call hcall).1
  have hm : m.Invariant := (Along.of_stepsMeet hinv h₀ hcalls).last hrun
  exact ⟨hm.toConsistent, (hm.call hlast.1).2⟩

/-! ## A run that leaves the file ahead -/

/-- A document format that keeps the configuration as it is and, as the file's own format does,
    refuses revisions above `i64::MAX`. -/
def plainCodec : Codec where
  Document := VersionedConfig
  encode config := if config.revision < 2 ^ 63 then some config else none
  decode := some
  round_trip := by
    intro config document h
    split at h
    · exact h.symm ▸ rfl
    · cases h

/-- One catalog entry and no endpoint overrides, so that no URL is parsed. -/
def plainSetting : Setting := ⟨fun _ => none, plainCodec, ⟨[apiKeyDefinition]⟩⟩

/-- One instance with one account, `primaryAccount`. -/
def plainCandidate : ProviderCandidate where
  providers := { primaryConfig with accounts := [⟨primaryAccount, primaryId, true,
    .apiKey ⟨"secret:00000000-0000-4000-8000-000000000000"⟩⟩] }
  routing := {}

/-- A commit after the account's credential was rejected, with a success observed while it is under
    way. -/
theorem management_sound_recovery :
    ∃ m₀ m : ProviderManagement plainSetting, openManagement none false 0 = .ok m₀ ∧
      run managementStep m₀ [.commit 0 plainCandidate {},
        .health (.observe primaryAccount .invalidCredentials 0)] = some m ∧
      m.Consistent ∧
      m.CallSound (.commit 1 plainCandidate
        { during := [.observe primaryAccount .success 0] }) := by
  refine ⟨_, _, rfl, rfl, @management_sound plainSetting none false 0 _ _ rfl
    [.commit 0 plainCandidate {}, .health (.observe primaryAccount .invalidCredentials 0)] _ ?_ rfl⟩
  refine ⟨trivial, fun m hm => ⟨fun s hs => ?_, fun _ _ => ⟨?_, fun _ _ => trivial⟩⟩⟩
  · cases hm
    cases hs
    exact Nat.zero_lt_succ 63
  · exact ⟨fun _ _ => trivial, fun _ _ => trivial⟩

/-- A commit installs an account, the account's credential is rejected and then a temporary failure
    is observed on it. The next commit writes revision 2 to the file and panics while publishing:
    the caller sees a storage failure and memory stays at revision 1. -/
theorem not_sound_after_quarantined_failure :
    ∃ m₀ m m' : ProviderManagement plainSetting, openManagement none false 0 = .ok m₀ ∧
      run managementStep m₀
        [.commit 0 plainCandidate {},
          .health (.observe primaryAccount .invalidCredentials 0),
          .health (.observe primaryAccount (.temporaryFailure none) 0)] = some m ∧
      m.commitOwned 1 plainCandidate {} = (m', .error .panicked) ∧
      m'.Holds 2 (m.configFor plainCandidate) ∧ m'.active.revision = 1 :=
  ⟨_, _, _, rfl, rfl, rfl, rfl, rfl⟩

end ProviderManagement

end Wokcore.Server
