import Wokcore.Core.Id
import Wokcore.Lib.Table
import Wokcore.Storage.SessionRecords

/-!
# Client tokens (`crates/wokcore-storage/src/state/store.rs`, migrations `0002` and `0005`)

A client token is a row with a digest, never the token itself, and the scopes it was issued with are
rows of a second table. Issuing writes both in one transaction, revoking sets `revoked_at` of the
row, and what is loaded at the start of the service is the rows that are not revoked, each with its
scopes.

The keys of the schema are part of the model: the identifier of a token and its digest are unique,
also among revoked tokens, and a scope belongs to a token. `StoreOk` collects what follows, and
every operation keeps it.
-/

set_option autoImplicit false

namespace Wokcore.Storage.ClientTokens

open Wokcore.Core Lib Outcome List

inductive ClientTokenScope where
  | proxyUse
  | sessionsRead
  | usageRead
  | diagnosticsRead
  | diagnosticsExport
  | serviceRead
  | serviceControl
  | providersRead
  | providersWrite
  | clientsManage
deriving DecidableEq

/-- `ClientTokenScope::index`, which is also the order in which scopes are loaded. -/
def ClientTokenScope.index : ClientTokenScope → Nat
  | .proxyUse => 0
  | .sessionsRead => 1
  | .usageRead => 2
  | .diagnosticsRead => 3
  | .diagnosticsExport => 4
  | .serviceRead => 5
  | .serviceControl => 6
  | .providersRead => 7
  | .providersWrite => 8
  | .clientsManage => 9

variable {δ : Type}

/-- `ClientTokenMetadata`. -/
structure ClientTokenMetadata (δ : Type) where
  tokenId : String
  clientId : ClientId
  digest : δ
  issuedAt : String
deriving DecidableEq

/-- A row of `client_tokens`. -/
structure ClientTokenRow (δ : Type) extends ClientTokenMetadata δ where
  revokedAt : Option String
deriving DecidableEq

/-- The tables. -/
structure TokenTables (δ : Type) where
  tokens : List (ClientTokenRow δ)
  scopes : List (String × ClientTokenScope)

def TokenTables.empty : TokenTables δ := ⟨[], []⟩

/-- `ScopedClientTokenMetadata`. -/
structure ScopedClientTokenMetadata (δ : Type) where
  token : ClientTokenMetadata δ
  scopes : List ClientTokenScope

namespace TokenTables

variable {tokenId : String} {token : ClientTokenMetadata δ}

/-- An insertion into `client_token_scopes`; the pair is its key. -/
def insertScope (tokenId : String) (scopes : List (String × ClientTokenScope))
    (scope : ClientTokenScope) :
    Sessions.Result (List (String × ClientTokenScope)) := do
  rejectIf (decide ((tokenId, scope) ∈ scopes)) .stateDatabase
  return scopes ++ [(tokenId, scope)]

/-- `issue_client_token_with_scopes`. -/
def issueClientTokenWithScopes [DecidableEq δ] (token : ClientTokenMetadata δ)
    (scopes : List ClientTokenScope) (t : TokenTables δ) : Sessions.Result (TokenTables δ) := do
  rejectIf scopes.isEmpty (.invalidStateRecord "client token scopes must not be empty")
  rejectIf (!decide scopes.Nodup) (.invalidStateRecord "client token scopes must be unique")
  rejectIf (t.tokens.any fun row => decide (row.tokenId = token.tokenId) || decide
    (row.digest = token.digest)) .stateDatabase
  let scopes ← scopes.foldlM (insertScope token.tokenId) t.scopes
  return { tokens := t.tokens ++ [⟨token, none⟩], scopes }

/-- The row is one that a revocation changes. -/
def revokes (clientId : ClientId) (tokenId : String) (row : ClientTokenRow δ) : Bool :=
  decide (row.tokenId = tokenId) && decide (row.clientId = clientId) && row.revokedAt.isNone

/-- `revoke_client_token`: the tables afterwards, and whether a row was changed. -/
def revokeClientToken (clientId : ClientId) (tokenId revokedAt : String) (t : TokenTables δ) :
    TokenTables δ × Bool :=
  ({ t with tokens := t.tokens.map fun row =>
      if revokes clientId tokenId row then { row with revokedAt := some revokedAt } else row },
    t.tokens.any (revokes clientId tokenId))

/-- `load_active_client_tokens`. -/
def loadActiveClientTokens (t : TokenTables δ) : List (ClientTokenMetadata δ) :=
  ((t.tokens.filter fun row => row.revokedAt.isNone).map
    ClientTokenRow.toClientTokenMetadata).mergeSort fun a b => decide (a.tokenId ≤ b.tokenId)

/-- The scopes of a token, in the order of the query. -/
def scopesOf (t : TokenTables δ) (tokenId : String) : List ClientTokenScope :=
  ((t.scopes.filter fun row => decide (row.1 = tokenId)).map Prod.snd).mergeSort
    fun a b => decide (a.index ≤ b.index)

/-- `load_active_scoped_client_tokens`. -/
def loadActiveScopedClientTokens (t : TokenTables δ) :
    Sessions.Result (List (ScopedClientTokenMetadata δ)) :=
  t.loadActiveClientTokens.mapM fun token => do
    rejectIf (t.scopesOf token.tokenId).isEmpty
      (.stateDatabaseCorrupt "client token metadata contains no scope")
    return ⟨token, t.scopesOf token.tokenId⟩

/-! ## What the tables keep -/

/-- The keys of the schema, and that every token has a scope. -/
structure StoreOk (t : TokenTables δ) : Prop where
  tokenIds : (t.tokens.map fun row => row.tokenId).Nodup
  digests : (t.tokens.map fun row => row.digest).Nodup
  scopes : t.scopes.Nodup
  hasScope : ∀ row ∈ t.tokens, ∃ scope, (row.tokenId, scope) ∈ t.scopes
  owned : ∀ entry ∈ t.scopes, ∃ row ∈ t.tokens, row.tokenId = entry.1

theorem StoreOk.empty : StoreOk (TokenTables.empty : TokenTables δ) :=
  ⟨.nil, .nil, .nil, fun _ h => absurd h not_mem_nil, fun _ h => absurd h not_mem_nil⟩

variable {t t' : TokenTables δ} {scopes : List ClientTokenScope}

theorem foldlM_insertScope {new : List ClientTokenScope}
    {scopes scopes' : List (String × ClientTokenScope)}
    (h : new.foldlM (insertScope tokenId) scopes = .ok scopes') :
    scopes' = scopes ++ new.map (fun scope => (tokenId, scope)) := by
  induction new generalizing scopes with
  | nil =>
    cases h
    rw [map_nil, append_nil]
  | cons scope new ih =>
    rw [foldlM_cons, do_eq_ok] at h
    obtain ⟨scopes₁, hinsert, hrest⟩ := h
    obtain ⟨_, -, hend⟩ := do_eq_ok.mp hinsert
    cases hend
    rw [ih hrest, append_assoc, map_cons, singleton_append]

/-- What issuing a token writes, and what it has checked. -/
theorem issue_eq_ok [DecidableEq δ] (h : t.issueClientTokenWithScopes token scopes = .ok t') :
    scopes ≠ [] ∧ scopes.Nodup ∧ (∀ row ∈ t.tokens, row.tokenId ≠ token.tokenId ∧
      row.digest ≠ token.digest) ∧
      t' = ⟨t.tokens ++ [⟨token, none⟩], t.scopes ++ scopes.map fun scope =>
        (token.tokenId, scope)⟩ := by
  simp only [issueClientTokenWithScopes, do_ok, rejectIf_eq_ok] at h
  obtain ⟨hempty, hnodup, hfresh, scopes', hscopes, rfl⟩ := h
  refine ⟨?_, ?_, ?_, ?_⟩
  · simpa using hempty
  · simpa using hnodup
  · intro row hrow
    have hrow' := any_eq_false.mp hfresh row hrow
    simpa using hrow'
  · rw [foldlM_insertScope hscopes]

theorem StoreOk.issue [DecidableEq δ] (h : StoreOk t)
    (hissue : t.issueClientTokenWithScopes token scopes = .ok t') :
    StoreOk t' := by
  obtain ⟨hne, hnodup, hfresh, rfl⟩ := issue_eq_ok hissue
  refine ⟨?_, ?_, ?_, ?_, ?_⟩
  · exact Table.nodup_concat h.tokenIds fun row hrow => (hfresh row hrow).1
  · exact Table.nodup_concat h.digests fun row hrow => (hfresh row hrow).2
  · rw [nodup_append]
    refine ⟨h.scopes, hnodup.map fun a b hab => congrArg Prod.snd hab, ?_⟩
    rintro entry hentry other hother rfl
    obtain ⟨scope, -, rfl⟩ := mem_map.mp hother
    obtain ⟨row, hrow, hid⟩ := h.owned _ hentry
    exact (hfresh row hrow).1 hid
  · intro row hrow
    rcases mem_append.mp hrow with hold | hnew
    · obtain ⟨scope, hscope⟩ := h.hasScope row hold
      exact ⟨scope, mem_append_left _ hscope⟩
    · obtain rfl := mem_singleton.mp hnew
      obtain ⟨scope, hscope⟩ := exists_mem_of_ne_nil scopes hne
      exact ⟨scope, mem_append_right _ (mem_map_of_mem hscope)⟩
  · intro entry hentry
    rcases mem_append.mp hentry with hold | hnew
    · obtain ⟨row, hrow, hid⟩ := h.owned entry hold
      exact ⟨row, mem_append_left _ hrow, hid⟩
    · obtain ⟨scope, -, rfl⟩ := mem_map.mp hnew
      exact ⟨_, mem_append_right _ (mem_singleton.mpr rfl), rfl⟩

/-- A row of the table after a revocation was there before, with the same token. -/
theorem mem_revoke {clientId : ClientId} {revokedAt : String} {row : ClientTokenRow δ} :
    row ∈ (t.revokeClientToken clientId tokenId revokedAt).1.tokens ↔
      ∃ old ∈ t.tokens, row = if revokes clientId tokenId old
      then { old with revokedAt := some revokedAt } else old := by
  rw [revokeClientToken, mem_map]
  exact exists_congr fun old => and_congr_right fun _ => eq_comm

theorem metadata_revoke (clientId : ClientId) (tokenId revokedAt : String)
    (row : ClientTokenRow δ) :
    (if revokes clientId tokenId row then { row with revokedAt := some revokedAt }
      else row).toClientTokenMetadata = row.toClientTokenMetadata := by
  split <;> rfl

theorem StoreOk.revoke (h : StoreOk t) (clientId : ClientId) (tokenId revokedAt : String) :
    StoreOk (t.revokeClientToken clientId tokenId revokedAt).1 := by
  have hmap : ∀ {κ : Type} (f : ClientTokenMetadata δ → κ),
      ((t.revokeClientToken clientId tokenId revokedAt).1.tokens.map fun row =>
        f row.toClientTokenMetadata) = t.tokens.map fun row => f row.toClientTokenMetadata := by
    intro κ f
    rw [revokeClientToken, map_map]
    refine map_congr_left ?_
    intro row _
    exact congrArg f (metadata_revoke clientId tokenId revokedAt row)
  refine ⟨?_, ?_, h.scopes, ?_, ?_⟩
  · rw [hmap ClientTokenMetadata.tokenId]
    exact h.tokenIds
  · rw [hmap ClientTokenMetadata.digest]
    exact h.digests
  · intro row hrow
    obtain ⟨old, hold, rfl⟩ := mem_revoke.mp hrow
    rw [metadata_revoke]
    exact h.hasScope old hold
  · intro entry hentry
    obtain ⟨row, hrow, hid⟩ := h.owned entry hentry
    refine ⟨_, mem_revoke.mpr ⟨row, hrow, rfl⟩, ?_⟩
    rw [metadata_revoke]
    exact hid

theorem mem_scopesOf {scope : ClientTokenScope} : scope ∈ t.scopesOf tokenId ↔
    (tokenId, scope) ∈ t.scopes := by
  rw [scopesOf, mem_mergeSort, mem_map]
  constructor
  · rintro ⟨entry, hentry, rfl⟩
    obtain ⟨hmem, hid⟩ := mem_filter.mp hentry
    rw [← of_decide_eq_true hid]
    exact hmem
  · intro hmem
    exact ⟨_, mem_filter.mpr ⟨hmem, decide_eq_true rfl⟩, rfl⟩

theorem StoreOk.nodup_scopesOf (h : StoreOk t) (tokenId : String) : (t.scopesOf tokenId).Nodup := by
  rw [scopesOf, (mergeSort_perm _ _).nodup_iff]
  refine Nodup.map_on ?_ (h.scopes.filter _)
  intro a ha b hb hab
  have hida := of_decide_eq_true (mem_filter.mp ha).2
  have hidb := of_decide_eq_true (mem_filter.mp hb).2
  exact Prod.ext (hida.trans hidb.symm) hab

theorem mem_loadActiveClientTokens :
    token ∈ t.loadActiveClientTokens ↔ (⟨token, none⟩ : ClientTokenRow δ) ∈ t.tokens := by
  rw [loadActiveClientTokens, mem_mergeSort, mem_map]
  constructor
  · rintro ⟨row, hrow, rfl⟩
    obtain ⟨hmem, hnone⟩ := mem_filter.mp hrow
    obtain ⟨token, revokedAt⟩ := row
    cases revokedAt with
    | none => exact hmem
    | some at' => cases hnone
  · intro hmem
    exact ⟨_, mem_filter.mpr ⟨hmem, rfl⟩, rfl⟩

/-- Loading succeeds, with the scopes of each token. -/
theorem StoreOk.load (h : StoreOk t) : t.loadActiveScopedClientTokens =
    .ok (t.loadActiveClientTokens.map fun token => ⟨token, t.scopesOf token.tokenId⟩) := by
  rw [loadActiveScopedClientTokens]
  refine mapM_eq_ok_map ?_
  intro token htoken
  obtain ⟨scope, hscope⟩ := h.hasScope _ (mem_loadActiveClientTokens.mp htoken)
  have hne : (t.scopesOf token.tokenId).isEmpty = false := by
    cases hscopes : t.scopesOf token.tokenId with
    | nil =>
      have hmem := mem_scopesOf.mpr hscope
      rw [hscopes] at hmem
      cases hmem
    | cons first rest => rfl
  rw [hne]
  rfl

end TokenTables

end Wokcore.Storage.ClientTokens
