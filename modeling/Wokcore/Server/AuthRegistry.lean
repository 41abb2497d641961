import Wokcore.Storage.ClientTokens

/-!
# The registry of client tokens (`crates/wokcore-server/src/auth/registry.rs`, `token.rs`)

The registry keeps the active client tokens in a map that is replaced as a whole, so that a
validation reads one version of it without a lock. Issuing and revoking a token each run as a task
that holds the mutation lock from its start to its end: it changes the store first, and then
publishes a new map. At the start of the service the map is built from the store.

The system here is the store, the map of the process that is running, and the task that holds the
lock. A step is what a task does between two points at which others can look: it takes the lock, it
runs its store operation, it publishes and returns. The process can end at any time and start again.
What has been issued and which revocations have been answered with `Ok` is remembered in a log.

The digest is a parameter without collisions. Which token is generated is part of the step that
takes the lock.
-/

set_option autoImplicit false

namespace Wokcore.Server.Auth

open Wokcore.Core Lib Outcome Storage.ClientTokens
open Storage.Sessions (StorageError)

/-! ## Tokens -/

/-- `PROXY_PREFIX`. -/
def proxyMark : String := "wok_proxy_v1_"

/-- `ENCODED_ENTROPY_BYTES`. -/
def encodedEntropyBytes : Nat := 43

/-- The value of a character of the URL-safe alphabet. -/
def sextet (c : Char) : Option Nat :=
  if 'A' ≤ c ∧ c ≤ 'Z' then some (c.toNat - 65)
  else if 'a' ≤ c ∧ c ≤ 'z' then some (c.toNat - 97 + 26)
  else if '0' ≤ c ∧ c ≤ '9' then some (c.toNat - 48 + 52)
  else if c = '-' then some 62
  else if c = '_' then some 63
  else none

/-- `has_token_shape` for client tokens: the mark, and 43 characters that decode to 32 bytes, so
    that the last one carries no bits beyond them. -/
def isProxyToken (candidate : String) : Bool :=
  let mark := proxyMark.toList
  let encoded := candidate.toList.drop mark.length
  candidate.toList.take mark.length == mark && encoded.length == encodedEntropyBytes &&
    encoded.all (fun c => (sextet c).isSome) && encoded.getLast?.all fun c =>
    (sextet c).all fun value => value % 4 == 0

inductive TokenError where
  | entropyUnavailable
deriving DecidableEq

/-- `TokenDigest::of`. -/
structure DigestFunction (δ : Type) where
  of : String → δ
  of_injective : Function.Injective of

/-! ## The map -/

/-- `ActiveClient`. -/
structure ActiveClient where
  tokenId : String
  clientId : ClientId
  scopes : List ClientTokenScope
deriving DecidableEq

/-- `AuthorizedClient`. -/
structure AuthorizedClient where
  tokenId : String
  clientId : ClientId
deriving DecidableEq

inductive AuthError where
  | storage (error : StorageError)
  | invalidScopes
  | token (error : TokenError)
deriving DecidableEq

variable {δ : Type} [DecidableEq δ]

/-- The map from digests to active clients. -/
abbrev ClientMap (δ : Type) := List (δ × ActiveClient)

/-- `validate_scopes`. -/
def validateScopes (scopes : List ClientTokenScope) : Except AuthError Unit := do
  rejectIf scopes.isEmpty .invalidScopes
  rejectIf (!decide scopes.Nodup) .invalidScopes

/-- The entry of a loaded token. -/
def activeEntry (loaded : ScopedClientTokenMetadata δ) : δ × ActiveClient :=
  (loaded.token.digest, ⟨loaded.token.tokenId, loaded.token.clientId, loaded.scopes⟩)

/-- One iteration of `active_client_map`. -/
def addActive (clients : ClientMap δ) (loaded : ScopedClientTokenMetadata δ) : Except AuthError
    (ClientMap δ) := do
  validateScopes loaded.scopes
  rejectIf (Table.find Prod.fst loaded.token.digest clients).isSome
    (.storage (.stateDatabaseCorrupt "active client token metadata contains a duplicate digest"))
  return Table.put Prod.fst (activeEntry loaded) clients

/-- `active_client_map`. -/
def activeClientMap (active : List (ScopedClientTokenMetadata δ)) :
    Except AuthError (ClientMap δ) :=
  active.foldlM addActive []

/-- `validate_client_scope` on a version of the map. -/
def validateIn (digest : DigestFunction δ) (clients : ClientMap δ) (candidate : String)
    (requiredScope : ClientTokenScope) :
    Option AuthorizedClient :=
  if isProxyToken candidate then
    match Table.find Prod.fst (digest.of candidate) clients with
    | none => none
    | some (_, active) =>
        if requiredScope ∈ active.scopes then some ⟨active.tokenId, active.clientId⟩ else none
  else none

/-! ## Tasks -/

/-- A token as it was issued. -/
structure Issued where
  token : String
  tokenId : String
  clientId : ClientId
  scopes : List ClientTokenScope
deriving DecidableEq

/-- The entry that is published for an issued token. -/
def Issued.entry (digest : DigestFunction δ) (r : Issued) : δ × ActiveClient :=
  (digest.of r.token, ⟨r.tokenId, r.clientId, r.scopes⟩)

/-- The task that holds the mutation lock, before and after its store operation. -/
inductive Mutation where
  | issuing (record : Issued) (issuedAt : String)
  | issued (record : Issued)
  | revoking (clientId : ClientId) (tokenId revokedAt : String)
  | revoked (clientId : ClientId) (tokenId : String) (changed : Bool)

/-- The map that a task publishes. -/
def Mutation.publish (digest : DigestFunction δ) : Mutation → ClientMap δ → ClientMap δ
  | .issued record, clients => Table.put Prod.fst (record.entry digest) clients
  | .revoked clientId tokenId _, clients =>
      clients.filter fun entry => decide (entry.2.tokenId ≠ tokenId) || decide
        (entry.2.clientId ≠ clientId)
  | .issuing _ _, clients => clients
  | .revoking _ _ _, clients => clients

/-- What is remembered. -/
inductive AuthRecord where
  /-- The store has accepted a token. -/
  | issued (record : Issued)
  /-- A revocation has been published and answered with `Ok`. -/
  | revoked (clientId : ClientId) (tokenId : String)
deriving DecidableEq

/-- The store, the map of the running process, if there is one, and the task that holds its mutation
    lock. -/
structure AuthSystem (δ : Type) where
  store : TokenTables δ
  clients : Option (ClientMap δ)
  running : Option Mutation
  log : List AuthRecord

/-- No process has run yet. -/
def AuthSystem.start : AuthSystem δ := ⟨.empty, none, none, []⟩

/-- What can happen. -/
inductive AuthEvent where
  /-- `issue_client_token_with_scopes` gets the mutation lock and calls `generate_proxy`. -/
  | issue (tokenId : String) (clientId : ClientId) (issuedAt : String)
      (scopes : List ClientTokenScope) (generated : Except TokenError String)
  /-- `revoke_client_token` gets the mutation lock. -/
  | revoke (clientId : ClientId) (tokenId revokedAt : String)
  /-- The task that holds the lock runs its store operation, which the database may make fail. -/
  | operate (fails : Bool)
  /-- It publishes its map and returns. -/
  | publish
  /-- The process ends. -/
  | stop
  /-- A process starts with `bootstrap`, which may also fail on its way to the tokens. -/
  | bootstrap (fails : Bool)

namespace AuthSystem

variable (digest : DigestFunction δ)

/-- `validate_client_scope`. -/
def validateClientScope (s : AuthSystem δ) (candidate : String) (requiredScope : ClientTokenScope) :
    Option AuthorizedClient :=
  match s.clients with
  | none => none
  | some clients => validateIn digest clients candidate requiredScope

/-- The start of an issue: the scopes have to be valid, and a token has to be generated. -/
def beginIssue (tokenId : String) (clientId : ClientId) (issuedAt : String)
    (scopes : List ClientTokenScope) (generated : Except TokenError String) (s : AuthSystem δ) :
    AuthSystem δ :=
  match validateScopes scopes, generated with
  | .ok (), .ok token =>
    { s with running := some (.issuing ⟨token, tokenId, clientId, scopes⟩ issuedAt) }
  | _, _ => s

/-- The store operation of the task that holds the lock. One that fails ends the task. -/
def operate (fails : Bool) (s : AuthSystem δ) : AuthSystem δ :=
  match s.running with
  | some (.issuing record issuedAt) =>
      if fails then { s with running := none }
      else
        match s.store.issueClientTokenWithScopes
            ⟨record.tokenId, record.clientId, digest.of record.token, issuedAt⟩ record.scopes with
        | .error _ => { s with running := none }
        | .ok store =>
          { s with store, running := some (.issued record), log := s.log ++ [.issued record] }
  | some (.revoking clientId tokenId revokedAt) =>
      if fails then { s with running := none }
      else
        { s with store := (s.store.revokeClientToken clientId tokenId revokedAt).1
                 running := some (.revoked clientId tokenId
                   (s.store.revokeClientToken clientId tokenId revokedAt).2) }
  | _ => s

/-- The end of the task that holds the lock. -/
def publish (s : AuthSystem δ) : AuthSystem δ :=
  match s.running with
  | some (.issued record) =>
      { s with
        clients := s.clients.map (Mutation.publish digest (.issued record)), running := none }
  | some (.revoked clientId tokenId changed) =>
      { s with
        clients := s.clients.map (Mutation.publish digest (.revoked clientId tokenId changed))
        running := none
        log := s.log ++ [.revoked clientId tokenId] }
  | _ => s

/-- The map that `bootstrap` builds. -/
def bootstrapMap (t : TokenTables δ) : Except AuthError (ClientMap δ) :=
  match t.loadActiveScopedClientTokens with
  | .error e => .error (.storage e)
  | .ok active => activeClientMap active

def step (s : AuthSystem δ) : AuthEvent → AuthSystem δ
  | .issue tokenId clientId issuedAt scopes generated =>
      if s.clients.isSome ∧ s.running.isNone
        then s.beginIssue tokenId clientId issuedAt scopes generated else s
  | .revoke clientId tokenId revokedAt =>
      if s.clients.isSome ∧ s.running.isNone
        then { s with running := some (.revoking clientId tokenId revokedAt) } else s
  | .operate fails => s.operate digest fails
  | .publish => s.publish digest
  | .stop => { s with clients := none, running := none }
  | .bootstrap fails =>
      if s.clients.isNone ∧ !fails then { s with clients := (bootstrapMap s.store).toOption } else s

def run (s : AuthSystem δ) (events : List AuthEvent) : AuthSystem δ := events.foldl (step digest) s

end AuthSystem

end Wokcore.Server.Auth
