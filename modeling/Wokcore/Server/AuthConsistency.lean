import Wokcore.Server.AuthRegistry

/-!
# The map of the registry and the store agree

The token tables are, up to `revoked_at`, a function of the log: their rows are the tokens issued,
in that order (`Backed`). A row that is not revoked belongs to a token without an answered
revocation. The map of the process is compared with the tables through the publication that is still
to come: `Mirrors` holds of the map that the task with the lock is about to publish, and of the map
itself when no task runs. Readers in between may see an entry that has left the store, but never one
that does not come from a token issued and not yet answered as revoked (`Vouched`).
-/

set_option autoImplicit false

namespace Wokcore.Server.Auth

open Wokcore.Core Lib Outcome Storage.ClientTokens AuthSystem TokenTables Table List
open Prod (fst)
open Storage.Sessions (StorageError)

variable {δ : Type} {digest : DigestFunction δ} {r : Issued}

/-! ## The log -/

/-- The tokens issued. -/
def issuedOf (log : List AuthRecord) : List Issued :=
  log.filterMap fun
    | .issued r => some r
    | .revoked _ _ => none

/-- A revocation of the token was answered with `Ok` after it had been issued. -/
def RevokedIn (log : List AuthRecord) (r : Issued) : Prop :=
  [.issued r, .revoked r.clientId r.tokenId].Sublist log

theorem issuedOf_issued (log : List AuthRecord) (r : Issued) :
    issuedOf (log ++ [.issued r]) = issuedOf log ++ [r] := by
  rw [issuedOf, filterMap_append]
  rfl

theorem issuedOf_revoked (log : List AuthRecord) (clientId : ClientId) (tokenId : String) :
    issuedOf (log ++ [.revoked clientId tokenId]) = issuedOf log := by
  rw [issuedOf, filterMap_append]
  exact append_nil _

theorem mem_issuedOf {log : List AuthRecord} : r ∈ issuedOf log ↔ .issued r ∈ log := by
  rw [issuedOf, mem_filterMap]
  constructor
  · rintro ⟨record, hmem, heq⟩
    cases record with
    | issued r' =>
      cases heq
      exact hmem
    | revoked clientId tokenId => cases heq
  · intro hmem
    exact ⟨_, hmem, rfl⟩

/-- A record more revokes a token that was revoked before, or is the answer to its revocation. -/
theorem RevokedIn.of_concat {log : List AuthRecord} {record : AuthRecord}
    (h : RevokedIn (log ++ [record]) r) :
    RevokedIn log r ∨ (.issued r ∈ log ∧ record = .revoked r.clientId r.tokenId) := by
  rw [RevokedIn, ← reverse_sublist, reverse_append] at h
  rcases cons_sublist_cons'.mp h with hold | ⟨heq, hmem⟩
  · exact .inl (reverse_sublist.mp hold)
  · exact .inr ⟨by simpa using hmem, heq.symm⟩

/-! ## The tables and the log -/

/-- What identifies a token, in its row and in its record. -/
def ident (row : ClientTokenRow δ) : String × ClientId × δ :=
    (row.tokenId, row.clientId, row.digest)

def Issued.ident (digest : DigestFunction δ) (r : Issued) : String × ClientId × δ :=
  (r.tokenId, r.clientId, digest.of r.token)

/-- The tables hold the tokens issued. -/
structure Backed (digest : DigestFunction δ) (t : TokenTables δ) (log : List AuthRecord) :
    Prop where
  ok : t.StoreOk
  rows : t.tokens.map ident = (issuedOf log).map (Issued.ident digest)
  scopes : t.scopes = (issuedOf log).flatMap fun r => r.scopes.map fun scope => (r.tokenId, scope)
  unrevoked : ∀ row ∈ t.tokens, row.revokedAt = none → ∀ r ∈ issuedOf log,
    r.ident digest = ident row → ¬ RevokedIn log r

variable {t t' : TokenTables δ} {log : List AuthRecord} {clients : ClientMap δ}

namespace Backed

section

variable (h : Backed digest t log)
include h

theorem exists_issued {row : ClientTokenRow δ} (hrow : row ∈ t.tokens) :
    ∃ r ∈ issuedOf log, r.ident digest = ident row := by
  have hmem : ident row ∈ t.tokens.map ident := mem_map_of_mem hrow
  rw [h.rows] at hmem
  exact mem_map.mp hmem

theorem exists_row (hr : r ∈ issuedOf log) : ∃ row ∈ t.tokens, ident row = r.ident digest := by
  have hmem : r.ident digest ∈ (issuedOf log).map (Issued.ident digest) := mem_map_of_mem hr
  rw [← h.rows] at hmem
  exact mem_map.mp hmem

theorem nodup_tokenIds : ((issuedOf log).map Issued.tokenId).Nodup := by
  have heq : (issuedOf log).map Issued.tokenId = t.tokens.map fun row => row.tokenId := by
    calc
      (issuedOf log).map Issued.tokenId = ((issuedOf log).map (Issued.ident digest)).map fst := by
          rw [map_map]
          rfl
      _ = (t.tokens.map ident).map fst := by rw [h.rows]
      _ = t.tokens.map fun row => row.tokenId := by
          rw [map_map]
          rfl
  rw [heq]
  exact h.ok.tokenIds

/-- A token is issued once: the digests in the table are unique, also those of revoked tokens. -/
theorem issued_unique {r' : Issued} (hr : r ∈ issuedOf log) (hr' : r' ∈ issuedOf log)
    (htoken : r.token = r'.token) : r = r' := by
  obtain ⟨row, hrow, hident⟩ := h.exists_row hr
  obtain ⟨row', hrow', hident'⟩ := h.exists_row hr'
  simp only [ident, Issued.ident, Prod.mk.injEq] at hident hident'
  have hdigest : row.digest = row'.digest := by rw [hident.2.2, hident'.2.2, htoken]
  obtain rfl := inj_on_of_nodup_map h.ok.digests hrow hrow' hdigest
  exact inj_on_of_nodup_map h.nodup_tokenIds hr hr' (hident.1.symm.trans hident'.1)

/-- The scopes of a row are those its token was issued with. -/
theorem mem_scopes (hr : r ∈ issuedOf log) {scope : ClientTokenScope} :
    (r.tokenId, scope) ∈ t.scopes ↔ scope ∈ r.scopes := by
  rw [h.scopes, mem_flatMap]
  constructor
  · rintro ⟨r', hr', hmem⟩
    obtain ⟨scope', hscope', heq⟩ := mem_map.mp hmem
    obtain ⟨hid, rfl⟩ := Prod.mk.inj heq
    rwa [inj_on_of_nodup_map h.nodup_tokenIds hr hr' hid.symm]
  · intro hscope
    exact ⟨r, hr, mem_map_of_mem hscope⟩

end

theorem empty (digest : DigestFunction δ) : Backed digest .empty [] :=
  ⟨.empty, rfl, rfl, fun _ h => absurd h not_mem_nil⟩

theorem issue [DecidableEq δ] (h : Backed digest t log) {issuedAt : String}
    (hissue : t.issueClientTokenWithScopes ⟨r.tokenId, r.clientId, digest.of r.token,
    issuedAt⟩ r.scopes = .ok t') :
    Backed digest t' (log ++ [.issued r]) := by
  have hok := h.ok.issue hissue
  obtain ⟨-, -, hfresh, rfl⟩ := issue_eq_ok hissue
  refine ⟨hok, ?_, ?_, ?_⟩
  · rw [issuedOf_issued, map_append, map_append, h.rows]
    rfl
  · rw [issuedOf_issued, flatMap_append, flatMap_singleton, h.scopes]
  · intro row hrow hnone r' hr' hident hrevoked
    rcases hrevoked.of_concat with hold | ⟨-, heq⟩
    · -- what was revoked before was issued before, so its row is an old one
      have hissued : r' ∈ issuedOf log := mem_issuedOf.mpr (hold.subset (mem_cons_self ..))
      obtain ⟨row', hrow', hident'⟩ := h.exists_row hissued
      have hdigests := hok.digests
      have hsame : row = row' := by
        refine inj_on_of_nodup_map hdigests hrow (mem_append_left _ hrow') ?_
        exact (congrArg (fun key => key.2.2) (hident'.trans hident)).symm
      exact h.unrevoked row (hsame ▸ hrow') hnone r' hissued hident hold
    · cases heq

theorem revoke (h : Backed digest t log) (clientId : ClientId) (tokenId revokedAt : String) :
    Backed digest (t.revokeClientToken clientId tokenId revokedAt).1 log := by
  refine ⟨h.ok.revoke clientId tokenId revokedAt, ?_, h.scopes, ?_⟩
  · rw [← h.rows, revokeClientToken, map_map]
    refine map_congr_left ?_
    intro row _
    have hmeta := metadata_revoke clientId tokenId revokedAt row
    show ident _ = ident row
    rw [ident, ident, hmeta]
  · intro row hrow hnone r hr hident
    obtain ⟨old, hold, rfl⟩ := mem_revoke.mp hrow
    split at hnone
    · cases hnone
    · next hkept =>
      rw [if_neg hkept] at hident
      exact h.unrevoked old hold hnone r hr hident

/-- The answer to a revocation is remembered when no row that it names is left unrevoked. -/
theorem answer (h : Backed digest t log) {clientId : ClientId} {tokenId : String}
    (hgone : ∀ row ∈ t.tokens, row.revokedAt = none →
    ¬ (row.tokenId = tokenId ∧ row.clientId = clientId)) :
    Backed digest t (log ++ [.revoked clientId tokenId]) := by
  refine ⟨h.ok, ?_, ?_, ?_⟩
  · rw [issuedOf_revoked]
    exact h.rows
  · rw [issuedOf_revoked]
    exact h.scopes
  · intro row hrow hnone r hr hident hrevoked
    rw [issuedOf_revoked] at hr
    rcases hrevoked.of_concat with hold | ⟨-, heq⟩
    · exact h.unrevoked row hrow hnone r hr hident hold
    · cases heq
      simp only [ident, Issued.ident, Prod.mk.injEq] at hident
      exact hgone row hrow hnone ⟨hident.1.symm, hident.2.1.symm⟩

end Backed

/-! ## The tables and the map -/

/-- The map is exactly the unrevoked tokens of the store, each with its scopes. -/
structure Mirrors (t : TokenTables δ) (clients : ClientMap δ) : Prop where
  digests : (clients.map fst).Nodup
  entries : ∀ key tokenId clientId, (∃ scopes, (key, ⟨tokenId, clientId, scopes⟩) ∈ clients) ↔
    ∃ row ∈ t.tokens, row.revokedAt = none ∧ ident row = (tokenId, clientId, key)
  scopes : ∀ entry ∈ clients, entry.2.scopes.Perm (t.scopesOf entry.2.tokenId)

namespace Mirrors

theorem exists_row (h : Mirrors t clients) {entry : δ × ActiveClient} (hentry : entry ∈ clients) :
    ∃ row ∈ t.tokens, row.revokedAt = none ∧ ident row = (entry.2.tokenId, entry.2.clientId,
      entry.1) :=
  (h.entries entry.1 entry.2.tokenId entry.2.clientId).mp ⟨entry.2.scopes, hentry⟩

/-- The published entry of an issued token. -/
theorem issue [DecidableEq δ] (hok : t.StoreOk) (h : Mirrors t clients) {issuedAt : String}
    (hissue : t.issueClientTokenWithScopes ⟨r.tokenId, r.clientId, digest.of r.token,
    issuedAt⟩ r.scopes = .ok t') :
    Mirrors t' (put fst (r.entry digest) clients) := by
  have hok' := hok.issue hissue
  obtain ⟨-, hnodup, hfresh, rfl⟩ := issue_eq_ok hissue
  refine ⟨nodup_put h.digests, ?_, ?_⟩
  · intro key tokenId clientId
    constructor
    · rintro ⟨scopes, hmem⟩
      rcases mem_put.mp hmem with heq | ⟨hold, -⟩
      · obtain ⟨rfl, hactive⟩ := Prod.mk.inj heq
        cases hactive
        exact ⟨_, mem_append_right _ (mem_singleton.mpr rfl), rfl, rfl⟩
      · obtain ⟨row, hrow, hrest⟩ := (h.entries key tokenId clientId).mp ⟨scopes, hold⟩
        exact ⟨row, mem_append_left _ hrow, hrest⟩
    · rintro ⟨row, hrow, hnone, hident⟩
      rcases mem_append.mp hrow with hold | hnew
      · obtain ⟨scopes, hmem⟩ := (h.entries key tokenId clientId).mpr ⟨row, hold, hnone, hident⟩
        refine ⟨scopes, mem_put.mpr (.inr ⟨hmem, ?_⟩)⟩
        have hkey : row.digest = key := congrArg (fun key => key.2.2) hident
        rw [← hkey]
        exact (hfresh row hold).2
      · obtain rfl := mem_singleton.mp hnew
        cases hident
        exact ⟨r.scopes, mem_put.mpr (.inl rfl)⟩
  · intro entry hentry
    rcases mem_put.mp hentry with rfl | ⟨hold, -⟩
    · refine (perm_ext_iff_of_nodup hnodup (hok'.nodup_scopesOf r.tokenId)).mpr ?_
      intro scope
      rw [mem_scopesOf, mem_append]
      constructor
      · intro hscope
        exact .inr (mem_map_of_mem hscope)
      · rintro (hold | hnew)
        · obtain ⟨row, hrow, hid⟩ := hok.owned _ hold
          exact absurd hid (hfresh row hrow).1
        · obtain ⟨scope', hscope', heq⟩ := mem_map.mp hnew
          cases heq
          exact hscope'
    · -- the scopes of the other tokens are not touched
      obtain ⟨row, hrow, -, hident⟩ := h.exists_row hold
      have hid : entry.2.tokenId ≠ r.tokenId := by
        have hrowId : row.tokenId = entry.2.tokenId := congrArg fst hident
        rw [← hrowId]
        exact (hfresh row hrow).1
      have hscopes : (t.scopes ++ r.scopes.map fun scope => (r.tokenId, scope)).filter
          (fun row => decide (row.1 = entry.2.tokenId)) = t.scopes.filter fun row =>
          decide (row.1 = entry.2.tokenId) := by
        rw [filter_append, append_right_eq_self, filter_eq_nil_iff]
        intro pair hpair
        obtain ⟨scope, -, rfl⟩ := mem_map.mp hpair
        exact fun hsame => hid (of_decide_eq_true hsame).symm
      rw [scopesOf, hscopes]
      exact h.scopes entry hold

/-- A revocation changes the unrevoked rows whose entries leave the map. -/
theorem revokes_eq_not_kept {row : ClientTokenRow δ} {clientId clientId' : ClientId}
    {tokenId tokenId' : String} {key : δ} (hnone : row.revokedAt = none)
    (hident : ident row = (tokenId', clientId', key)) :
    revokes clientId tokenId row = !(decide (tokenId' ≠ tokenId) || decide
      (clientId' ≠ clientId)) := by
  simp only [ident, Prod.mk.injEq] at hident
  rw [revokes, hident.1, hident.2.1, hnone]
  simp

/-- The map without a revoked token. -/
theorem revoke (h : Mirrors t clients) (clientId : ClientId) (tokenId revokedAt : String) :
    Mirrors (t.revokeClientToken clientId tokenId revokedAt).1
      (clients.filter fun entry => decide (entry.2.tokenId ≠ tokenId) || decide
        (entry.2.clientId ≠ clientId)) := by
  refine ⟨nodup_filter h.digests, ?_, ?_⟩
  · intro key tokenId' clientId'
    constructor
    · rintro ⟨scopes, hmem⟩
      obtain ⟨hold, hkept⟩ := mem_filter.mp hmem
      obtain ⟨row, hrow, hnone, hident⟩ := (h.entries key tokenId' clientId').mp ⟨scopes, hold⟩
      have hstays : revokes clientId tokenId row = false := by
        rw [revokes_eq_not_kept hnone hident, hkept]
        rfl
      refine ⟨_, mem_revoke.mpr ⟨row, hrow, rfl⟩, ?_, ?_⟩
      · rw [hstays]
        exact hnone
      · rw [hstays]
        exact hident
    · rintro ⟨row, hrow, hnone, hident⟩
      obtain ⟨old, hold, rfl⟩ := mem_revoke.mp hrow
      split at hnone
      · cases hnone
      · next hkept =>
        rw [if_neg hkept] at hident
        obtain ⟨scopes, hmem⟩ := (h.entries key tokenId' clientId').mpr ⟨old, hold, hnone, hident⟩
        refine ⟨scopes, mem_filter.mpr ⟨hmem, ?_⟩⟩
        rw [revokes_eq_not_kept hnone hident, Bool.not_eq_true, Bool.not_eq_false'] at hkept
        exact hkept
  · intro entry hentry
    exact h.scopes entry (mem_filter.mp hentry).1

end Mirrors

/-! ## What readers see -/

/-- Every entry comes from a token issued whose revocation has not been answered. -/
def Vouched (digest : DigestFunction δ) (log : List AuthRecord) (clients : ClientMap δ) : Prop :=
  ∀ entry ∈ clients, ∃ r ∈ issuedOf log, ¬ RevokedIn log r ∧
    r.ident digest = (entry.2.tokenId, entry.2.clientId, entry.1) ∧ ∀ scope ∈ entry.2.scopes,
    scope ∈ r.scopes

theorem Mirrors.vouched (h : Mirrors t clients) (hbacked : Backed digest t log) :
    Vouched digest log clients := by
  intro entry hentry
  obtain ⟨row, hrow, hnone, hident⟩ := h.exists_row hentry
  obtain ⟨r, hr, hrident⟩ := hbacked.exists_issued hrow
  refine ⟨r, hr, hbacked.unrevoked row hrow hnone r hr hrident, hrident.trans hident, ?_⟩
  intro scope hscope
  have hstored := mem_scopesOf.mp ((h.scopes entry hentry).mem_iff.mp hscope)
  have hid : r.tokenId = entry.2.tokenId := congrArg fst (hrident.trans hident)
  rw [← hid] at hstored
  exact (hbacked.mem_scopes hr).mp hstored

theorem Vouched.issued (h : Vouched digest log clients) (r : Issued) :
    Vouched digest (log ++ [.issued r]) clients := by
  intro entry hentry
  obtain ⟨r', hr', hnot, hrest⟩ := h entry hentry
  refine ⟨r', ?_, ?_, hrest⟩
  · rw [issuedOf_issued]
    exact mem_append_left _ hr'
  · intro hrevoked
    rcases hrevoked.of_concat with hold | ⟨-, heq⟩
    · exact hnot hold
    · cases heq

variable [DecidableEq δ]

/-- What a validation answers comes from an entry with the digest of the candidate. -/
theorem validateIn_eq_some {candidate : String} {scope : ClientTokenScope}
    {answer : AuthorizedClient} (h : validateIn digest clients candidate scope = some answer) :
    ∃ active, (digest.of candidate, active) ∈ clients ∧ scope ∈ active.scopes ∧
      answer = ⟨active.tokenId, active.clientId⟩ := by
  unfold validateIn at h
  split at h
  · split at h
    · cases h
    · next key active hfind =>
      obtain ⟨hmem, hkey⟩ := mem_of_find hfind
      split at h
      · next hscope =>
        cases h
        cases hkey
        exact ⟨active, hmem, hscope, rfl⟩
      · cases h
  · cases h

/-! ## The map that `bootstrap` builds -/

theorem validateScopes_eq_ok {scopes : List ClientTokenScope} (hne : scopes ≠ [])
    (hnodup : scopes.Nodup) :
    validateScopes scopes = .ok () := by
  have hempty : scopes.isEmpty = false := isEmpty_eq_false_iff.mpr hne
  rw [validateScopes, hempty, decide_eq_true hnodup]
  rfl

/-- Entries with digests of their own are all taken over. -/
theorem activeClientMap_fold {active : List (ScopedClientTokenMetadata δ)}
    (hscopes : ∀ loaded ∈ active, loaded.scopes ≠ [] ∧ loaded.scopes.Nodup)
    (hdigests : ((clients ++ active.map activeEntry).map fst).Nodup) :
    active.foldlM addActive clients = .ok (clients ++ active.map activeEntry) := by
  induction active generalizing clients with
  | nil => rw [foldlM_nil, map_nil, append_nil, pure_eq_ok]
  | cons loaded active ih =>
    obtain ⟨⟨hne, hnodup⟩, hrest⟩ := forall_mem_cons.mp hscopes
    rw [map_cons, append_cons] at hdigests ⊢
    have hfind : find fst loaded.token.digest clients = none := by
      rw [find_eq_none]
      intro entry hentry hsame
      rw [map_append, map_append, nodup_append] at hdigests
      have hdisjoint := (nodup_append.mp hdigests.1).2.2
      exact hdisjoint entry.1 (mem_map_of_mem hentry) loaded.token.digest
        (mem_singleton.mpr rfl) hsame
    have hadd : addActive clients loaded = .ok (clients ++ [activeEntry loaded]) := by
      have hput : put fst (activeEntry loaded) clients = clients ++ [activeEntry loaded] := by
        exact put_of_find_none hfind
      rw [addActive, validateScopes_eq_ok hne hnodup, hfind, hput]
      rfl
    rw [foldlM_cons, hadd, ok_bind, ih hrest hdigests]

/-- The tables load, and the map built from them is theirs. -/
theorem bootstrapMap_mirrors (hok : t.StoreOk) :
    ∃ clients, bootstrapMap t = .ok clients ∧ Mirrors t clients := by
  let active : List (ScopedClientTokenMetadata δ) :=
    t.loadActiveClientTokens.map fun token => ⟨token, t.scopesOf token.tokenId⟩
  have hentry : active.map activeEntry = t.loadActiveClientTokens.map fun token =>
      (token.digest, ⟨token.tokenId, token.clientId, t.scopesOf token.tokenId⟩) := by
    rw [map_map]
    rfl
  have hdigests : ((active.map activeEntry).map fst).Nodup := by
    rw [hentry, map_map, loadActiveClientTokens]
    refine ((mergeSort_perm _ _).map _).nodup_iff.mpr ?_
    rw [map_map]
    exact nodup_filter hok.digests
  have hscopes : ∀ loaded ∈ active, loaded.scopes ≠ [] ∧ loaded.scopes.Nodup := by
    intro loaded hloaded
    obtain ⟨token, htoken, rfl⟩ := mem_map.mp hloaded
    obtain ⟨scope, hscope⟩ := hok.hasScope _ (mem_loadActiveClientTokens.mp htoken)
    exact ⟨ne_nil_of_mem (mem_scopesOf.mpr hscope), hok.nodup_scopesOf _⟩
  refine ⟨active.map activeEntry, ?_, hdigests, ?_, ?_⟩
  · rw [bootstrapMap, hok.load]
    exact activeClientMap_fold hscopes hdigests
  · intro key tokenId clientId
    rw [hentry]
    constructor
    · rintro ⟨scopes, hmem⟩
      obtain ⟨token, htoken, heq⟩ := mem_map.mp hmem
      cases heq
      exact ⟨_, mem_loadActiveClientTokens.mp htoken, rfl, rfl⟩
    · rintro ⟨⟨token, revokedAt⟩, hrow, hnone, hident⟩
      cases hnone
      cases hident
      exact ⟨_, mem_map.mpr ⟨token, mem_loadActiveClientTokens.mpr hrow, rfl⟩⟩
  · intro entry hmem
    rw [hentry] at hmem
    obtain ⟨token, -, rfl⟩ := mem_map.mp hmem
    exact Perm.refl _

/-! ## Every run -/

/-- The map that is going to be there when the task with the lock has returned. -/
def pending (digest : DigestFunction δ) : Option Mutation → ClientMap δ → ClientMap δ
  | none, clients => clients
  | some mutation, clients => mutation.publish digest clients

/-- The invariant of the system. -/
structure Agrees (digest : DigestFunction δ) (s : AuthSystem δ) : Prop where
  backed : Backed digest s.store s.log
  vouched : ∀ clients, s.clients = some clients → Vouched digest s.log clients
  mirrors : ∀ clients, s.clients = some clients → Mirrors s.store (pending digest s.running clients)
  locked : s.clients = none → s.running = none

namespace Agrees

variable {s : AuthSystem δ}

theorem start (digest : DigestFunction δ) : Agrees digest (start : AuthSystem δ) :=
  ⟨.empty digest, fun _ h => (nomatch h), fun _ h => (nomatch h), fun _ => rfl⟩

variable (h : Agrees digest s)
include h

/-- A task that has not changed the store yet, or no task. -/
theorem idle {running : Option Mutation} (hsome : s.clients.isSome)
    (hsame : pending digest running = pending digest s.running) :
    Agrees digest { s with running } := by
  refine ⟨h.backed, h.vouched, ?_, fun hnone => absurd hnone (Option.isSome_iff_ne_none.mp hsome)⟩
  intro clients hclients
  rw [hsame]
  exact h.mirrors clients hclients

theorem isSome_of_running {mutation : Mutation} (hrun : s.running = some mutation) :
    s.clients.isSome := by
  cases hclients : s.clients with
  | none =>
    rw [h.locked hclients] at hrun
    cases hrun
  | some clients => rfl

theorem beginIssue (hsome : s.clients.isSome) (hrun : s.running = none) (tokenId : String)
    (clientId : ClientId) (issuedAt : String) (scopes : List ClientTokenScope)
    (generated : Except TokenError String) :
    Agrees digest (s.beginIssue tokenId clientId issuedAt scopes generated) := by
  unfold AuthSystem.beginIssue
  split
  · refine h.idle hsome ?_
    rw [hrun]
    rfl
  · exact h

theorem operate (fails : Bool) : Agrees digest (s.operate digest fails) := by
  unfold AuthSystem.operate
  split
  · next r issuedAt hrun =>
    have hsome := h.isSome_of_running hrun
    have hfailed : Agrees digest { s with running := none } := by
      refine h.idle hsome ?_
      rw [hrun]
      rfl
    split
    · exact hfailed
    · split
      · exact hfailed
      · next store hissue =>
        refine ⟨h.backed.issue hissue, ?_, ?_, fun hnone =>
          absurd hnone (Option.isSome_iff_ne_none.mp hsome)⟩
        · intro clients hclients
          exact (h.vouched clients hclients).issued r
        · intro clients hclients
          have hmirrors := h.mirrors clients hclients
          rw [hrun] at hmirrors
          exact Mirrors.issue h.backed.ok hmirrors hissue
  · next clientId tokenId revokedAt hrun =>
    have hsome := h.isSome_of_running hrun
    split
    · refine h.idle hsome ?_
      rw [hrun]
      rfl
    · refine ⟨h.backed.revoke clientId tokenId revokedAt, h.vouched, ?_,
        fun hnone => absurd hnone (Option.isSome_iff_ne_none.mp hsome)⟩
      intro clients hclients
      have hmirrors := h.mirrors clients hclients
      rw [hrun] at hmirrors
      exact hmirrors.revoke clientId tokenId revokedAt
  · exact h

theorem publish : Agrees digest (s.publish digest) := by
  unfold AuthSystem.publish
  split
  · next r hrun =>
    have hmirrors : ∀ clients, s.clients.map (Mutation.publish digest (.issued r)) = some clients →
        Mirrors s.store clients := by
      intro clients hclients
      obtain ⟨old, hold, rfl⟩ := Option.map_eq_some_iff.mp hclients
      have hmirrors := h.mirrors old hold
      rw [hrun] at hmirrors
      exact hmirrors
    refine ⟨h.backed, ?_, hmirrors, fun _ => rfl⟩
    intro clients hclients
    exact (hmirrors clients hclients).vouched h.backed
  · next clientId tokenId changed hrun =>
    obtain ⟨old, hold⟩ := Option.isSome_iff_exists.mp (h.isSome_of_running hrun)
    have hmirrors := h.mirrors old hold
    rw [hrun] at hmirrors
    have hgone : ∀ row ∈ s.store.tokens, row.revokedAt = none →
        ¬ (row.tokenId = tokenId ∧ row.clientId = clientId) := by
      rintro row hrow hnone ⟨rfl, rfl⟩
      obtain ⟨scopes, hmem⟩ := (hmirrors.entries row.digest row.tokenId row.clientId).mpr
        ⟨row, hrow, hnone, rfl⟩
      have hkept := (mem_filter.mp hmem).2
      simp at hkept
    have hbacked := h.backed.answer hgone
    have hnew : ∀ clients,
        s.clients.map (Mutation.publish digest (.revoked clientId tokenId changed)) = some clients →
        Mirrors s.store clients := by
      intro clients hclients
      rw [hold] at hclients
      cases hclients
      exact hmirrors
    refine ⟨hbacked, ?_, hnew, fun _ => rfl⟩
    intro clients hclients
    exact (hnew clients hclients).vouched hbacked
  · exact h

theorem bootstrap (hnone : s.clients = none) :
    Agrees digest { s with clients := (bootstrapMap s.store).toOption } := by
  obtain ⟨built, hbuilt, hmirrors⟩ := bootstrapMap_mirrors h.backed.ok
  have hrun := h.locked hnone
  rw [hbuilt]
  refine ⟨h.backed, ?_, ?_, fun _ => hrun⟩
  · intro clients hclients
    cases hclients
    exact hmirrors.vouched h.backed
  · intro clients hclients
    cases hclients
    rw [hrun]
    exact hmirrors

theorem step (event : AuthEvent) : Agrees digest (s.step digest event) := by
  cases event with
  | issue tokenId clientId issuedAt scopes generated =>
    simp only [AuthSystem.step]
    split
    · next hfree =>
      exact h.beginIssue hfree.1 (Option.isNone_iff_eq_none.mp hfree.2) tokenId clientId issuedAt
        scopes generated
    · exact h
  | revoke clientId tokenId revokedAt =>
    simp only [AuthSystem.step]
    split
    · next hfree =>
      refine h.idle hfree.1 ?_
      rw [Option.isNone_iff_eq_none.mp hfree.2]
      rfl
    · exact h
  | operate fails => exact h.operate fails
  | publish => exact h.publish
  | stop =>
    exact ⟨h.backed, fun _ hnone => (nomatch hnone), fun _ hnone => (nomatch hnone), fun _ => rfl⟩
  | bootstrap fails =>
    simp only [AuthSystem.step]
    split
    · next hfree => exact h.bootstrap (Option.isNone_iff_eq_none.mp hfree.1)
    · exact h

theorem run (events : List AuthEvent) : Agrees digest (s.run digest events) := by
  induction events generalizing s with
  | nil => exact h
  | cons event events ih => exact ih (h.step event)

/-- A validation that succeeds names a token that was issued with the scope and is not revoked. -/
theorem validate {candidate : String} {scope : ClientTokenScope} {answer : AuthorizedClient}
    (hvalid : s.validateClientScope digest candidate scope = some answer) :
    ∃ r ∈ issuedOf s.log, ¬ RevokedIn s.log r ∧ r.token = candidate ∧ scope ∈ r.scopes ∧
      answer = ⟨r.tokenId, r.clientId⟩ := by
  unfold validateClientScope at hvalid
  split at hvalid
  · cases hvalid
  · next clients hclients =>
    obtain ⟨active, hmem, hscope, rfl⟩ := validateIn_eq_some hvalid
    obtain ⟨r, hr, hnot, hident, hscopes⟩ := h.vouched clients hclients _ hmem
    simp only [Issued.ident, Prod.mk.injEq] at hident
    obtain ⟨hid, hclient, htoken⟩ := hident
    exact ⟨r, hr, hnot, digest.of_injective htoken, hscopes scope hscope, by rw [hid, hclient]⟩

end Agrees

/-- The log only grows. -/
theorem log_step (s : AuthSystem δ) (event : AuthEvent) : s.log <+: (s.step digest event).log := by
  cases event with
  | issue tokenId clientId issuedAt scopes generated =>
    simp only [step, beginIssue]
    split
    · split
      · exact prefix_rfl
      · exact prefix_rfl
    · exact prefix_rfl
  | revoke | bootstrap =>
    simp only [step]
    split <;> exact prefix_rfl
  | operate fails =>
    simp only [step, operate]
    split
    · split
      · exact prefix_rfl
      · split
        · exact prefix_rfl
        · exact prefix_append _ _
    · split
      · exact prefix_rfl
      · exact prefix_rfl
    · exact prefix_rfl
  | publish =>
    simp only [step, publish]
    split
    · exact prefix_rfl
    · exact prefix_append _ _
    · exact prefix_rfl
  | stop => exact prefix_rfl

theorem log_run (s : AuthSystem δ) (events : List AuthEvent) :
    s.log <+: (s.run digest events).log := by
  induction events generalizing s with
  | nil => exact prefix_rfl
  | cons event events ih => exact (log_step s event).trans (ih (s.step digest event))

/-- **The registry authorizes what the store holds.** After any events, in any order: without a task
    at work the map is exactly the unrevoked tokens of the store with their scopes; a validation
    succeeds only for a token that was issued with the scope and whose revocation has not been
    published, and answers with the identifiers it was issued with; and once a revocation of an
    issued token has been answered with `Ok`, no later validation of the token succeeds, whatever
    happens in between. A process that starts always finds a map in the store. -/
theorem run_authorizes (digest : DigestFunction δ) (earlier later : List AuthEvent) :
    let before := start.run digest earlier
    let now := before.run digest later
    (∀ clients, now.clients = some clients → now.running = none → Mirrors now.store clients) ∧
    (∀ candidate scope answer, now.validateClientScope digest candidate scope = some answer →
      ∃ r, .issued r ∈ now.log ∧ ¬ RevokedIn now.log r ∧ r.token = candidate ∧ scope ∈ r.scopes ∧
        answer = ⟨r.tokenId, r.clientId⟩) ∧
    (∀ r, RevokedIn before.log r → ∀ scope, now.validateClientScope digest r.token scope = none) ∧
    (∃ clients, bootstrapMap now.store = .ok clients ∧ Mirrors now.store clients) := by
  intro before now
  have hagrees : Agrees digest now := ((Agrees.start digest).run earlier).run later
  refine ⟨?_, ?_, ?_, bootstrapMap_mirrors hagrees.backed.ok⟩
  · intro clients hclients hrun
    have hmirrors := hagrees.mirrors clients hclients
    rw [hrun] at hmirrors
    exact hmirrors
  · intro candidate scope answer hvalid
    obtain ⟨r, hr, hrest⟩ := hagrees.validate hvalid
    exact ⟨r, mem_issuedOf.mp hr, hrest⟩
  · intro r hrevoked scope
    cases hvalid : now.validateClientScope digest r.token scope with
    | none => rfl
    | some answer =>
      obtain ⟨r', hr', hnot, htoken, -⟩ := hagrees.validate hvalid
      have hlater : RevokedIn now.log r := hrevoked.trans (log_run before later).sublist
      have hissued : r ∈ issuedOf now.log := mem_issuedOf.mpr (hlater.subset (mem_cons_self ..))
      obtain rfl := hagrees.backed.issued_unique hr' hissued htoken
      exact absurd hlater hnot

-- A token is valid once its issue has been published, and not after its revocation and a restart.
example : let digest : DigestFunction String := ⟨id, Function.injective_id⟩
    let client : ClientId := ⟨"desktop", by decide⟩
    let token := "wok_proxy_v1_AAAAAAAAAAAAAAAAAAAAAAAAAAAAAAAAAAAAAAAAAAA"
    let issued := start.run digest
      [.bootstrap false, .issue "t" client "now" [.usageRead] (.ok token), .operate false, .publish]
    let revoked := issued.run digest [.revoke client "t" "later", .operate false, .publish, .stop,
      .bootstrap false]
    issued.validateClientScope digest token .usageRead = some ⟨"t", client⟩ ∧
      issued.validateClientScope digest token .proxyUse = none ∧
      revoked.validateClientScope digest token .usageRead = none := by
  decide +kernel

end Wokcore.Server.Auth
