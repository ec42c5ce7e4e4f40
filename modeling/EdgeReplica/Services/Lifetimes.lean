-- SUMMARY: The lifetime of issued tokens: what a token verifies as at every time, and when the configured cap bounds that of a sync token.
import EdgeReplica.Auth.RoundTrip
import EdgeReplica.Services.Tenants

/-!
# The lifetime of tokens

A token verifies from when it is issued until the expiry it was minted with. A request for
a sync token may ask for a lifetime or leave it to the server. Only a lifetime that was asked
for is held against the cap.
-/

namespace EdgeReplica

open Effect (final okOr_eq_ok)
open SessionAuth (authenticate requireSession_eq_ok)
open Text (Lowercase)
open Tokens (untilExpiry)

namespace AdminServer

/-- The lifetime that a request comes to. -/
def syncTtl (config : Config) (ttlSeconds : Int64) : Int64 :=
  if ttlSeconds ≤ 0 then config.syncTokenTtlSeconds
  else min ttlSeconds config.maxSyncTokenTtlSeconds

/-! ## Names -/

/-- Nothing is stored under an empty identifier. -/
structure Named (g : InMemoryRepo) : Prop where
  organizations : ∀ id, ∀ org ∈ g.organizations.lookup id, org.id.asStr ≠ ""
  databases : ∀ id, ∀ db ∈ g.databases.lookup id, db.id.asStr ≠ ""

/-- What is generated is a prefix and a UUID. -/
structure Generated (ids : FreshIds) : Prop where
  orgId : ids.orgId.asStr ≠ ""
  databaseId : ids.databaseId.asStr ≠ ""

theorem named_empty : Named empty.repo := ⟨nofun, nofun⟩

section

variable {g : InMemoryRepo}

theorem Named.insertUser (hg : Named g) {ids : FreshIds} (hids : Generated ids) {input : NewUser}
    {nowMs : Int64} : Named (g.insertUser ids input nowMs) where
  organizations := by
    intro id org horg
    rcases HashMap.lookup_insert_eq_some.mp horg with ⟨-, rfl⟩ | ⟨-, hold⟩
    · exact hids.orgId
    · exact hg.organizations id org hold
  databases := hg.databases

theorem Named.insertDatabase (hg : Named g) {id : DatabaseId} {db : Domain.Database}
    (hdb : db.id.asStr ≠ "") : Named { g with databases := g.databases.insert id db } where
  organizations := hg.organizations
  databases := by
    intro id' db' hdb'
    rcases HashMap.lookup_insert_eq_some.mp hdb' with ⟨-, rfl⟩ | ⟨-, hold⟩
    · exact hdb
    · exact hg.databases id' db' hold

theorem Named.eraseDatabase (hg : Named g) (id : DatabaseId) :
    Named { g with databases := g.databases.erase id } where
  organizations := hg.organizations
  databases id' db hdb := hg.databases id' db (HashMap.lookup_erase_eq_some.mp hdb).2

end

theorem OpensSession.named [TokenClaimsCodec] {app : AppState} {s : AdminServer} {r : Result}
    (h : OpensSession app s r) (hs : Named s.repo) : Named (final r).repo := by
  cases h with
  | fails e => exact hs
  | opens input info listed => exact hs

/-- Every request keeps the names. -/
theorem Served.named [TokenClaimsCodec] {app : AppState} {call : Call} {s : AdminServer}
    {r : Result} (h : Served app call s r) (hids : Generated call.env.ids) (hs : Named s.repo) :
    Named (final r).repo := by
  cases h with
  | fails e => exact hs
  | whoami info => exact hs
  | signup input opens => exact opens.named (hs.insertUser hids)
  | login opens => exact opens.named hs
  | createDatabase session db hsession hid horg => exact hs.insertDatabase (hid ▸ hids.databaseId)
  | listDatabases session dbs hsession owned => exact hs
  | deleteDatabase session id db owned => exact hs.eraseDatabase id
  | issueSyncToken session id db owned input hdatabase horg expUnix => exact hs

/-- In every run with generated identifiers all that is stored has a name. -/
theorem named_of_run [TokenClaimsCodec] [HashOrder] [Argon2] [Lowercase] {app : AppState}
    {calls : List Call} {s : AdminServer} (hgenerated : ∀ call ∈ calls, Generated call.env.ids)
    (hrun : Machine.run (step app) calls empty = some s) : Named s.repo := by
  refine Machine.run_keeps (I := fun s => Named s.repo) hrun named_empty
    fun call hcall s t hstep hs => ?_
  obtain ⟨-, rfl⟩ := step_eq_some.mp hstep
  exact (served app call s).named (hgenerated call hcall) hs

/-! ## What is verified -/

/-- A token as it was minted has no further expiries. -/
theorem no_more : ([] : List Bytes).map Tokens.parseExp = ([] : List Int64).map some := rfl

section

variable [TokenClaimsCodec]

/-- Who has a session has a name, and so has the organization. -/
theorem named_of_authenticate {keyring : Keyring} {t : Int64} {token : Option Token}
    {session : SessionContext} (h : (authenticate keyring t token).session = some session) :
    session.user.asStr ≠ "" ∧ session.email ≠ "" ∧ session.org.asStr ≠ "" := by
  obtain ⟨token, -, hverify⟩ := Option.bind_eq_some_iff.mp h
  cases hresult : Tokens.verifySession keyring t token with
  | error e =>
    rw [hresult] at hverify
    cases hverify
  | ok ctx =>
    rw [hresult] at hverify
    obtain rfl := Option.some.inj hverify
    obtain ⟨m, claims, -, -, -, -, huser, hemail, horg, hctx⟩ :=
      Tokens.verifySession_eq_ok.mp hresult
    obtain ⟨husername, hemailname, horgname⟩ := hctx
    rw [husername, hemailname, horgname]
    exact ⟨huser, hemail, horg⟩

/-- A token that is issued is minted for the session, the database and the lifetime, and the
expiry told is the one it is minted with. -/
theorem issueSyncToken_eq_ok {app : AppState} {env : Env} {ctx : RpcContext} {databaseId : String}
    {direction : Int32} {ttlSeconds : Int64} {s t : AdminServer}
    {response : Pb.IssueSyncTokenResponse}
    (h : (issueSyncToken app env ctx databaseId direction ttlSeconds).run s = .ok response t) :
    ∃ session db direction', ctx.session = some session ∧
      s.repo.databases.lookup ⟨databaseId⟩ = some db ∧
      response =
        ⟨Tokens.mintSync app.keyring ⟨session.user, session.org, db.id, direction', env.nowUnix,
          syncTtl app.config ttlSeconds⟩, env.nowUnix + syncTtl app.config ttlSeconds⟩ := by
  obtain ⟨session, hsession, h⟩ := checked_eq_ok h
  dsimp only at h
  rw [run_read (m := InMemoryRepo.getDatabase ⟨databaseId⟩) rfl] at h
  obtain ⟨db, hdb, h⟩ := checked_eq_ok h
  obtain ⟨-, h⟩ := guarded_eq_ok h
  refine ⟨session, db, ?_⟩
  split at h
  · obtain ⟨rfl, rfl⟩ := EStateM.Result.ok.inj h
    exact ⟨.push, requireSession_eq_ok.mp hsession, okOr_eq_ok.mp hdb, rfl⟩
  · split at h
    · obtain ⟨rfl, rfl⟩ := EStateM.Result.ok.inj h
      exact ⟨.pull, requireSession_eq_ok.mp hsession, okOr_eq_ok.mp hdb, rfl⟩
    · cases h

/-- Until the expiry that the response tells, the token verifies with that expiry, and from then
on it does not. -/
theorem verifySync_issued {app : AppState} {env : Env} {t₀ : Int64} {token : Option Token}
    {databaseId : String} {direction : Int32} {ttlSeconds : Int64} {s s' : AdminServer}
    {response : Pb.IssueSyncTokenResponse} (hnamed : Named s.repo)
    (h : (issueSyncToken app env (authenticate app.keyring t₀ token) databaseId direction
      ttlSeconds).run s = .ok response s') :
    response.expUnix = env.nowUnix + syncTtl app.config ttlSeconds ∧
      ∃ ctx : SyncContext, ctx.expUnix = response.expUnix ∧
        ∀ t, Tokens.verifySync app.keyring t (.ok response.token) =
          untilExpiry t response.expUnix ctx := by
  obtain ⟨session, db, direction', hsession, hdb, rfl⟩ := issueSyncToken_eq_ok h
  obtain ⟨huser, -, horg⟩ := named_of_authenticate hsession
  exact ⟨rfl, _, rfl, fun t => Tokens.verifySync_mint no_more huser horg
    (hnamed.databases _ db hdb)⟩

/-- A session token verifies until its lifetime has passed. -/
theorem verifySession_issued [HashOrder] {app : AppState} {env : Env} {user : Domain.User}
    {s s' : AdminServer} {issued : Macaroon × Domain.Organization × Role} (hnamed : Named s.repo)
    (huser : user.id.asStr ≠ "") (hemail : user.email ≠ "")
    (h : (issueSessionFor app env user).run s = .ok issued s') :
    ∃ ctx : SessionContext, ∀ t, Tokens.verifySession app.keyring t (.ok issued.1) =
      untilExpiry t (env.nowUnix + app.config.sessionTtlSeconds) ctx := by
  obtain ⟨orgs, hlist, ⟨-, e, hfails⟩ | ⟨listed, hfind, hissued⟩⟩ :=
    run_issueSessionFor app env user s
  · rw [hfails] at h
    cases h
  · rw [hissued] at h
    obtain ⟨rfl, -⟩ := EStateM.Result.ok.inj h
    obtain ⟨orgId, m, -, horg, -⟩ :=
      (InMemoryRepo.mem_listOrganizationsForUser hlist).mp (List.mem_of_find?_eq_some hfind)
    exact ⟨_, fun t => Tokens.verifySession_mint no_more huser hemail
      (hnamed.organizations _ listed.1 horg)⟩

end

/-! ## The cap -/

theorem min_le_right {a b : Int64} : min a b ≤ b := by
  change (if a ≤ b then a else b) ≤ b
  split
  case isTrue hle => exact hle
  case isFalse => exact Int64.le_refl b

section

variable [TokenClaimsCodec]

/-- The token verifies at no time from `cap` on, and with no expiry but the one the response
tells. -/
def Capped (keyring : Keyring) (cap : Int64) (response : Pb.IssueSyncTokenResponse) : Prop :=
  (∀ t ctx, cap ≤ t → Tokens.verifySync keyring t (.ok response.token) ≠ .ok ctx) ∧
    ∀ t ctx, Tokens.verifySync keyring t (.ok response.token) = .ok ctx →
      ctx.expUnix = response.expUnix

/-- The cap is one for the lifetimes that are asked for. For the others it is one exactly if the
default does not exceed it. -/
theorem sync_cap_iff {app : AppState} {env : Env} {t₀ : Int64} {token : Option Token}
    {databaseId : String} {direction : Int32} {ttlSeconds : Int64} {s s' : AdminServer}
    {response : Pb.IssueSyncTokenResponse} (hnamed : Named s.repo)
    (h : (issueSyncToken app env (authenticate app.keyring t₀ token) databaseId direction
      ttlSeconds).run s = .ok response s')
    {cap expUnix : Int64}
    (hcap : cap.toInt = env.nowUnix.toInt + app.config.maxSyncTokenTtlSeconds.toInt)
    (hexp : expUnix.toInt = env.nowUnix.toInt + (syncTtl app.config ttlSeconds).toInt) :
    Capped app.keyring cap response ↔
      0 < ttlSeconds ∨ app.config.syncTokenTtlSeconds ≤ app.config.maxSyncTokenTtlSeconds := by
  obtain ⟨hresponse, ctx, hctx, hverify⟩ := verifySync_issued hnamed h
  rw [Tokens.expUnix_eq hexp] at hresponse
  have hcapped : Capped app.keyring cap response ↔ expUnix ≤ cap := by
    rw [← hresponse]
    constructor
    · rintro ⟨hnever, -⟩
      by_contra hlate
      refine hnever cap ctx (Int64.le_refl cap) ?_
      rw [hverify, untilExpiry, if_pos (Int64.not_le.mp hlate)]
    · intro hle
      refine ⟨fun t ctx' ht hok => ?_, fun t ctx' hok => ?_⟩
      · rw [hverify, untilExpiry, if_neg (Int64.not_lt.mpr (Int64.le_trans hle ht))] at hok
        cases hok
      · rw [hverify, untilExpiry] at hok
        split at hok
        case isTrue => exact Except.ok.inj hok ▸ hctx
        case isFalse => cases hok
  rw [hcapped, Int64.le_iff_toInt_le, hexp, hcap, Int.add_le_add_iff_left, ← Int64.le_iff_toInt_le]
  unfold syncTtl
  split
  case isTrue hdefault =>
    exact (or_iff_right (Int64.not_lt.mpr hdefault)).symm
  case isFalse hasked =>
    exact iff_of_true min_le_right (.inl (Int64.not_le.mp hasked))

end

/-- A server with the given cap, and the default lifetime of an hour. -/
def cappedApp (cap : Int64) : AppState where
  keyring := ⟨Tokens.sampleKey 0⟩
  config := { maxSyncTokenTtlSeconds := cap }

def adaToken [TokenClaimsCodec] : Token :=
  .ok (Tokens.mintSession ⟨Tokens.sampleKey 0⟩
    ⟨⟨"u_1"⟩, "ada@example.com", ⟨"o_1"⟩, .admin, 0, 100⟩)

/-- Ada asks for a token to her database and leaves the lifetime to the server. -/
def issueDefault [TokenClaimsCodec] [HashOrder] [Argon2] [Lowercase] (cap : Int64) :
    Option (AdminServer × EStateM.Result ConnectError AdminServer Pb.IssueSyncTokenResponse) := do
  let s ← Machine.run (step (cappedApp cap)) sampleCalls empty
  return (s, (issueSyncToken (cappedApp cap) (sampleEnv "4")
    (authenticate (cappedApp cap).keyring 1 (some adaToken)) "db_3" Pb.DIRECTION_PULL 0).run s)

/-- With a cap of a minute the token is still good when the cap has passed. -/
theorem sync_cap_default :
    letI := TokenClaimsCodec.protobuf
    letI := Argon2.readable
    letI := Lowercase.ascii
    letI := HashOrder.newestFirst
    ∃ s response s', issueDefault 60 = some (s, .ok response s') ∧
      ¬ Capped (cappedApp 60).keyring ((sampleEnv "4").nowUnix + 60) response := by
  let _ := TokenClaimsCodec.protobuf
  let _ := Argon2.readable
  let _ := Lowercase.ascii
  let _ := HashOrder.newestFirst
  have hall : ((issueDefault 60).bind fun r => match r.2 with
      | .ok response _ =>
        (Tokens.verifySync (cappedApp 60).keyring 61 (.ok response.token)).toOption
      | .error .. => none) =
      some ⟨⟨"u_1"⟩, ⟨"o_1"⟩, ⟨"db_3"⟩, .pull, 3601⟩ := by decide +kernel
  obtain ⟨⟨s, result⟩, hissue, hverify⟩ := Option.bind_eq_some_iff.mp hall
  cases result with
  | error e t => cases hverify
  | ok response t =>
    refine ⟨s, response, t, hissue, fun hcapped => ?_⟩
    refine hcapped.1 61 ⟨⟨"u_1"⟩, ⟨"o_1"⟩, ⟨"db_3"⟩, .pull, 3601⟩ (by decide) ?_
    change (Tokens.verifySync (cappedApp 60).keyring 61 (.ok response.token)).toOption = _
      at hverify
    cases hresult : Tokens.verifySync (cappedApp 60).keyring 61 (.ok response.token) with
    | error e =>
      rw [hresult] at hverify
      cases hverify
    | ok ctx =>
      rw [hresult] at hverify
      obtain rfl := Option.some.inj hverify
      rfl

/-- With a cap of two hours it is not. -/
theorem sync_cap_two_hours :
    letI := TokenClaimsCodec.protobuf
    letI := Argon2.readable
    letI := Lowercase.ascii
    letI := HashOrder.newestFirst
    ∃ s response s', issueDefault 7200 = some (s, .ok response s') ∧
      Capped (cappedApp 7200).keyring 7201 response := by
  let _ := TokenClaimsCodec.protobuf
  let _ := Argon2.readable
  let _ := Lowercase.ascii
  let _ := HashOrder.newestFirst
  have hall : ((issueDefault 7200).bind fun r => match r.2 with
      | .ok response _ => some response.expUnix
      | .error .. => none) = some 3601 := by decide +kernel
  obtain ⟨⟨s, result⟩, hissue, hok⟩ := Option.bind_eq_some_iff.mp hall
  cases result with
  | error e t => cases hok
  | ok response t =>
    obtain ⟨s₁, hrun, heq⟩ := Option.bind_eq_some_iff.mp hissue
    obtain ⟨rfl, hissued⟩ := Prod.mk.inj (Option.some.inj heq)
    have hgenerated : ∀ call ∈ sampleCalls, Generated call.env.ids := by
      intro call hcall
      simp only [sampleCalls, List.mem_cons, List.not_mem_nil, or_false] at hcall
      rcases hcall with rfl | rfl | rfl <;> exact ⟨by decide, by decide⟩
    have hexp : (3601 : Int64).toInt =
        (sampleEnv "4").nowUnix.toInt + (syncTtl (cappedApp 7200).config 0).toInt := by
      decide
    exact ⟨s₁, response, t, hissue, (sync_cap_iff (named_of_run hgenerated hrun) hissued
      (by decide) hexp).mpr (.inr (by decide))⟩

end AdminServer

end EdgeReplica
