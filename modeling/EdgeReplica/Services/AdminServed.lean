-- SUMMARY: What serving a request of the admin service can come to: its answer and the state it leaves.
import EdgeReplica.Services.Admin

/-!
# The outcomes of a request

`Served` lists what a request can come to, with the conditions under which the code
does it. What holds in each of these cases holds of every request; nothing past this
module looks into a handler.
-/

namespace EdgeReplica

open Common (mapStoreError)
open Effect (run_map run_ofExcept_bind okOr_eq_ok)
open SessionAuth (requireSession_eq_ok)
open Text (Lowercase)
open Tokens (MintSessionInput MintSyncInput)

namespace AdminServer

abbrev Result := EStateM.Result ConnectError AdminServer Response

def withRepo (s : AdminServer) (repo : InMemoryRepo) : AdminServer := { s with repo }

def withDatabases (s : AdminServer) (databases : HashMap DatabaseId Domain.Database) :
    AdminServer :=
  s.withRepo { s.repo with databases }

def addSession (s : AdminServer) (input : MintSessionInput) : AdminServer :=
  { s with sessions := input :: s.sessions }

def addSync (s : AdminServer) (input : MintSyncInput) : AdminServer :=
  { s with syncs := input :: s.syncs }

/-- One request, as it reaches the handlers. -/
structure Call where
  ctx : RpcContext
  env : Env
  request : Request
deriving DecidableEq

/-! ## The parts of a handler -/

section

variable {α β : Type} {s : AdminServer}

theorem run_checked {x : Except ConnectError α} {a : α} (h : x = .ok a) (next : α → AdminM β) :
    (ofExcept x >>= next).run s = (next a).run s := by
  rw [run_ofExcept_bind, h]

theorem run_refused {x : Except ConnectError α} {e : ConnectError} (h : x = .error e)
    (next : α → AdminM β) : (ofExcept x >>= next).run s = .error e s := by
  rw [run_ofExcept_bind, h]

theorem run_read {m : RepoM α} {a : α} (h : m.run s.repo = .ok a s.repo) (next : α → AdminM β) :
    (onRepo m >>= next).run s = (next a).run s := by
  rw [EStateM.run_bind, run_onRepo, h]

theorem run_written {m : RepoM α} {a : α} {repo : InMemoryRepo} (h : m.run s.repo = .ok a repo)
    (next : α → AdminM β) : (onRepo m >>= next).run s = (next a).run (s.withRepo repo) := by
  rw [EStateM.run_bind, run_onRepo, h]
  rfl

theorem run_failed {m : RepoM α} {e : StoreError} (h : m.run s.repo = .error e s.repo)
    (next : α → AdminM β) :
    (onRepo m >>= next).run s = .error (mapStoreError e) s := by
  rw [EStateM.run_bind, run_onRepo, h]

end

section

variable {α β : Type} {s t : AdminServer} {b : β}

/-- What a handler returns has passed its checks. -/
theorem checked_eq_ok {x : Except ConnectError α} {next : α → AdminM β}
    (h : (ofExcept x >>= next).run s = .ok b t) :
    ∃ a, x = .ok a ∧ (next a).run s = .ok b t := by
  rw [run_ofExcept_bind] at h
  cases x with
  | error e => cases h
  | ok a => exact ⟨a, rfl, h⟩

theorem guarded_eq_ok {c : Prop} [Decidable c] {e : ConnectError} {m : AdminM β}
    (h : EStateM.run (if c then throw e else m) s = .ok b t) : ¬ c ∧ m.run s = .ok b t := by
  split at h
  case isTrue => cases h
  case isFalse hc => exact ⟨hc, h⟩

end

/-! ## Outcomes -/

variable [TokenClaimsCodec]

/-- What a session token is minted for: the role of its user in a personal
organization that was listed for the user. -/
def ListedFor (g : InMemoryRepo) (input : MintSessionInput) : Prop :=
  ∃ orgId org m, g.orgMemberships.lookup (input.userId, orgId) = some m ∧
    g.organizations.lookup orgId = some org ∧ org.personal = true ∧
    input.org = org.id ∧ input.role = m.role

/-- A session is opened, or the request fails with nothing changed. -/
inductive OpensSession (app : AppState) (s : AdminServer) : Result → Prop
  | fails (e : ConnectError) : OpensSession app s (.error e s)
  | opens (input : MintSessionInput) (whoami : Pb.WhoamiInfo) (listed : ListedFor s.repo input) :
    OpensSession app s
      (.ok (.auth ⟨Tokens.mintSession app.keyring input, whoami⟩) (s.addSession input))

/-- The database `id` is one of the organization of the session. -/
structure Owned (ctx : RpcContext) (g : InMemoryRepo) (session : SessionContext) (id : DatabaseId)
    (db : Domain.Database) : Prop where
  hsession : ctx.session = some session
  present : g.databases.lookup id = some db
  org : db.orgId = session.org

inductive Served (app : AppState) (call : Call) (s : AdminServer) : Result → Prop
  | fails (e : ConnectError) : Served app call s (.error e s)
  | whoami (info : Pb.WhoamiInfo) : Served app call s (.ok (.whoami info) s)
  | signup (input : NewUser) {r : Result}
    (opens : OpensSession app
      (s.withRepo (s.repo.insertUser call.env.ids input call.env.nowMs)) r) :
    Served app call s r
  | login {r : Result} (opens : OpensSession app s r) : Served app call s r
  | createDatabase (session : SessionContext) (db : Domain.Database)
    (hsession : call.ctx.session = some session) (hid : db.id = call.env.ids.databaseId)
    (horg : db.orgId = session.org) :
    Served app call s (.ok (.database (databasePb db))
      (s.withDatabases (s.repo.databases.insert call.env.ids.databaseId db)))
  | listDatabases (session : SessionContext) (dbs : List Domain.Database)
    (hsession : call.ctx.session = some session)
    (owned : ∀ db ∈ dbs, ∃ id, Owned call.ctx s.repo session id db) :
    Served app call s (.ok (.databases (dbs.map databasePb)) s)
  | deleteDatabase (session : SessionContext) (id : DatabaseId) (db : Domain.Database)
    (owned : Owned call.ctx s.repo session id db) :
    Served app call s (.ok .deleted (s.withDatabases (s.repo.databases.erase id)))
  | issueSyncToken (session : SessionContext) (id : DatabaseId) (db : Domain.Database)
    (owned : Owned call.ctx s.repo session id db) (input : MintSyncInput)
    (hdatabase : input.database = db.id) (horg : input.org = session.org) (expUnix : Int64) :
    Served app call s
      (.ok (.syncToken ⟨Tokens.mintSync app.keyring input, expUnix⟩) (s.addSync input))

/-! ## The handlers -/

section

variable {app : AppState} {env : Env} {call : Call} {s : AdminServer}

/-- What a handler comes to as the handler of the call. -/
def Serves {α : Type} (app : AppState) (call : Call) (s : AdminServer) (f : α → Response)
    (m : AdminM α) : Prop :=
  Served app call s ((f <$> m).run s)

namespace Serves

variable {α β : Type} {f : β → Response} {next : α → AdminM β}

theorem check {x : Except ConnectError α}
    (h : ∀ a, x = .ok a → Serves app call s f (next a)) :
    Serves app call s f (ofExcept x >>= next) := by
  unfold Serves at h ⊢
  rw [run_map, run_ofExcept_bind]
  cases x with
  | error e => exact .fails e
  | ok a => simpa only [run_map] using h a rfl

theorem guard {c : Prop} [Decidable c] {e : ConnectError} {m : AdminM β}
    (h : ¬ c → Serves app call s f m) :
    Serves app call s f (if c then throw e else m) := by
  split
  · exact .fails e
  · next hc => exact h hc

theorem read {m : RepoM α} {a : α} (hread : m.run s.repo = .ok a s.repo)
    (h : Serves app call s f (next a)) : Serves app call s f (onRepo m >>= next) := by
  unfold Serves at h ⊢
  rwa [run_map, run_read hread, ← run_map]

theorem refused {m : RepoM α} {e : StoreError} (hrun : m.run s.repo = .error e s.repo) :
    Serves app call s f (onRepo m >>= next) := by
  unfold Serves
  rw [run_map, run_failed hrun]
  exact .fails _

theorem write {m : RepoM α} {a : α} {repo : InMemoryRepo} (hrun : m.run s.repo = .ok a repo)
    (h : Served app call s ((f <$> next a).run (s.withRepo repo))) :
    Serves app call s f (onRepo m >>= next) := by
  unfold Serves
  rwa [run_map, run_written hrun, ← run_map]

end Serves

theorem whoami_served : Serves app call s .whoami (whoami call.ctx) := by
  refine Serves.check fun session _ => ?_
  refine Serves.read rfl (Serves.read rfl ?_)
  refine Serves.check fun user _ => ?_
  refine Serves.check fun org _ => ?_
  exact .whoami _

theorem deleteDatabase_served (databaseId : String) :
    Serves app call s (fun _ => .deleted) (deleteDatabase call.ctx databaseId) := by
  refine Serves.check fun session hsession => ?_
  refine Serves.guard fun _ => ?_
  refine Serves.read rfl ?_
  refine Serves.check fun db hdb => ?_
  refine Serves.guard fun horg => ?_
  have howned : Owned call.ctx s.repo session ⟨databaseId⟩ db :=
    ⟨requireSession_eq_ok.mp hsession, okOr_eq_ok.mp hdb, not_not.mp horg⟩
  have hmem : (⟨databaseId⟩ : DatabaseId) ∈ s.repo.databases :=
    AList.lookup_isSome.mp (by rw [howned.present]; rfl)
  unfold Serves
  rw [run_map, run_onRepo, InMemoryRepo.run_deleteDatabase, if_pos hmem]
  exact .deleteDatabase session _ db howned

theorem issueSyncToken_served (databaseId : String) (direction : Int32) (ttlSeconds : Int64) :
    Serves app call s .syncToken
      (issueSyncToken app call.env call.ctx databaseId direction ttlSeconds) := by
  refine Serves.check fun session hsession => ?_
  refine Serves.read rfl ?_
  refine Serves.check fun db hdb => ?_
  refine Serves.guard fun horg => ?_
  have howned : Owned call.ctx s.repo session ⟨databaseId⟩ db :=
    ⟨requireSession_eq_ok.mp hsession, okOr_eq_ok.mp hdb, not_not.mp horg⟩
  dsimp only
  split
  · exact .issueSyncToken session _ db howned _ rfl rfl _
  · split
    · exact .issueSyncToken session _ db howned _ rfl rfl _
    · exact .fails _

variable [HashOrder]

/-- What a session of the user on an organization is minted for. -/
def rootedOn (app : AppState) (env : Env) (user : Domain.User) (listed : OrgWithRole) :
    MintSessionInput where
  userId := user.id
  email := user.email
  org := listed.1.id
  role := listed.2
  nowUnix := env.nowUnix
  ttlSeconds := app.config.sessionTtlSeconds

/-- A session is rooted on the first personal organization that is listed. -/
theorem run_issueSessionFor (app : AppState) (env : Env) (user : Domain.User) (s : AdminServer) :
    ∃ orgs, (InMemoryRepo.listOrganizationsForUser user.id).run s.repo = .ok orgs s.repo ∧
      ((orgs.find? fun listed => listed.1.personal) = none ∧
          (∃ e, (issueSessionFor app env user).run s = .error e s) ∨
        ∃ listed, (orgs.find? fun listed => listed.1.personal) = some listed ∧
          (issueSessionFor app env user).run s =
            .ok (Tokens.mintSession app.keyring (rootedOn app env user listed), listed)
              (s.addSession (rootedOn app env user listed))) := by
  obtain ⟨orgs, hlist⟩ : ∃ orgs,
      (InMemoryRepo.listOrganizationsForUser user.id).run s.repo = .ok orgs s.repo := ⟨_, rfl⟩
  refine ⟨orgs, hlist, ?_⟩
  unfold issueSessionFor
  rw [run_read hlist]
  cases hfind : orgs.find? fun listed => listed.1.personal with
  | none => exact .inl ⟨rfl, _, run_refused rfl _⟩
  | some listed => exact .inr ⟨listed, rfl, run_checked rfl _⟩

/-- A token is minted, or the call fails with nothing changed. -/
theorem issueSessionFor_cases (app : AppState) (env : Env) (user : Domain.User) (s : AdminServer) :
    (∃ e, (issueSessionFor app env user).run s = .error e s) ∨
      ∃ input org role, ListedFor s.repo input ∧ (issueSessionFor app env user).run s =
        .ok (Tokens.mintSession app.keyring input, org, role) (s.addSession input) := by
  obtain ⟨orgs, hlist, ⟨-, hfails⟩ | ⟨⟨org, role⟩, hfind, hrun⟩⟩ :=
    run_issueSessionFor app env user s
  · exact .inl hfails
  · obtain ⟨orgId, m, hmember, horg, hrole⟩ :=
      (InMemoryRepo.mem_listOrganizationsForUser hlist).mp (List.mem_of_find?_eq_some hfind)
    have hpersonal : org.personal = true := by simpa using List.find?_some hfind
    exact .inr ⟨_, org, role, ⟨orgId, org, m, hmember, horg, hpersonal, rfl, hrole.symm⟩, hrun⟩

/-- Both ways to a session end in issuing it. -/
theorem opensSession_of_issue (env : Env) (user : Domain.User) (s : AdminServer) :
    OpensSession app s ((Response.auth <$> (issueSessionFor app env user >>=
      fun (token, org, role) => pure ⟨token, whoamiPb user org role⟩)).run s) := by
  rw [run_map, EStateM.run_bind]
  rcases issueSessionFor_cases app env user s with ⟨e, hrun⟩ | ⟨input, org, role, hlisted, hrun⟩
  · rw [hrun]
    exact .fails e
  · rw [hrun]
    exact .opens input _ hlisted

theorem createDatabase_served (name : String) :
    Serves app call s .database (createDatabase call.env call.ctx name) := by
  refine Serves.check fun session hsession => ?_
  refine Serves.guard fun _ => ?_
  refine Serves.check fun _ _ => ?_
  rcases InMemoryRepo.createDatabase_cases call.env.ids session.org (Text.trim name) session.user
    call.env.nowMs s.repo with ⟨e, hrun⟩ | ⟨-, hrun⟩
  · exact Serves.refused hrun
  · exact Serves.write hrun
      (.createDatabase session _ (requireSession_eq_ok.mp hsession) rfl rfl)

theorem listDatabases_served : Serves app call s .databases (listDatabases call.ctx) := by
  refine Serves.check fun session hsession => ?_
  refine Serves.read rfl ?_
  refine .listDatabases session _ (requireSession_eq_ok.mp hsession) fun db hdb => ?_
  obtain ⟨horg, id, hlookup⟩ := InMemoryRepo.mem_listDatabasesForOrg (g := s.repo) rfl hdb
  exact ⟨id, requireSession_eq_ok.mp hsession, hlookup, horg⟩

variable [Argon2] [Lowercase]

theorem signup_served (email password : String) :
    Serves app call s .auth (signup app call.env email password) := by
  refine Serves.check fun _ _ => ?_
  refine Serves.check fun passwordHash _ => ?_
  rcases InMemoryRepo.createUser_cases call.env.ids _ call.env.nowMs s.repo with
    ⟨e, hrun⟩ | ⟨-, hrun⟩
  · exact Serves.refused hrun
  · exact Serves.write hrun (.signup _ (opensSession_of_issue _ _ _))

theorem login_served (email password : String) :
    Serves app call s .auth (login app call.env email password) := by
  refine Serves.read rfl ?_
  refine Serves.check fun user _ => ?_
  refine Serves.read rfl ?_
  refine Serves.check fun passwordIdentity _ => ?_
  refine Serves.check fun stored _ => ?_
  refine Serves.check fun _ _ => ?_
  exact .login (opensSession_of_issue _ _ _)

def result (app : AppState) (call : Call) (s : AdminServer) : Result :=
  (serve app call.env call.ctx call.request).run s

/-- What serving any request comes to. -/
theorem served (app : AppState) (call : Call) (s : AdminServer) :
    Served app call s (result app call s) := by
  unfold result serve
  cases call.request with
  | whoami => exact whoami_served
  | signup email password => exact signup_served email password
  | login email password => exact login_served email password
  | createDatabase name => exact createDatabase_served name
  | listDatabases => exact listDatabases_served
  | deleteDatabase databaseId => exact deleteDatabase_served databaseId
  | issueSyncToken databaseId direction ttlSeconds =>
    exact issueSyncToken_served databaseId direction ttlSeconds

end

end AdminServer

end EdgeReplica
