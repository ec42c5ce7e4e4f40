-- SUMMARY: The admin service of the worker: all its requests over D1, split at what they await, and what a turn can come to.
import EdgeReplica.Repo.D1Tenancy
import EdgeReplica.Services.DatabaseRaces
import EdgeReplica.Services.OAuthRaces

/-!
# The admin service over D1

A request runs until it awaits a storage call, or GitHub, and other requests go on in
between. Creating and deleting databases and the two requests of OAuth are the tasks of
`DatabaseRaces` and `OAuthRaces`; the others are here. Next to the tables the state records
what tokens were minted with; no request reads that record.
-/

namespace EdgeReplica

open Common (mapStoreError mapPasswordError validateEmail)
open Domain (User)
open Effect (bind_eq_ok final mapError_eq_ok okOr okOr_eq_ok)
open SessionAuth (requireSession)
open Sql (ScanOrder)
open Tokens (MintSessionInput MintSyncInput)

namespace AdminService

inductive Request where
  | whoami
  | signup (email password : String)
  | login (email password : String)
  | startOAuth (provider : String)
  | completeOAuth (state code : String)
  | createDatabase (name : String)
  | listDatabases
  | deleteDatabase (databaseId : String)
  | issueSyncToken (databaseId : String) (direction : Int32) (ttlSeconds : Int64)

/-- A request as it reaches its handler, with the time, the salt and the state of OAuth that
are drawn for it before it first awaits anything. -/
structure Call where
  ctx : RpcContext
  nowMs : Int64
  salt : String
  generated : String
  request : Request

/-- A request that is under way, by the storage call that it awaits. -/
inductive Task where
  | getUser (session : SessionContext)
  | getOrganization (session : SessionContext) (user : Except StoreError (Option User))
  | createPasswordUser (input : NewPasswordUser) (nowMs : Int64)
  | getUserByEmail (email password : String)
  | listIdentities (user : User) (password : String)
  | listOrganizationsForUser (user : User)
  | listDatabasesForOrg (session : SessionContext)
  | getDatabase (session : SessionContext) (id : DatabaseId) (direction : Int32)
    (ttlSeconds : Int64)
  | databases (task : DatabaseRaces.Task)
  | oauth (task : OAuthRaces.Task)
  | answered (result : Except ConnectError AdminServer.Response)

def Task.settle : Except ConnectError Task → Task
  | .ok task => task
  | .error e => .answered (.error e)

/-- The token that the request was answered with. -/
def Task.token : Task → Option Macaroon
  | .answered (.ok (.auth response)) => some response.sessionToken
  | .answered (.ok (.syncToken response)) => some response.token
  | .oauth task => task.session
  | _ => none

/-- The session that a sync token is to be issued in. -/
def Task.session : Task → Option SessionContext
  | .getDatabase session _ _ _ => some session
  | _ => none

/-- What a request does before it first awaits anything. -/
def start [Argon2] (config : Config) (call : Call) : Task :=
  match call.request with
  | .whoami => .settle do return .getUser (← requireSession call.ctx)
  | .signup email password => .settle do
    validateEmail email
    let passwordHash ← (Password.hashNewPassword call.salt password).mapError mapPasswordError
    return .createPasswordUser { email, passwordHash } call.nowMs
  | .login email password => .getUserByEmail email password
  | .startOAuth provider =>
    .oauth (OAuthRaces.start config ⟨call.nowMs, call.generated, .start provider⟩)
  | .completeOAuth state code =>
    .oauth (OAuthRaces.start config ⟨call.nowMs, call.generated, .complete state code⟩)
  | .createDatabase name => .databases (DatabaseRaces.start ⟨call.ctx, call.nowMs, .create name⟩)
  | .listDatabases => .settle do return .listDatabasesForOrg (← requireSession call.ctx)
  | .deleteDatabase databaseId =>
    .databases (DatabaseRaces.start ⟨call.ctx, call.nowMs, .delete databaseId⟩)
  | .issueSyncToken databaseId direction ttlSeconds => .settle do
    return .getDatabase (← requireSession call.ctx) ⟨databaseId⟩ direction ttlSeconds

/-- The tables and the identifiers that were generated for databases, and what tokens were
minted with. -/
structure State where
  store : DatabaseRaces.Store
  sessions : List MintSessionInput
  syncs : List MintSyncInput

def empty : State := ⟨⟨.new, []⟩, [], []⟩

namespace State

variable (s : State)

abbrev repo : D1Repo := s.store.repo

def withRepo (repo : D1Repo) : State := { s with store := { s.store with repo } }

def addSessions (inputs : List MintSessionInput) : State :=
  { s with sessions := inputs ++ s.sessions }

def addSync (input : MintSyncInput) : State := { s with syncs := input :: s.syncs }

end State

/-! ## Turns -/

/-- A storage call, and what the request goes on to. -/
def onRepo {α : Type} (m : D1M α) (next : α → Task) (s : State) : Task × State :=
  match m.run s.repo with
  | .ok a repo => (next a, s.withRepo repo)
  | .error e repo => (.answered (.error (mapStoreError e)), s.withRepo repo)

section

variable [ScanOrder]

/-- What a session of the user is minted with. -/
def sessionFor (config : Config) (nowUnix : Int64) (user : User) (repo : D1Repo) :
    Except ConnectError MintSessionInput :=
  match (D1Repo.listOrganizationsForUser user.id).run repo with
  | .ok orgs _ => OAuth.sessionInput config nowUnix user orgs
  | .error e _ => .error (mapStoreError e)

/-- The session that a request of OAuth mints in its next turn. -/
def sessionOf (config : Config) (nowUnix : Int64) (task : OAuthRaces.Task) (repo : D1Repo) :
    List MintSessionInput :=
  match task.awaiting with
  | .listOrganizationsForUser user => (sessionFor config nowUnix user repo).toOption.toList
  | _ => []

/-- The directions that a request may name. -/
def knownDirection (direction : Int32) : Except ConnectError Direction :=
  if direction = Pb.DIRECTION_PUSH then .ok .push
  else if direction = Pb.DIRECTION_PULL then .ok .pull
  else .error ⟨.invalidArgument, "direction must be DIRECTION_PUSH or DIRECTION_PULL"⟩

/-- What a sync token is minted with, for the database that was found. -/
def syncFor (config : Config) (nowUnix : Int64) (session : SessionContext) (direction : Int32)
    (ttlSeconds : Int64) (db : Option Domain.Database) : Except ConnectError MintSyncInput := do
  let db ← okOr db ⟨.notFound, "database not found"⟩
  if db.orgId ≠ session.org then
    throw ⟨.permissionDenied, "database belongs to another organization"⟩
  let direction ← knownDirection direction
  return {
    userId := session.user
    org := session.org
    database := db.id
    direction := direction
    nowUnix := nowUnix
    ttlSeconds :=
      if ttlSeconds ≤ 0 then config.syncTokenTtlSeconds
      else min ttlSeconds config.maxSyncTokenTtlSeconds }

/-- The answer to `Whoami`, whose two storage calls are looked at together. -/
def whoami (session : SessionContext) (user : Except StoreError (Option User))
    (org : Except StoreError (Option Domain.Organization)) :
    Except ConnectError AdminServer.Response := do
  let user ← okOr (← user.mapError mapStoreError)
    ⟨.unauthenticated, "session user no longer exists"⟩
  let org ← okOr (← org.mapError mapStoreError)
    ⟨.failedPrecondition, "session org no longer exists"⟩
  return .whoami (AdminServer.whoamiPb user org session.role)

/-- What the identities of the user make of a login. -/
def checkPassword [Argon2] (user : User) (password : String) (identities : List Domain.Identity) :
    Except ConnectError Task := do
  let passwordIdentity ← okOr (identities.find? fun i => i.provider = IdentityProvider.PASSWORD)
    ⟨.unauthenticated, "invalid credentials"⟩
  let stored ← okOr passwordIdentity.secret ⟨.internal, "password identity missing secret"⟩
  (Password.verifyPassword stored password).mapError mapPasswordError
  return .listOrganizationsForUser user

def result {α : Type} : EStateM.Result StoreError D1Repo α → Except StoreError α
  | .ok a _ => .ok a
  | .error e _ => .error e

variable [TokenClaimsCodec]

def openSession (app : AppState) (nowUnix : Int64) (user : User) (s : State) : Task × State :=
  match sessionFor app.config nowUnix user s.repo with
  | .ok input =>
    (.answered (.ok (.auth {
      sessionToken := Tokens.mintSession app.keyring input
      whoami := {
        userId := user.id.asStr
        email := user.email
        orgId := input.org.asStr
        role := input.role.asStr } })), s.addSessions [input])
  | .error e => (.answered (.error e), s)

def issueSyncToken (app : AppState) (nowUnix : Int64) (session : SessionContext)
    (id : DatabaseId) (direction : Int32) (ttlSeconds : Int64) (s : State) : Task × State :=
  match (result ((D1Repo.getDatabase id).run s.repo)).mapError mapStoreError >>=
      syncFor app.config nowUnix session direction ttlSeconds with
  | .ok input =>
    (.answered (.ok (.syncToken {
      token := Tokens.mintSync app.keyring input
      expUnix := nowUnix + input.ttlSeconds })), s.addSync input)
  | .error e => (.answered (.error e), s)

/-- Let a request go on until it awaits the next thing. -/
def turn [Argon2] (app : AppState) (env : OAuthEnv) (task : Task) (s : State) :
    Option (Task × State) :=
  match task with
  | .getUser session =>
    some (.getOrganization session (result ((D1Repo.getUser session.user).run s.repo)), s)
  | .getOrganization session user =>
    some (.answered (whoami session user
      (result ((D1Repo.getOrganization session.org).run s.repo))), s)
  | .createPasswordUser input nowMs =>
    some <| onRepo (D1Repo.createPasswordUser env.ids input nowMs) .listOrganizationsForUser s
  | .getUserByEmail email password =>
    some <| onRepo (D1Repo.getUserByEmail email)
      (fun user => .settle do
        let user ← okOr user ⟨.unauthenticated, "invalid credentials"⟩
        return .listIdentities user password) s
  | .listIdentities user password =>
    some <| onRepo (D1Repo.listIdentities user.id)
      (fun identities => .settle (checkPassword user password identities)) s
  | .listOrganizationsForUser user => some <| openSession app env.nowUnix user s
  | .listDatabasesForOrg session =>
    some <| onRepo (D1Repo.listDatabasesForOrg session.org)
      (fun dbs => .answered (.ok (.databases (dbs.map AdminServer.databasePb)))) s
  | .getDatabase session id direction ttlSeconds =>
    some <| issueSyncToken app env.nowUnix session id direction ttlSeconds s
  | .databases task =>
    (DatabaseRaces.turn env.ids task s.store).map fun (task, store) =>
      (.databases task, { s with store })
  | .oauth task =>
    (OAuthRaces.turn app env task s.repo).map fun (next, repo) =>
      (.oauth next,
        (s.withRepo repo).addSessions (sessionOf app.config env.nowUnix task s.repo))
  | .answered _ => none

end

/-! ## What a turn can come to -/

/-- A request that holds no token and does not issue one next. -/
structure Silent (task : Task) : Prop where
  token : task.token = none
  session : task.session = none

inductive Turns [TokenClaimsCodec] (app : AppState) (task : Task) (s : State) :
    Task → State → Prop
  | silent (task' : Task) (generated : List DatabaseId) (h : Silent task')
      (hgenerated : s.store.generated ⊆ generated) :
      Turns app task s task' { s with store := { s.store with generated } }
  | oauthStates (task' : Task) (states : List OAuthStateRow) (h : Silent task') :
      Turns app task s task' (s.withRepo { s.repo with oauthStates := states })
  | signedUp (task' : Task) (ids : FreshIds) (rec : D1Repo.SignupRecord) (h : Silent task')
      (hnew : D1Repo.signupViolation ids rec s.repo = none) :
      Turns app task s task' (s.withRepo (D1Repo.signedUp ids rec s.repo))
  | created (task' : Task) (id : DatabaseId) (row : DatabaseRow) (h : Silent task')
      (hid : id ∉ s.store.generated) (hrow : row.id = id.asStr)
      (hnew : D1Repo.databasesTable.violation row s.repo = none) :
      Turns app task s task'
        { s with store := ⟨D1Repo.databasesTable.add row s.repo, id :: s.store.generated⟩ }
  | deleted (task' : Task) (id : DatabaseId) (h : Silent task') :
      Turns app task s task' (s.withRepo (s.repo.withoutDatabase id))
  | session (task' : Task) (input : MintSessionInput) (hlisted : s.repo.ListedFor input)
      (htoken : task'.token = some (Tokens.mintSession app.keyring input))
      (hsession : task'.session = none) :
      Turns app task s task' (s.addSessions [input])
  | sync (session : SessionContext) (row : DatabaseRow) (input : MintSyncInput) (expUnix : Int64)
      (hsession : task.session = some session) (hrow : row ∈ s.repo.databases)
      (hid : row.id = input.database.asStr) (horg : row.orgId = input.org.asStr)
      (huser : session.user = input.userId) (hinput : session.org = input.org) :
      Turns app task s
        (.answered (.ok (.syncToken ⟨Tokens.mintSync app.keyring input, expUnix⟩)))
        (s.addSync input)

/-! ## Requests that only read or fail -/

section

/-- A check in front of a request either fails or lets it go on. -/
theorem silent_bind {α : Type} {x : Except ConnectError α} {f : α → Except ConnectError Task}
    (h : ∀ a, Silent (.settle (f a))) : Silent (.settle (x >>= f)) := by
  cases x with
  | ok a => exact h a
  | error e => exact ⟨rfl, rfl⟩

theorem silent_checkPassword [Argon2] (user : User) (password : String)
    (identities : List Domain.Identity) :
    Silent (.settle (checkPassword user password identities)) := by
  refine silent_bind fun passwordIdentity => ?_
  refine silent_bind fun stored => ?_
  exact silent_bind fun _ => ⟨rfl, rfl⟩

theorem silent_whoami (session : SessionContext) (user : Except StoreError (Option User))
    (org : Except StoreError (Option Domain.Organization)) :
    Silent (.answered (whoami session user org)) := by
  cases hanswer : whoami session user org with
  | error e => exact ⟨rfl, rfl⟩
  | ok response =>
    obtain ⟨_, -, h⟩ := bind_eq_ok.mp hanswer
    obtain ⟨_, -, h⟩ := bind_eq_ok.mp h
    obtain ⟨_, -, h⟩ := bind_eq_ok.mp h
    obtain ⟨_, -, h⟩ := bind_eq_ok.mp h
    obtain rfl := Except.ok.inj h
    exact ⟨rfl, rfl⟩

theorem session_oauthStart (config : Config) (call : OAuthCall) :
    (OAuthRaces.start config call).session = none := by
  unfold OAuthRaces.start
  cases call.request with
  | start provider =>
    dsimp only
    cases OAuth.start config call.nowMs call.generated provider <;> rfl
  | complete state code => rfl

/-- A request that arrives holds no token, and the session it may issue a sync token in is its
own. -/
theorem start_cases [Argon2] (config : Config) (call : Call) :
    Silent (start config call) ∨ ∃ session id direction ttlSeconds,
      call.ctx.session = some session ∧
      start config call = .getDatabase session id direction ttlSeconds := by
  unfold start
  cases call.request with
  | whoami | listDatabases => exact .inl (silent_bind fun session => ⟨rfl, rfl⟩)
  | signup email password =>
    refine .inl (silent_bind fun _ => ?_)
    exact silent_bind fun passwordHash => ⟨rfl, rfl⟩
  | login email password => exact .inl ⟨rfl, rfl⟩
  | startOAuth provider =>
    exact .inl ⟨session_oauthStart config ⟨call.nowMs, call.generated, .start provider⟩, rfl⟩
  | completeOAuth state code =>
    exact .inl
      ⟨session_oauthStart config ⟨call.nowMs, call.generated, .complete state code⟩, rfl⟩
  | createDatabase name => exact .inl ⟨rfl, rfl⟩
  | deleteDatabase databaseId => exact .inl ⟨rfl, rfl⟩
  | issueSyncToken databaseId direction ttlSeconds =>
    cases hsession : requireSession call.ctx with
    | error e => exact .inl ⟨rfl, rfl⟩
    | ok session =>
      exact .inr ⟨session, _, _, _, SessionAuth.requireSession_eq_ok.mp hsession, rfl⟩

end

section

variable [TokenClaimsCodec] {app : AppState} {task task' : Task} {s s' : State}

/-- What a storage call comes to is a turn. -/
def IsTurn (app : AppState) (task : Task) (s : State) (next : Task × State) : Prop :=
  Turns app task s next.1 next.2

theorem Turns.quiet (h : Silent task') : Turns app task s task' s :=
  .silent task' s.store.generated h (List.Subset.refl _)

theorem turns_read {α : Type} {m : D1M α} {next : α → Task} (hreads : final (m.run s.repo) = s.repo)
    (hnext : ∀ a, Silent (next a)) : IsTurn app task s (onRepo m next s) := by
  unfold onRepo
  cases hrun : m.run s.repo with
  | ok a repo =>
    rw [hrun] at hreads
    obtain rfl : repo = s.repo := hreads
    exact .quiet (hnext a)
  | error e repo =>
    rw [hrun] at hreads
    obtain rfl : repo = s.repo := hreads
    exact .quiet ⟨rfl, rfl⟩

theorem turns_createPasswordUser {ids : FreshIds} {input : NewPasswordUser} {nowMs : Int64} :
    IsTurn app task s
      (onRepo (D1Repo.createPasswordUser ids input nowMs) .listOrganizationsForUser s) := by
  rw [onRepo, D1Repo.createPasswordUser, D1Repo.run_signup]
  cases hnew : D1Repo.signupViolation ids ⟨input.email, false, IdentityProvider.PASSWORD, none,
      some input.passwordHash, nowMs⟩ s.repo with
  | some rule => exact .quiet ⟨rfl, rfl⟩
  | none => exact .signedUp _ ids _ ⟨rfl, rfl⟩ hnew

variable [ScanOrder]

/-! ## Sessions -/

omit [TokenClaimsCodec] in
/-- A session is minted for an organization that is listed for its user. -/
theorem listedFor_of_sessionFor {config : Config} {nowUnix : Int64} {user : User} {repo : D1Repo}
    {input : MintSessionInput} (h : sessionFor config nowUnix user repo = .ok input) :
    repo.ListedFor input := by
  unfold sessionFor at h
  split at h
  · next orgs repo' hrun =>
    obtain ⟨⟨org, role⟩, hfind, h⟩ := bind_eq_ok.mp h
    have hfind := okOr_eq_ok.mp hfind
    obtain ⟨m, hm, o, ho, hid, huser, hinto, hrole⟩ :=
      D1Repo.mem_listOrganizationsForUser hrun (List.mem_of_find?_eq_some hfind)
    have hpersonal : org.personal = true := by simpa using List.find?_some hfind
    obtain rfl := Except.ok.inj h
    exact ⟨m, hm, o, ho, hid, OrgRow.personal_of_into hinto hpersonal, huser,
      (OrgRow.id_of_into hinto).symm, hrole⟩
  · cases h

theorem turns_openSession {nowUnix : Int64} {user : User} :
    IsTurn app task s (openSession app nowUnix user s) := by
  unfold openSession
  cases hinput : sessionFor app.config nowUnix user s.repo with
  | ok input => exact .session _ input (listedFor_of_sessionFor hinput) rfl rfl
  | error e => exact .quiet ⟨rfl, rfl⟩

/-- A request of OAuth that knows its user mints the session that is recorded for it. -/
theorem turns_oauthSession {env : OAuthEnv} {task : OAuthRaces.Task} {user : User}
    (hawaiting : task.awaiting = .listOrganizationsForUser user) {next : OAuthRaces.Task}
    {repo : D1Repo} (h : OAuthRaces.turn app env task s.repo = some (next, repo)) :
    Turns app (.oauth task) s (.oauth next)
      ((s.withRepo repo).addSessions (sessionOf app.config env.nowUnix task s.repo)) := by
  simp only [OAuthRaces.turn, hawaiting, Option.some.injEq] at h
  simp only [sessionOf, hawaiting]
  have hreads := D1Repo.final_listOrganizationsForUser s.repo user.id
  unfold sessionFor
  unfold OAuthRaces.onRepo at h
  cases hrun : (D1Repo.listOrganizationsForUser user.id).run s.repo with
  | error e repo' =>
    rw [hrun] at h hreads
    obtain ⟨rfl, rfl⟩ := Prod.mk.inj h
    obtain rfl : repo' = s.repo := hreads
    exact .quiet ⟨rfl, rfl⟩
  | ok orgs repo' =>
    rw [hrun] at h hreads
    obtain ⟨rfl, rfl⟩ := Prod.mk.inj h
    obtain rfl : repo' = s.repo := hreads
    dsimp only [OAuthRaces.minted]
    cases hinput : OAuth.sessionInput app.config env.nowUnix user orgs with
    | error e => exact .quiet ⟨rfl, rfl⟩
    | ok input =>
      have hsession : sessionFor app.config env.nowUnix user s.repo = .ok input := by
        rw [sessionFor, hrun]
        exact hinput
      exact .session _ input (listedFor_of_sessionFor hsession) rfl rfl

theorem turns_oauth {env : OAuthEnv} {task next : OAuthRaces.Task} {repo : D1Repo}
    (h : OAuthRaces.turn app env task s.repo = some (next, repo)) :
    Turns app (.oauth task) s (.oauth next)
      ((s.withRepo repo).addSessions (sessionOf app.config env.nowUnix task s.repo)) := by
  by_cases hlists : ∃ user, task.awaiting = .listOrganizationsForUser user
  · obtain ⟨user, hawaiting⟩ := hlists
    exact turns_oauthSession hawaiting h
  · have hnone : sessionOf app.config env.nowUnix task s.repo = [] := by
      unfold sessionOf
      split
      · next user hawaiting => exact absurd ⟨user, hawaiting⟩ hlists
      · rfl
    rw [hnone]
    cases OAuthRaces.turns h with
    | stored state response hawaiting => exact .oauthStates _ _ ⟨rfl, rfl⟩
    | accepted state code row st result hawaiting =>
      cases result with
      | ok redirectUri => exact .oauthStates _ _ ⟨rfl, rfl⟩
      | error e => exact .oauthStates _ _ ⟨rfl, rfl⟩
    | refused state e => exact .oauthStates _ _ ⟨rfl, rfl⟩
    | told identity => exact .quiet ⟨rfl, rfl⟩
    | found identity userId hawaiting hlinks => exact .quiet ⟨rfl, rfl⟩
    | unknown identity hawaiting => exact .quiet ⟨rfl, rfl⟩
    | loaded user hawaiting => exact .quiet ⟨rfl, rfl⟩
    | signedUp identity ids rec user hawaiting hnew hlinks =>
      exact .signedUp _ ids rec ⟨rfl, rfl⟩ hnew
    | minted user input hawaiting hinput => exact absurd ⟨user, hawaiting⟩ hlists
    | failed e => exact .quiet ⟨rfl, rfl⟩

/-! ## Databases -/

theorem turns_databases {ids : FreshIds} {task next : DatabaseRaces.Task}
    {store : DatabaseRaces.Store} (h : DatabaseRaces.turn ids task s.store = some (next, store)) :
    Turns app (.databases task) s (.databases next) { s with store } := by
  cases DatabaseRaces.turns h with
  | created session name id nowMs row hawaiting hid hrow hnew =>
    exact .created _ id row ⟨rfl, rfl⟩ hid (by rw [hrow]) hnew
  | found session id row hawaiting hrow hid horg => exact .quiet ⟨rfl, rfl⟩
  | deleted session id row hawaiting hrow hid => exact .deleted _ id ⟨rfl, rfl⟩
  | failed e generated hgenerated => exact .silent _ generated ⟨rfl, rfl⟩ hgenerated

omit [TokenClaimsCodec] [ScanOrder] in
/-- A sync token is minted for the session and for a database of its organization. -/
theorem syncFor_eq_ok {config : Config} {nowUnix : Int64} {session : SessionContext}
    {direction : Int32} {ttlSeconds : Int64} {db : Option Domain.Database} {input : MintSyncInput}
    (h : syncFor config nowUnix session direction ttlSeconds db = .ok input) :
    ∃ found, db = some found ∧ found.id = input.database ∧ found.orgId = input.org ∧
      session.user = input.userId ∧ session.org = input.org := by
  obtain ⟨found, hfound, h⟩ := bind_eq_ok.mp h
  by_cases horg : found.orgId ≠ session.org
  · rw [if_pos horg] at h
    cases h
  · rw [if_neg horg] at h
    obtain ⟨direction, -, h⟩ := bind_eq_ok.mp h
    obtain rfl := Except.ok.inj h
    exact ⟨found, okOr_eq_ok.mp hfound, rfl, not_not.mp horg, rfl, rfl⟩

theorem turns_issueSyncToken {nowUnix : Int64} {session : SessionContext} {id : DatabaseId}
    {direction : Int32} {ttlSeconds : Int64} :
    IsTurn app (.getDatabase session id direction ttlSeconds) s
      (issueSyncToken app nowUnix session id direction ttlSeconds s) := by
  unfold issueSyncToken
  split
  · next input hinput =>
    obtain ⟨db, hread, hsync⟩ := bind_eq_ok.mp hinput
    obtain ⟨found, rfl, hid, horg, huser, hsession⟩ := syncFor_eq_ok hsync
    have hread := mapError_eq_ok.mp hread
    obtain hrun | ⟨e, hrun⟩ | ⟨row, hrow, -, found', hinto, hrun⟩ := D1Repo.first_cases s.repo
      D1Repo.databasesTable (fun r => r.id = id.asStr) DatabaseRow.into <;>
      rw [D1Repo.getDatabase, hrun] at hread
    · cases hread
    · cases hread
    · obtain rfl : found' = found := Option.some.inj (Except.ok.inj hread)
      exact .sync session row input _ rfl hrow
        ((DatabaseRow.id_of_into hinto).symm.trans (by rw [hid]))
        ((DatabaseRow.orgId_of_into hinto).symm.trans (by rw [horg])) huser hsession
  · exact .quiet ⟨rfl, rfl⟩

/-! ## Every turn -/

theorem turns [Argon2] {env : OAuthEnv} (h : turn app env task s = some (task', s')) :
    Turns app task s task' s' := by
  have hturns : ∀ {next}, some next = some (task', s') → IsTurn app task s next →
      Turns app task s task' s' := by
    rintro next heq hnext
    obtain rfl := Option.some.inj heq
    exact hnext
  unfold turn at h
  cases task with
  | getUser session => exact hturns h (.quiet ⟨rfl, rfl⟩)
  | getOrganization session user =>
    exact hturns h (.quiet (silent_whoami _ _ _))
  | createPasswordUser input nowMs => exact hturns h turns_createPasswordUser
  | getUserByEmail email password =>
    refine hturns h (turns_read (D1Repo.final_first _ _ _ _) fun user => ?_)
    exact silent_bind fun user => ⟨rfl, rfl⟩
  | listIdentities user password =>
    exact hturns h (turns_read (D1Repo.final_all _ _ _ _) fun _ => silent_checkPassword _ _ _)
  | listOrganizationsForUser user => exact hturns h turns_openSession
  | listDatabasesForOrg session =>
    exact hturns h (turns_read (D1Repo.final_listDatabasesForOrg _ _) fun _ => ⟨rfl, rfl⟩)
  | getDatabase session id direction ttlSeconds => exact hturns h turns_issueSyncToken
  | databases task =>
    obtain ⟨⟨next, store⟩, hturn, heq⟩ := Option.map_eq_some_iff.mp h
    obtain ⟨rfl, rfl⟩ := Prod.mk.inj heq
    exact turns_databases hturn
  | oauth task =>
    obtain ⟨⟨next, repo⟩, hturn, heq⟩ := Option.map_eq_some_iff.mp h
    obtain ⟨rfl, rfl⟩ := Prod.mk.inj heq
    exact turns_oauth hturn
  | answered result => cases h

end

end AdminService

end EdgeReplica
