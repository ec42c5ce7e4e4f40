-- SUMMARY: The admin service: signup, login, database management and the issuing of tokens, over the in-memory repository.
import EdgeReplica.Middleware.SessionAuth
import EdgeReplica.Repo.InMemory

/-!
# The admin service

A handler reads and writes the repository and mints tokens. Next to the repository
the state records what tokens were minted with; no handler reads that record.
-/

namespace EdgeReplica

open Common (mapStoreError mapPasswordError validateEmail validateDatabaseName)
open Effect (okOr)
open SessionAuth (requireSession)
open Text (Lowercase)
open Tokens (MintSessionInput MintSyncInput)

/-! ## Messages -/

namespace Pb

structure WhoamiInfo where
  userId : String
  email : String
  orgId : String
  role : String
deriving DecidableEq

structure AuthResponse where
  sessionToken : Macaroon
  whoami : WhoamiInfo

structure Database where
  id : String
  orgId : String
  name : String
  createdAtUnix : Int64
deriving DecidableEq

structure IssueSyncTokenResponse where
  token : Macaroon
  expUnix : Int64

def DIRECTION_PUSH : Int32 := 1
def DIRECTION_PULL : Int32 := 2

end Pb

/-- The tunables that the handlers read. -/
structure Config where
  sessionTtlSeconds : Int64 := 86400
  syncTokenTtlSeconds : Int64 := 3600
  maxSyncTokenTtlSeconds : Int64 := 24 * 3600
  oauthStateTtlSeconds : Int64 := 10 * 60
  oauthRedirectBase : String := ""
  githubClientId : Option String := none
  githubClientSecret : Option String := none

structure AppState where
  keyring : Keyring
  config : Config := {}

/-- What a request draws from its surroundings: the clock, fresh identifiers and
the salt of a new password. -/
structure Env where
  nowMs : Int64
  nowUnix : Int64
  ids : FreshIds
  salt : String
deriving DecidableEq

structure AdminServer where
  repo : InMemoryRepo
  sessions : List MintSessionInput
  syncs : List MintSyncInput

abbrev AdminM := EStateM ConnectError AdminServer

namespace AdminServer

def empty : AdminServer := ⟨.new, [], []⟩

/-- A repository call, with its error mapped. -/
def onRepo {α : Type} (m : RepoM α) : AdminM α := fun s =>
  match m.run s.repo with
  | .ok a repo => .ok a { s with repo }
  | .error e repo => .error (mapStoreError e) { s with repo }

theorem run_onRepo {α : Type} (m : RepoM α) (s : AdminServer) :
    (onRepo m).run s = match m.run s.repo with
      | .ok a repo => .ok a { s with repo }
      | .error e repo => .error (mapStoreError e) { s with repo } := rfl

variable [TokenClaimsCodec] [HashOrder]

def mintSession (keyring : Keyring) (input : MintSessionInput) : AdminM Macaroon := do
  modify fun s => { s with sessions := input :: s.sessions }
  return Tokens.mintSession keyring input

def mintSync (keyring : Keyring) (input : MintSyncInput) : AdminM Macaroon := do
  modify fun s => { s with syncs := input :: s.syncs }
  return Tokens.mintSync keyring input

/-- Mint a session token rooted on the user's first personal organization. -/
def issueSessionFor (app : AppState) (env : Env) (user : Domain.User) :
    AdminM (Macaroon × Domain.Organization × Role) := do
  let orgs ← onRepo (InMemoryRepo.listOrganizationsForUser user.id)
  let (org, role) ← ofExcept (okOr (orgs.find? fun listed => listed.1.personal)
    ⟨.internal, "personal org missing for user"⟩)
  let token ← mintSession app.keyring {
    userId := user.id
    email := user.email
    org := org.id
    role := role
    nowUnix := env.nowUnix
    ttlSeconds := app.config.sessionTtlSeconds }
  return (token, org, role)

def whoamiPb (user : Domain.User) (org : Domain.Organization) (role : Role) : Pb.WhoamiInfo where
  userId := user.id.asStr
  email := user.email
  orgId := org.id.asStr
  role := role.asStr

def databasePb (db : Domain.Database) : Pb.Database where
  id := db.id.asStr
  orgId := db.orgId.asStr
  name := db.name
  createdAtUnix := db.createdAtMs / 1000

/-! ## Handlers -/

def whoami (ctx : RpcContext) : AdminM Pb.WhoamiInfo := do
  let session ← ofExcept (requireSession ctx)
  let user ← onRepo (InMemoryRepo.getUser session.user)
  let org ← onRepo (InMemoryRepo.getOrganization session.org)
  let user ← ofExcept (okOr user ⟨.unauthenticated, "session user no longer exists"⟩)
  let org ← ofExcept (okOr org ⟨.failedPrecondition, "session org no longer exists"⟩)
  return whoamiPb user org session.role

def signup [Argon2] [Lowercase] (app : AppState) (env : Env) (email password : String) :
    AdminM Pb.AuthResponse := do
  ofExcept (validateEmail email)
  let passwordHash ←
    ofExcept ((Password.hashNewPassword env.salt password).mapError mapPasswordError)
  let user ← onRepo (InMemoryRepo.createPasswordUser env.ids { email, passwordHash } env.nowMs)
  let (token, org, role) ← issueSessionFor app env user
  return { sessionToken := token, whoami := whoamiPb user org role }

def login [Argon2] [Lowercase] (app : AppState) (env : Env) (email password : String) :
    AdminM Pb.AuthResponse := do
  let user ← onRepo (InMemoryRepo.getUserByEmail email)
  let user ← ofExcept (okOr user ⟨.unauthenticated, "invalid credentials"⟩)
  let identities ← onRepo (InMemoryRepo.listIdentities user.id)
  let passwordIdentity ←
    ofExcept (okOr (identities.find? fun i => i.provider = IdentityProvider.PASSWORD)
      ⟨.unauthenticated, "invalid credentials"⟩)
  let stored ← ofExcept (okOr passwordIdentity.secret
    ⟨.internal, "password identity missing secret"⟩)
  ofExcept ((Password.verifyPassword stored password).mapError mapPasswordError)
  let (token, org, role) ← issueSessionFor app env user
  return { sessionToken := token, whoami := whoamiPb user org role }

def createDatabase (env : Env) (ctx : RpcContext) (name : String) : AdminM Pb.Database := do
  let session ← ofExcept (requireSession ctx)
  if session.role ≠ .admin then
    throw ⟨.permissionDenied, "admin role required to create a database"⟩
  ofExcept (validateDatabaseName name)
  let db ← onRepo (InMemoryRepo.createDatabase env.ids session.org (Text.trim name) session.user
    env.nowMs)
  return databasePb db

def listDatabases (ctx : RpcContext) : AdminM (List Pb.Database) := do
  let session ← ofExcept (requireSession ctx)
  let dbs ← onRepo (InMemoryRepo.listDatabasesForOrg session.org)
  return dbs.map databasePb

def deleteDatabase (ctx : RpcContext) (databaseId : String) : AdminM Unit := do
  let session ← ofExcept (requireSession ctx)
  if session.role ≠ .admin then
    throw ⟨.permissionDenied, "admin role required to delete a database"⟩
  let id : DatabaseId := ⟨databaseId⟩
  let db ← onRepo (InMemoryRepo.getDatabase id)
  let db ← ofExcept (okOr db ⟨.notFound, "database not found"⟩)
  if db.orgId ≠ session.org then
    throw ⟨.permissionDenied, "database belongs to another organization"⟩
  onRepo (InMemoryRepo.deleteDatabase id)

def issueSyncToken (app : AppState) (env : Env) (ctx : RpcContext) (databaseId : String)
    (direction : Int32) (ttlSeconds : Int64) : AdminM Pb.IssueSyncTokenResponse := do
  let session ← ofExcept (requireSession ctx)
  let id : DatabaseId := ⟨databaseId⟩
  let db ← onRepo (InMemoryRepo.getDatabase id)
  let db ← ofExcept (okOr db ⟨.notFound, "database not found"⟩)
  if db.orgId ≠ session.org then
    throw ⟨.permissionDenied, "database belongs to another organization"⟩
  let direction ←
    if direction = Pb.DIRECTION_PUSH then pure Direction.push
    else if direction = Pb.DIRECTION_PULL then pure Direction.pull
    else throw ⟨.invalidArgument, "direction must be DIRECTION_PUSH or DIRECTION_PULL"⟩
  let ttl :=
    if ttlSeconds ≤ 0 then app.config.syncTokenTtlSeconds
    else min ttlSeconds app.config.maxSyncTokenTtlSeconds
  let token ← mintSync app.keyring {
    userId := session.user
    org := session.org
    database := db.id
    direction := direction
    nowUnix := env.nowUnix
    ttlSeconds := ttl }
  return { token, expUnix := env.nowUnix + ttl }

/-! ## Requests -/

inductive Request where
  | whoami
  | signup (email password : String)
  | login (email password : String)
  | createDatabase (name : String)
  | listDatabases
  | deleteDatabase (databaseId : String)
  | issueSyncToken (databaseId : String) (direction : Int32) (ttlSeconds : Int64)
deriving DecidableEq

inductive Response where
  | whoami (info : Pb.WhoamiInfo)
  | auth (response : Pb.AuthResponse)
  | database (db : Pb.Database)
  | databases (dbs : List Pb.Database)
  | deleted
  | syncToken (response : Pb.IssueSyncTokenResponse)

/-- The databases that a response tells of. -/
def Response.dbs : Response → List Pb.Database
  | .database db => [db]
  | .databases dbs => dbs
  | .whoami _ | .auth _ | .deleted | .syncToken _ => []

/-- Hand a request to its handler. -/
def serve [Argon2] [Lowercase] (app : AppState) (env : Env) (ctx : RpcContext) :
    Request → AdminM Response
  | .whoami => .whoami <$> whoami ctx
  | .signup email password => .auth <$> signup app env email password
  | .login email password => .auth <$> login app env email password
  | .createDatabase name => .database <$> createDatabase env ctx name
  | .listDatabases => .databases <$> listDatabases ctx
  | .deleteDatabase databaseId => (fun _ => .deleted) <$> deleteDatabase ctx databaseId
  | .issueSyncToken databaseId direction ttlSeconds =>
    .syncToken <$> issueSyncToken app env ctx databaseId direction ttlSeconds

end AdminServer

end EdgeReplica
