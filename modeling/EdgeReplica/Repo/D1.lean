-- SUMMARY: The D1 repository: the schema of its tables, the rows as they are stored, and its operations as statements.
import EdgeReplica.Lib.Double
import EdgeReplica.Lib.Sql
import EdgeReplica.Repo.Calls
import EdgeReplica.Services.Common

/-!
# The D1 repository

Its state is six tables with the rules of the migration `0001_init.sql`. An operation is
one statement or one batch; times are bound as doubles, and a row is read back
into the type that the caller wants.
-/

namespace EdgeReplica

open Effect (bind_eq_ok)
open Sql (ScanOrder Stmt Table lower)
open Domain (User Identity Organization OrgMembership OAuthState)

/-! ## Rows -/

structure UserRow where
  id : String
  email : String
  emailVerified : Int
  createdAtMs : Int
deriving DecidableEq

structure IdentityRow where
  id : String
  userId : String
  provider : String
  providerUserId : String
  secret : Option String
  createdAtMs : Int
deriving DecidableEq

structure OrgRow where
  id : String
  displayName : String
  personal : Int
  ownerUserId : Option String
  createdAtMs : Int
deriving DecidableEq

structure OrgMembershipRow where
  userId : String
  orgId : String
  role : String
  createdAtMs : Int
deriving DecidableEq

structure DatabaseRow where
  id : String
  orgId : String
  name : String
  createdBy : String
  createdAtMs : Int
deriving DecidableEq

structure OAuthStateRow where
  state : String
  provider : String
  createdAtMs : Int
  expiresAtMs : Int
deriving DecidableEq

structure D1Repo where
  users : List UserRow
  identities : List IdentityRow
  organizations : List OrgRow
  orgMemberships : List OrgMembershipRow
  databases : List DatabaseRow
  oauthStates : List OAuthStateRow

abbrev D1M := StoreM D1Repo

namespace D1Repo

def new : D1Repo := ⟨[], [], [], [], [], []⟩

def d1Err (message : String) : StoreError := .backend message

/-- How a time is bound: as the nearest double. -/
def ms (x : Int64) : Int := Double.ofInt x.toInt

/-- How an integer is read: only if it is safe in a double. -/
def asI64 (x : Int) : Except StoreError Int64 :=
  if Double.IsSafe x then .ok (Int64.ofInt x)
  else .error (d1Err s!"invalid type: floating point {x}, expected i64")

/-- A time that can be read is the one that was bound. -/
theorem eq_of_asI64_ms {x y : Int64} (h : asI64 (ms x) = .ok y) : y = x := by
  unfold asI64 at h
  split at h
  · next hsafe =>
    obtain rfl := Except.ok.inj h
    rw [ms, Double.ofInt_of_isSafe (Double.isSafe_ofInt.mp hsafe), Int64.ofInt_toInt]
  · cases h

def parseRole (s : String) : Except StoreError Role :=
  (Role.fromStr s).mapError fun e => .backend s!"role: {e}"

end D1Repo

open D1Repo (asI64 parseRole)

def UserRow.into (r : UserRow) : Except StoreError User := do
  return {
    id := ⟨r.id⟩
    email := r.email
    emailVerified := (← asI64 r.emailVerified) ≠ 0
    createdAtMs := ← asI64 r.createdAtMs }

def IdentityRow.into (r : IdentityRow) : Except StoreError Identity := do
  return {
    id := ⟨r.id⟩
    userId := ⟨r.userId⟩
    provider := r.provider
    providerUserId := r.providerUserId
    secret := r.secret
    createdAtMs := ← asI64 r.createdAtMs }

def OrgRow.into (r : OrgRow) : Except StoreError Organization := do
  return {
    id := ⟨r.id⟩
    displayName := r.displayName
    personal := (← asI64 r.personal) ≠ 0
    ownerUserId := r.ownerUserId.map UserId.mk
    createdAtMs := ← asI64 r.createdAtMs }

def OrgMembershipRow.into (r : OrgMembershipRow) : Except StoreError OrgMembership := do
  let createdAtMs ← asI64 r.createdAtMs
  return {
    userId := ⟨r.userId⟩
    orgId := ⟨r.orgId⟩
    role := ← parseRole r.role
    createdAtMs := createdAtMs }

def DatabaseRow.into (r : DatabaseRow) : Except StoreError Domain.Database := do
  return {
    id := ⟨r.id⟩
    orgId := ⟨r.orgId⟩
    name := r.name
    createdBy := ⟨r.createdBy⟩
    createdAtMs := ← asI64 r.createdAtMs }

def OAuthStateRow.into (r : OAuthStateRow) : Except StoreError OAuthState := do
  return {
    state := r.state
    provider := r.provider
    createdAtMs := ← asI64 r.createdAtMs
    expiresAtMs := ← asI64 r.expiresAtMs }

theorem UserRow.id_of_into {row : UserRow} {user : User} (h : row.into = .ok user) :
    user.id.asStr = row.id := by
  obtain ⟨_, -, h⟩ := bind_eq_ok.mp h
  obtain ⟨_, -, h⟩ := bind_eq_ok.mp h
  cases h
  rfl

theorem IdentityRow.userId_of_into {row : IdentityRow} {identity : Identity}
    (h : row.into = .ok identity) : identity.userId.asStr = row.userId := by
  obtain ⟨_, -, h⟩ := bind_eq_ok.mp h
  cases h
  rfl

theorem OrgRow.id_of_into {row : OrgRow} {org : Organization} (h : row.into = .ok org) :
    org.id.asStr = row.id := by
  obtain ⟨_, -, h⟩ := bind_eq_ok.mp h
  obtain ⟨_, -, h⟩ := bind_eq_ok.mp h
  cases h
  rfl

/-- Zero is read as zero. -/
theorem OrgRow.personal_of_into {row : OrgRow} {org : Organization} (h : row.into = .ok org)
    (hpersonal : org.personal = true) : row.personal ≠ 0 := by
  obtain ⟨flag, hflag, h⟩ := bind_eq_ok.mp h
  obtain ⟨_, -, h⟩ := bind_eq_ok.mp h
  cases h
  intro hzero
  rw [hzero] at hflag
  obtain rfl := Except.ok.inj hflag
  have hset : Int64.ofInt 0 ≠ 0 := of_decide_eq_true hpersonal
  exact hset rfl

theorem DatabaseRow.id_of_into {row : DatabaseRow} {db : Domain.Database}
    (h : row.into = .ok db) : db.id.asStr = row.id := by
  obtain ⟨_, -, h⟩ := bind_eq_ok.mp h
  cases h
  rfl

theorem DatabaseRow.orgId_of_into {row : DatabaseRow} {db : Domain.Database}
    (h : row.into = .ok db) : db.orgId.asStr = row.orgId := by
  obtain ⟨_, -, h⟩ := bind_eq_ok.mp h
  cases h
  rfl

theorem OAuthStateRow.state_of_into {row : OAuthStateRow} {state : OAuthState}
    (h : row.into = .ok state) : state.state = row.state := by
  obtain ⟨_, -, h⟩ := bind_eq_ok.mp h
  obtain ⟨_, -, h⟩ := bind_eq_ok.mp h
  cases h
  rfl

/-- A state that can be read is the one that was stored. -/
theorem OAuthStateRow.eq_of_into {state state' : OAuthState}
    (h : (OAuthStateRow.mk state.state state.provider (D1Repo.ms state.createdAtMs)
      (D1Repo.ms state.expiresAtMs)).into = .ok state') : state' = state := by
  obtain ⟨created, hcreated, h⟩ := bind_eq_ok.mp h
  obtain ⟨expires, hexpires, h⟩ := bind_eq_ok.mp h
  cases h
  rw [D1Repo.eq_of_asI64_ms hcreated, D1Repo.eq_of_asI64_ms hexpires]

namespace D1Repo

/-! ## Schema -/

def usersTable : Table D1Repo UserRow where
  rows := users
  setRows l d := { d with users := l }
  rows_setRows _ _ := rfl
  uniques := [
    .on "users.id" UserRow.id,
    .on "index 'users_email_lower'" fun r => lower r.email]
  references _ _ := true

def hasUser (d : D1Repo) (id : String) : Bool := d.users.any fun u => u.id = id

def hasOrganization (d : D1Repo) (id : String) : Bool := d.organizations.any fun o => o.id = id

def identitiesTable : Table D1Repo IdentityRow where
  rows := identities
  setRows l d := { d with identities := l }
  rows_setRows _ _ := rfl
  uniques := [
    .on "identities.id" IdentityRow.id,
    .on "identities.provider, identities.provider_user_id" fun r =>
      (r.provider, r.providerUserId)]
  references r d := d.hasUser r.userId

def organizationsTable : Table D1Repo OrgRow where
  rows := organizations
  setRows l d := { d with organizations := l }
  rows_setRows _ _ := rfl
  uniques := [.on "organizations.id" OrgRow.id]
  references r d := r.ownerUserId.all d.hasUser

def orgMembershipsTable : Table D1Repo OrgMembershipRow where
  rows := orgMemberships
  setRows l d := { d with orgMemberships := l }
  rows_setRows _ _ := rfl
  uniques := [.on "org_memberships.user_id, org_memberships.org_id" fun r => (r.userId, r.orgId)]
  references r d := d.hasUser r.userId && d.hasOrganization r.orgId

def databasesTable : Table D1Repo DatabaseRow where
  rows := databases
  setRows l d := { d with databases := l }
  rows_setRows _ _ := rfl
  uniques := [
    .on "databases.id" DatabaseRow.id,
    .on "databases.org_id, databases.name" fun r => (r.orgId, r.name)]
  references r d := d.hasOrganization r.orgId && d.hasUser r.createdBy

def oauthStatesTable : Table D1Repo OAuthStateRow where
  rows := oauthStates
  setRows l d := { d with oauthStates := l }
  rows_setRows _ _ := rfl
  uniques := [.on "oauth_states.state" OAuthStateRow.state]
  references _ _ := true

/-! ## Running statements -/

/-- The text of the error that D1 reports. -/
def d1Text (rule : Sql.Violation) : String := s!"D1_ERROR: {rule.text}: SQLITE_CONSTRAINT"

section

variable [ScanOrder] {α R : Type}

/-- Run a statement whose failure is passed on. -/
def exec (stmt : Stmt D1Repo α) : D1M α :=
  EStateM.adaptExcept (fun rule => d1Err (d1Text rule)) stmt

/-- The first row that `p` holds of, as the caller wants it. -/
def first (t : Table D1Repo R) (p : R → Bool) (into : R → Except StoreError α) :
    D1M (Option α) := do
  let rows ← exec (t.select p)
  match rows.head? with
  | none => return none
  | some row => return some (← ofExcept (into row))

/-- All rows that `p` holds of, as the caller wants them. -/
def all (t : Table D1Repo R) (p : R → Bool) (into : R → Except StoreError α) : D1M (List α) := do
  let rows ← exec (t.select p)
  ofExcept (rows.mapM into)

def runBatch (stmts : List (Stmt D1Repo Unit)) : D1M Unit :=
  EStateM.adaptExcept (fun rule => .backend s!"batch: {d1Text rule}") (Sql.batch stmts)

/-- Run a batch in which a duplicate is the error `onUnique`. -/
def runBatchMappingUnique (stmts : List (Stmt D1Repo Unit)) (onUnique : StoreError) : D1M Unit :=
  EStateM.adaptExcept
    (fun rule =>
      if Common.isUniqueViolation (d1Text rule) then onUnique
      else .backend s!"batch: {d1Text rule}")
    (Sql.batch stmts)

end

/-! ## Users and identities -/

structure SignupRecord where
  email : String
  emailVerified : Bool
  provider : String
  /-- `none` for a password: the new user's id takes its place. -/
  providerUserId : Option String
  secret : Option String
  nowMs : Int64

def SignupRecord.userRow (rec : SignupRecord) (ids : FreshIds) : UserRow where
  id := ids.userId.asStr
  email := rec.email
  emailVerified := if rec.emailVerified then 1 else 0
  createdAtMs := ms rec.nowMs

def SignupRecord.identityRow (rec : SignupRecord) (ids : FreshIds) : IdentityRow where
  id := ids.identityId.asStr
  userId := ids.userId.asStr
  provider := rec.provider
  providerUserId := rec.providerUserId.getD ids.userId.asStr
  secret := rec.secret
  createdAtMs := ms rec.nowMs

def SignupRecord.orgRow (rec : SignupRecord) (ids : FreshIds) : OrgRow where
  id := ids.orgId.asStr
  displayName := Domain.personalOrgName rec.email
  personal := 1
  ownerUserId := some ids.userId.asStr
  createdAtMs := ms rec.nowMs

def SignupRecord.orgMembershipRow (rec : SignupRecord) (ids : FreshIds) : OrgMembershipRow where
  userId := ids.userId.asStr
  orgId := ids.orgId.asStr
  role := Role.admin.asStr
  createdAtMs := ms rec.nowMs

/-- The four rows of a new user. -/
def signupStmts (ids : FreshIds) (rec : SignupRecord) : List (Stmt D1Repo Unit) := [
  usersTable.insert (rec.userRow ids),
  identitiesTable.insert (rec.identityRow ids),
  organizationsTable.insert (rec.orgRow ids),
  orgMembershipsTable.insert (rec.orgMembershipRow ids)]

def signupWithPersonalOrg (ids : FreshIds) (rec : SignupRecord) : D1M User := do
  runBatchMappingUnique (signupStmts ids rec) (.alreadyExists s!"user with email {rec.email}")
  return {
    id := ids.userId
    email := rec.email
    emailVerified := rec.emailVerified
    createdAtMs := rec.nowMs }

section

variable [ScanOrder]

def getUser (id : UserId) : D1M (Option User) :=
  first usersTable (fun r => r.id = id.asStr) UserRow.into

def getUserByEmail (email : String) : D1M (Option User) :=
  first usersTable (fun r => lower r.email = lower email) UserRow.into

def listIdentities (userId : UserId) : D1M (List Identity) :=
  all identitiesTable (fun r => r.userId = userId.asStr) IdentityRow.into

def findIdentity (provider providerUserId : String) : D1M (Option Identity) :=
  first identitiesTable (fun r => r.provider = provider ∧ r.providerUserId = providerUserId)
    IdentityRow.into

def linkIdentity (ids : FreshIds) (userId : UserId) (provider providerUserId : String)
    (secret : Option String) (nowMs : Int64) : D1M Identity := do
  exec <| identitiesTable.insert {
    id := ids.identityId.asStr
    userId := userId.asStr
    provider := provider
    providerUserId := providerUserId
    secret := secret
    createdAtMs := ms nowMs }
  return {
    id := ids.identityId
    userId := userId
    provider := provider
    providerUserId := providerUserId
    secret := secret
    createdAtMs := nowMs }

def updateIdentitySecret (identityId : IdentityId) (newSecret : String) : D1M Unit :=
  exec <| identitiesTable.update (fun r => r.id = identityId.asStr) fun r =>
    { r with secret := some newSecret }

def createPasswordUser (ids : FreshIds) (input : NewPasswordUser) (nowMs : Int64) : D1M User :=
  signupWithPersonalOrg ids {
    email := input.email
    emailVerified := false
    provider := IdentityProvider.PASSWORD
    providerUserId := none
    secret := some input.passwordHash
    nowMs := nowMs }

def createOAuthUser (ids : FreshIds) (input : NewOAuthUser) (nowMs : Int64) : D1M User :=
  signupWithPersonalOrg ids {
    email := input.email
    emailVerified := true
    provider := input.provider
    providerUserId := some input.providerUserId
    secret := none
    nowMs := nowMs }

/-! ## Organizations -/

def getOrganization (id : OrgId) : D1M (Option Organization) :=
  first organizationsTable (fun r => r.id = id.asStr) OrgRow.into

def createOrganization (ids : FreshIds) (displayName : String) (ownerUserId : UserId)
    (nowMs : Int64) : D1M Organization := do
  runBatch [
    organizationsTable.insert {
      id := ids.orgId.asStr
      displayName := displayName
      personal := 0
      ownerUserId := some ownerUserId.asStr
      createdAtMs := ms nowMs },
    orgMembershipsTable.insert {
      userId := ownerUserId.asStr
      orgId := ids.orgId.asStr
      role := Role.admin.asStr
      createdAtMs := ms nowMs }]
  return {
    id := ids.orgId
    displayName := displayName
    personal := false
    ownerUserId := some ownerUserId
    createdAtMs := nowMs }

def listOrganizationsForUser (userId : UserId) : D1M (List OrgWithRole) := do
  let rows ← exec (orgMembershipsTable.join organizationsTable fun m o => m.orgId = o.id)
  let rows := rows.filter fun (m, _) => m.userId = userId.asStr
  let rows := rows.insertionSort fun a b => a.2.id ≤ b.2.id
  let rows ← ofExcept (rows.mapM fun (m, o) => do return (← o.into, m.role))
  ofExcept (rows.mapM fun (org, role) => do return (org, ← parseRole role))

def deleteOrganization (_id : OrgId) : D1M Unit :=
  throw (.backend "delete_organization not yet implemented for D1")

/-! ## Memberships -/

def getOrgMembership (userId : UserId) (orgId : OrgId) : D1M (Option OrgMembership) :=
  first orgMembershipsTable (fun r => r.userId = userId.asStr ∧ r.orgId = orgId.asStr)
    OrgMembershipRow.into

def addOrgMembership (_userId : UserId) (_orgId : OrgId) (_role : Role) (_nowMs : Int64) :
    D1M Unit :=
  throw (.backend "add_org_membership not yet implemented for D1")

def removeOrgMembership (_userId : UserId) (_orgId : OrgId) : D1M Unit :=
  throw (.backend "remove_org_membership not yet implemented for D1")

def listOrgMemberships (_orgId : OrgId) : D1M (List OrgMemberRow) :=
  throw (.backend "list_org_memberships not yet implemented for D1")

/-! ## Databases -/

def createDatabase (ids : FreshIds) (orgId : OrgId) (name : String) (createdBy : UserId)
    (nowMs : Int64) : D1M Domain.Database := do
  EStateM.adaptExcept
    (fun rule =>
      if Common.isUniqueViolation (d1Text rule) then
        .alreadyExists s!"database '{name}' in {orgId.asStr}"
      else .backend (d1Text rule))
    (databasesTable.insert {
      id := ids.databaseId.asStr
      orgId := orgId.asStr
      name := name
      createdBy := createdBy.asStr
      createdAtMs := ms nowMs })
  return {
    id := ids.databaseId
    orgId := orgId
    name := name
    createdBy := createdBy
    createdAtMs := nowMs }

def getDatabase (id : DatabaseId) : D1M (Option Domain.Database) :=
  first databasesTable (fun r => r.id = id.asStr) DatabaseRow.into

def listDatabasesForOrg (orgId : OrgId) : D1M (List Domain.Database) := do
  let rows ← exec (databasesTable.select fun r => r.orgId = orgId.asStr)
  ofExcept ((rows.insertionSort fun a b => a.createdAtMs ≤ b.createdAtMs).mapM DatabaseRow.into)

def deleteDatabase (id : DatabaseId) : D1M Unit := do
  let gone ← exec (databasesTable.delete fun r => r.id = id.asStr)
  if gone.length = 0 then throw (.notFound s!"database {id.asStr}")

/-! ## OAuth states -/

def storeOAuthState (state : OAuthState) : D1M Unit :=
  exec <| oauthStatesTable.insert {
    state := state.state
    provider := state.provider
    createdAtMs := ms state.createdAtMs
    expiresAtMs := ms state.expiresAtMs }

def consumeOAuthState (state : String) (nowMs : Int64) : D1M (Option OAuthState) := do
  let gone ← exec (oauthStatesTable.delete fun r => r.state = state)
  match gone.head? with
  | none => return none
  | some row =>
    let s ← ofExcept row.into
    if s.expiresAtMs < nowMs then return none
    return some s

/-! ## Calls -/

/-- Serve one call. -/
def serve (ids : FreshIds) : RepoCall → D1M RepoReply
  | .getUser id => .optUser <$> getUser id
  | .getUserByEmail email => .optUser <$> getUserByEmail email
  | .listIdentities userId => .identities <$> listIdentities userId
  | .findIdentity provider providerUserId => .optIdentity <$> findIdentity provider providerUserId
  | .linkIdentity userId provider providerUserId secret nowMs =>
    .identity <$> linkIdentity ids userId provider providerUserId secret nowMs
  | .updateIdentitySecret identityId newSecret =>
    (fun _ => .unit) <$> updateIdentitySecret identityId newSecret
  | .createPasswordUser input nowMs => .user <$> createPasswordUser ids input nowMs
  | .createOAuthUser input nowMs => .user <$> createOAuthUser ids input nowMs
  | .getOrganization id => .optOrganization <$> getOrganization id
  | .createOrganization displayName ownerUserId nowMs =>
    .organization <$> createOrganization ids displayName ownerUserId nowMs
  | .listOrganizationsForUser userId => .organizations <$> listOrganizationsForUser userId
  | .deleteOrganization id => (fun _ => .unit) <$> deleteOrganization id
  | .getOrgMembership userId orgId => .optMembership <$> getOrgMembership userId orgId
  | .addOrgMembership userId orgId role nowMs =>
    (fun _ => .unit) <$> addOrgMembership userId orgId role nowMs
  | .removeOrgMembership userId orgId => (fun _ => .unit) <$> removeOrgMembership userId orgId
  | .listOrgMemberships orgId => .members <$> listOrgMemberships orgId
  | .createDatabase orgId name createdBy nowMs =>
    .database <$> createDatabase ids orgId name createdBy nowMs
  | .getDatabase id => .optDatabase <$> getDatabase id
  | .listDatabasesForOrg orgId => .databases <$> listDatabasesForOrg orgId
  | .deleteDatabase id => (fun _ => .unit) <$> deleteDatabase id
  | .storeOAuthState state => (fun _ => .unit) <$> storeOAuthState state
  | .consumeOAuthState state nowMs => .optOAuthState <$> consumeOAuthState state nowMs

end

/-! ## What the operations do -/

/-- The text of a duplicate is recognized. -/
theorem isUniqueViolation_unique (columns : String) :
    Common.isUniqueViolation (d1Text (.unique columns)) = true := by
  have hshort : "UNIQUE constraint".toList <:+: "UNIQUE constraint failed: ".toList := by decide
  have hrule : "UNIQUE constraint failed: ".toList <:+:
      (Sql.Violation.unique columns).text.toList := by
    show _ <:+: (("UNIQUE constraint failed: " : String) ++ columns).toList
    rw [String.toList_append]
    exact (List.prefix_append _ _).isInfix
  have htext : (Sql.Violation.unique columns).text.toList <:+:
      (d1Text (.unique columns)).toList := by
    show _ <:+:
      ("D1_ERROR: " ++ (Sql.Violation.unique columns).text ++ ": SQLITE_CONSTRAINT").toList
    rw [String.toList_append, String.toList_append]
    exact ⟨_, _, rfl⟩
  rw [Common.isUniqueViolation, Text.contains, decide_eq_true_eq]
  exact hshort.trans (hrule.trans htext)

section

variable [ScanOrder] {α R : Type} (d : D1Repo)

theorem run_first (t : Table D1Repo R) (p : R → Bool) (into : R → Except StoreError α) :
    (first t p into).run d = match (ScanOrder.scan (t.rows d)).find? p with
      | none => .ok none d
      | some row => match into row with
        | .ok a => .ok (some a) d
        | .error e => .error e d := by
  have hselect : (exec (t.select p)).run d = .ok ((ScanOrder.scan (t.rows d)).filter p) d := rfl
  simp only [first, EStateM.run_bind, hselect, List.head?_filter]
  cases (ScanOrder.scan (t.rows d)).find? p with
  | none => rfl
  | some row => cases hinto : into row <;> simp [hinto] <;> rfl

theorem run_all (t : Table D1Repo R) (p : R → Bool) (into : R → Except StoreError α) :
    (all t p into).run d = match ((ScanOrder.scan (t.rows d)).filter p).mapM into with
      | .ok l => .ok l d
      | .error e => .error e d := by
  have hselect : (exec (t.select p)).run d = .ok ((ScanOrder.scan (t.rows d)).filter p) d := rfl
  simp only [all, EStateM.run_bind, hselect]
  cases ((ScanOrder.scan (t.rows d)).filter p).mapM into <;> rfl

omit [ScanOrder] in
theorem run_exec_insert (t : Table D1Repo R) (row : R) :
    (exec (t.insert row)).run d = match t.violation row d with
      | some rule => .error (d1Err (d1Text rule)) d
      | none => .ok () (t.add row d) := by
  rw [exec, Effect.run_adaptExcept, t.run_insert]
  cases t.violation row d <;> rfl

omit [ScanOrder] in
theorem run_exec_insert_new {t : Table D1Repo R} {row : R} (h : t.violation row d = none) :
    (exec (t.insert row)).run d = .ok () (t.add row d) := by
  rw [run_exec_insert, h]

omit [ScanOrder] in
theorem run_runBatch (stmts : List (Stmt D1Repo Unit)) :
    (runBatch stmts).run d = match (forM stmts id : Stmt D1Repo PUnit).run d with
      | .ok a d' => .ok a d'
      | .error rule _ => .error (.backend s!"batch: {d1Text rule}") d := by
  rw [runBatch, Effect.run_adaptExcept, Sql.run_batch]
  cases (forM stmts id : Stmt D1Repo PUnit).run d <;> rfl

end

section

variable [ScanOrder] (d : D1Repo)

omit [ScanOrder] in
theorem run_createDatabase (ids : FreshIds) (orgId : OrgId) (name : String) (createdBy : UserId)
    (nowMs : Int64) :
    (createDatabase ids orgId name createdBy nowMs).run d =
      match databasesTable.violation
          ⟨ids.databaseId.asStr, orgId.asStr, name, createdBy.asStr, ms nowMs⟩ d with
      | some rule =>
        .error
          (if Common.isUniqueViolation (d1Text rule) then
            .alreadyExists s!"database '{name}' in {orgId.asStr}"
          else .backend (d1Text rule)) d
      | none => .ok ⟨ids.databaseId, orgId, name, createdBy, nowMs⟩
          (databasesTable.add
            ⟨ids.databaseId.asStr, orgId.asStr, name, createdBy.asStr, ms nowMs⟩ d) := by
  rw [createDatabase, EStateM.run_bind, Effect.run_adaptExcept, Table.run_insert]
  cases databasesTable.violation
    ⟨ids.databaseId.asStr, orgId.asStr, name, createdBy.asStr, ms nowMs⟩ d <;> rfl

/-- The rows of a database are gone. -/
def withoutDatabase (id : DatabaseId) : D1Repo :=
  { d with databases := d.databases.filter fun r => !decide (r.id = id.asStr) }

theorem run_deleteDatabase (id : DatabaseId) :
    (deleteDatabase id).run d =
      if ∃ r ∈ d.databases, r.id = id.asStr then .ok () (d.withoutDatabase id)
      else .error (.notFound s!"database {id.asStr}") d := by
  have hdelete : (exec (databasesTable.delete fun r => r.id = id.asStr)).run d =
      .ok ((ScanOrder.scan d.databases).filter fun r => r.id = id.asStr)
        (d.withoutDatabase id) := rfl
  have hgone : ((ScanOrder.scan d.databases).filter fun r => r.id = id.asStr).length = 0 ↔
      ¬ ∃ r ∈ d.databases, r.id = id.asStr := by
    rw [((ScanOrder.scan_perm d.databases).filter _).length_eq]
    simp
  rw [deleteDatabase, EStateM.run_bind, hdelete]
  dsimp only
  by_cases hrow : ∃ r ∈ d.databases, r.id = id.asStr
  · rw [if_neg (fun h => hgone.mp h hrow), if_pos hrow]
    rfl
  · have hsame : d.withoutDatabase id = d := by
      rw [withoutDatabase, List.filter_eq_self.mpr]
      exact fun r hr => by simpa using fun hid => hrow ⟨r, hr, hid⟩
    rw [if_pos (hgone.mpr hrow), if_neg hrow, hsame]
    rfl

def withoutOAuthState (state : String) : D1Repo :=
  { d with oauthStates := d.oauthStates.filter fun r => !decide (r.state = state) }

theorem run_consumeOAuthState (state : String) (nowMs : Int64) :
    (consumeOAuthState state nowMs).run d =
      match (ScanOrder.scan d.oauthStates).find? fun r => r.state = state with
      | none => .ok none (d.withoutOAuthState state)
      | some row => match row.into with
        | .error e => .error e (d.withoutOAuthState state)
        | .ok s =>
          .ok (if s.expiresAtMs < nowMs then none else some s) (d.withoutOAuthState state) := by
  have hdelete : (exec (oauthStatesTable.delete fun r => r.state = state)).run d =
      .ok ((ScanOrder.scan d.oauthStates).filter fun r => r.state = state)
        (d.withoutOAuthState state) := rfl
  rw [consumeOAuthState, EStateM.run_bind, hdelete]
  dsimp only
  rw [List.head?_filter]
  cases (ScanOrder.scan d.oauthStates).find? fun r => r.state = state with
  | none => rfl
  | some row =>
    dsimp only
    rw [Effect.run_ofExcept_bind]
    cases row.into with
    | error e => rfl
    | ok s =>
      dsimp only
      split <;> rfl

end

section

variable (ids : FreshIds) (rec : SignupRecord) (d : D1Repo)

/-- The database after each of the four rows of a new user. -/
def signedUpUser : D1Repo := usersTable.add (rec.userRow ids) d

def signedUpIdentity : D1Repo := identitiesTable.add (rec.identityRow ids) (signedUpUser ids rec d)

def signedUpOrg : D1Repo := organizationsTable.add (rec.orgRow ids) (signedUpIdentity ids rec d)

def signedUp : D1Repo :=
  orgMembershipsTable.add (rec.orgMembershipRow ids) (signedUpOrg ids rec d)

/-- The rule that a signup would break. -/
def signupViolation : Option Sql.Violation :=
  (usersTable.violation (rec.userRow ids) d).or <|
    (identitiesTable.violation (rec.identityRow ids) (signedUpUser ids rec d)).or <|
    (organizationsTable.violation (rec.orgRow ids) (signedUpIdentity ids rec d)).or <|
    orgMembershipsTable.violation (rec.orgMembershipRow ids) (signedUpOrg ids rec d)

theorem run_signupStmts :
    (Sql.batch (signupStmts ids rec)).run d = match signupViolation ids rec d with
      | some rule => .error rule d
      | none => .ok () (signedUp ids rec d) := by
  rw [Sql.run_batch, signupStmts, Sql.run_insert_cons, Sql.run_insert_cons, Sql.run_insert_cons,
    Sql.run_insert_cons, signupViolation, signedUp, signedUpOrg, signedUpIdentity, signedUpUser]
  cases usersTable.violation (rec.userRow ids) d with
  | some rule => rfl
  | none =>
    cases identitiesTable.violation (rec.identityRow ids) _ with
    | some rule => rfl
    | none =>
      cases organizationsTable.violation (rec.orgRow ids) _ with
      | some rule => rfl
      | none =>
        cases orgMembershipsTable.violation (rec.orgMembershipRow ids) _ <;> rfl

/-- A signup adds its four rows, or none of them. -/
theorem run_signup :
    (signupWithPersonalOrg ids rec).run d = match signupViolation ids rec d with
      | some rule =>
        .error
          (if Common.isUniqueViolation (d1Text rule) then
            .alreadyExists s!"user with email {rec.email}"
          else .backend s!"batch: {d1Text rule}") d
      | none => .ok ⟨ids.userId, rec.email, rec.emailVerified, rec.nowMs⟩ (signedUp ids rec d) := by
  rw [signupWithPersonalOrg, EStateM.run_bind, runBatchMappingUnique, Effect.run_adaptExcept,
    run_signupStmts]
  cases signupViolation ids rec d <;> rfl

end

end D1Repo

end EdgeReplica
