-- SUMMARY: The in-memory repository: its tables, its operations, and what each operation does to the tables.
import Mathlib.Order.Defs.LinearOrder
import EdgeReplica.Domain.Entities
import EdgeReplica.Error
import EdgeReplica.Lib.Effect
import EdgeReplica.Lib.HashMap
import EdgeReplica.Lib.Sorted
import EdgeReplica.Lib.Text

/-!
# The in-memory repository

One map a table, under one lock. An operation that creates rows takes the
identifiers that were generated for them as an argument.
-/

namespace EdgeReplica

open Text (Lowercase)
open Domain (User Identity Organization OrgMembership OAuthState)

structure InMemoryRepo where
  users : HashMap UserId User
  identities : HashMap IdentityId Identity
  organizations : HashMap OrgId Organization
  orgMemberships : HashMap (UserId × OrgId) OrgMembership
  databases : HashMap DatabaseId Domain.Database
  oauthStates : HashMap String OAuthState

/-- The identifiers that are generated while a request is served. -/
structure FreshIds where
  userId : UserId
  identityId : IdentityId
  orgId : OrgId
  databaseId : DatabaseId
deriving DecidableEq

structure NewPasswordUser where
  email : String
  passwordHash : String

structure NewOAuthUser where
  email : String
  /-- `github` or `google`. -/
  provider : String
  /-- The user id that the provider issued. -/
  providerUserId : String

/-- What is stored of a new user; the identity may carry the user's own id. -/
structure NewUser where
  email : String
  emailVerified : Bool
  provider : String
  providerUserId : UserId → String
  secret : Option String

abbrev OrgWithRole := Organization × Role

abbrev OrgMemberRow := OrgMembership × User

abbrev RepoM := StoreM InMemoryRepo

namespace InMemoryRepo

def new : InMemoryRepo := ⟨∅, ∅, ∅, ∅, ∅, ∅⟩

/-! ## Users and identities -/

def getUser (id : UserId) : RepoM (Option User) := do
  let g ← get
  return g.users.lookup id

def findUserByEmail [HashOrder] [Lowercase] (g : InMemoryRepo) (email : String) : Option User :=
  let needle := Lowercase.toLowercase email
  (HashMap.values g.users).find? fun u => Lowercase.toLowercase u.email = needle

def getUserByEmail [HashOrder] [Lowercase] (email : String) : RepoM (Option User) := do
  let g ← get
  return g.findUserByEmail email

def listIdentities [HashOrder] (userId : UserId) : RepoM (List Identity) := do
  let g ← get
  return (HashMap.values g.identities).filter fun i => i.userId = userId

/-- The identity that a provider issued under this id, if it is linked. -/
def identityOf [HashOrder] (g : InMemoryRepo) (provider providerUserId : String) :
    Option Identity :=
  (HashMap.values g.identities).find? fun i =>
    i.provider = provider ∧ i.providerUserId = providerUserId

def findIdentity [HashOrder] (provider providerUserId : String) : RepoM (Option Identity) := do
  let g ← get
  return g.identityOf provider providerUserId

def linkIdentity [HashOrder] (ids : FreshIds) (userId : UserId) (provider providerUserId : String)
    (secret : Option String) (nowMs : Int64) : RepoM Identity := do
  let g ← get
  match g.identityOf provider providerUserId with
  | some existing =>
    if existing.userId ≠ userId then
      throw (.conflict s!"identity {provider}:{providerUserId} belongs to another user")
    return existing
  | none =>
    let identity : Identity := {
      id := ids.identityId
      userId := userId
      provider := provider
      providerUserId := providerUserId
      secret := secret
      createdAtMs := nowMs }
    modify fun g => { g with identities := g.identities.insert ids.identityId identity }
    return identity

def updateIdentitySecret (identityId : IdentityId) (newSecret : String) : RepoM Unit := do
  let g ← get
  match g.identities.lookup identityId with
  | none => throw (.notFound s!"identity {identityId.asStr}")
  | some identity =>
    modify fun g =>
      { g with
        identities := g.identities.insert identityId { identity with secret := some newSecret } }

def insertPersonalOrgUnderLock (g : InMemoryRepo) (orgId : OrgId) (userId : UserId) (email : String)
    (nowMs : Int64) : InMemoryRepo :=
  { g with
    organizations := g.organizations.insert orgId {
      id := orgId
      displayName := Domain.personalOrgName email
      personal := true
      ownerUserId := some userId
      createdAtMs := nowMs }
    orgMemberships := g.orgMemberships.insert (userId, orgId) {
      userId := userId
      orgId := orgId
      role := .admin
      createdAtMs := nowMs } }

/-- The rows of a new user: the user, the identity, and the personal organization
with the user as its admin. -/
def insertUser (g : InMemoryRepo) (ids : FreshIds) (input : NewUser) (nowMs : Int64) :
    InMemoryRepo :=
  insertPersonalOrgUnderLock
    { g with
      users := g.users.insert ids.userId {
        id := ids.userId
        email := input.email
        emailVerified := input.emailVerified
        createdAtMs := nowMs }
      identities := g.identities.insert ids.identityId {
        id := ids.identityId
        userId := ids.userId
        provider := input.provider
        providerUserId := input.providerUserId ids.userId
        secret := input.secret
        createdAtMs := nowMs } }
    ids.orgId ids.userId input.email nowMs

/-- What the creation of a user is, for either kind of identity. -/
def createUser [HashOrder] [Lowercase] (ids : FreshIds) (input : NewUser) (nowMs : Int64) :
    RepoM User := do
  let g ← get
  if (g.findUserByEmail input.email).isSome then
    throw (.alreadyExists s!"user with email {input.email}")
  modify fun g => g.insertUser ids input nowMs
  return {
    id := ids.userId
    email := input.email
    emailVerified := input.emailVerified
    createdAtMs := nowMs }

def createPasswordUser [HashOrder] [Lowercase] (ids : FreshIds) (input : NewPasswordUser)
    (nowMs : Int64) : RepoM User :=
  createUser ids {
    email := input.email
    emailVerified := false
    provider := IdentityProvider.PASSWORD
    providerUserId := fun userId => userId.asStr
    secret := some input.passwordHash } nowMs

def createOAuthUser [HashOrder] [Lowercase] (ids : FreshIds) (input : NewOAuthUser)
    (nowMs : Int64) : RepoM User :=
  createUser ids {
    email := input.email
    emailVerified := true
    provider := input.provider
    providerUserId := fun _ => input.providerUserId
    secret := none } nowMs

/-! ## Organizations -/

def getOrganization (id : OrgId) : RepoM (Option Organization) := do
  let g ← get
  return g.organizations.lookup id

def createOrganization (ids : FreshIds) (displayName : String) (ownerUserId : UserId)
    (nowMs : Int64) : RepoM Organization := do
  let g ← get
  if ownerUserId ∉ g.users then
    throw (.notFound s!"user {ownerUserId.asStr}")
  let org : Organization := {
    id := ids.orgId
    displayName := displayName
    personal := false
    ownerUserId := some ownerUserId
    createdAtMs := nowMs }
  modify fun g =>
    { g with
      organizations := g.organizations.insert ids.orgId org
      orgMemberships := g.orgMemberships.insert (ownerUserId, ids.orgId) {
        userId := ownerUserId
        orgId := ids.orgId
        role := .admin
        createdAtMs := nowMs } }
  return org

def listOrganizationsForUser [HashOrder] (userId : UserId) : RepoM (List OrgWithRole) := do
  let g ← get
  let rows := (HashMap.rows g.orgMemberships).filter fun ((u, _), _) => u = userId
  let out := rows.filterMap fun ((_, orgId), m) =>
    (g.organizations.lookup orgId).map fun org => (org, m.role)
  return out.insertionSort fun a b => a.1.id.asStr ≤ b.1.id.asStr

def deleteOrganization [HashOrder] (id : OrgId) : RepoM Unit := do
  let g ← get
  match g.organizations.lookup id with
  | none => throw (.notFound s!"organization {id.asStr}")
  | some org =>
    if org.personal then
      throw (.conflict "personal organizations are deleted with the user")
    if (HashMap.values g.databases).any fun d => d.orgId = id then
      throw (.conflict "cannot delete organization: databases still attached")
    modify fun g =>
      { g with
        organizations := g.organizations.erase id
        orgMemberships := HashMap.retain (fun key _ => key.2 ≠ id) g.orgMemberships }

/-! ## Memberships -/

def getOrgMembership (userId : UserId) (orgId : OrgId) : RepoM (Option OrgMembership) := do
  let g ← get
  return g.orgMemberships.lookup (userId, orgId)

def addOrgMembership (userId : UserId) (orgId : OrgId) (role : Role) (nowMs : Int64) :
    RepoM Unit := do
  let g ← get
  if (userId, orgId) ∈ g.orgMemberships then
    throw (.alreadyExists s!"org membership {userId.asStr} -> {orgId.asStr}")
  modify fun g =>
    { g with
      orgMemberships := g.orgMemberships.insert (userId, orgId) {
        userId := userId
        orgId := orgId
        role := role
        createdAtMs := nowMs } }

/-- The memberships of the admins of an organization. -/
def admins [HashOrder] (g : InMemoryRepo) (orgId : OrgId) : List OrgMembership :=
  (HashMap.values g.orgMemberships).filter fun m => m.orgId = orgId ∧ m.role = .admin

def removeOrgMembership [HashOrder] (userId : UserId) (orgId : OrgId) : RepoM Unit := do
  let g ← get
  match g.orgMemberships.lookup (userId, orgId) with
  | none => throw (.notFound "org membership")
  | some existing =>
    if existing.role = .admin ∧ (g.admins orgId).length ≤ 1 then
      throw (.conflict "cannot remove the last admin of an organization")
    modify fun g => { g with orgMemberships := g.orgMemberships.erase (userId, orgId) }

def listOrgMemberships [HashOrder] (orgId : OrgId) : RepoM (List OrgMemberRow) := do
  let g ← get
  let rows := (HashMap.rows g.orgMemberships).filter fun (_, m) => m.orgId = orgId
  let out := rows.filterMap fun ((userId, _), m) =>
    (g.users.lookup userId).map fun user => (m, user)
  return out.insertionSort fun a b => a.1.userId.asStr ≤ b.1.userId.asStr

/-! ## Databases -/

def createDatabase [HashOrder] (ids : FreshIds) (orgId : OrgId) (name : String)
    (createdBy : UserId) (nowMs : Int64) : RepoM Domain.Database := do
  let g ← get
  if orgId ∉ g.organizations then
    throw (.notFound s!"organization {orgId.asStr}")
  if (HashMap.values g.databases).any fun d => d.orgId = orgId ∧ d.name = name then
    throw (.alreadyExists s!"database '{name}' in {orgId.asStr}")
  let db : Domain.Database := {
    id := ids.databaseId
    orgId := orgId
    name := name
    createdBy := createdBy
    createdAtMs := nowMs }
  modify fun g => { g with databases := g.databases.insert ids.databaseId db }
  return db

def getDatabase (id : DatabaseId) : RepoM (Option Domain.Database) := do
  let g ← get
  return g.databases.lookup id

def listDatabasesForOrg [HashOrder] (orgId : OrgId) : RepoM (List Domain.Database) := do
  let g ← get
  let out := (HashMap.values g.databases).filter fun d => d.orgId = orgId
  return out.insertionSort fun a b => a.createdAtMs ≤ b.createdAtMs

def deleteDatabase (id : DatabaseId) : RepoM Unit := do
  let g ← get
  if id ∉ g.databases then
    throw (.notFound s!"database {id.asStr}")
  modify fun g => { g with databases := g.databases.erase id }

/-! ## OAuth states -/

def storeOAuthState (state : OAuthState) : RepoM Unit :=
  modify fun g => { g with oauthStates := g.oauthStates.insert state.state state }

def consumeOAuthState (state : String) (nowMs : Int64) : RepoM (Option OAuthState) := do
  let g ← get
  match g.oauthStates.lookup state with
  | none => return none
  | some s =>
    modify fun g => { g with oauthStates := g.oauthStates.erase state }
    if s.expiresAtMs < nowMs then
      return none
    return some s

/-! ## What the operations do -/

/-- The new identifiers name no row. -/
def Fresh (ids : FreshIds) (g : InMemoryRepo) : Prop :=
  ids.userId ∉ g.users ∧ ids.identityId ∉ g.identities ∧ ids.orgId ∉ g.organizations ∧
    ids.databaseId ∉ g.databases

instance (ids : FreshIds) (g : InMemoryRepo) : Decidable (Fresh ids g) := by
  unfold Fresh
  infer_instance

/-- A search finds nothing exactly if no user has the email. -/
theorem findUserByEmail_eq_none [HashOrder] [Lowercase] {g : InMemoryRepo} {email : String} :
    g.findUserByEmail email = none ↔ ∀ id, ∀ user ∈ g.users.lookup id,
      Lowercase.toLowercase user.email ≠ Lowercase.toLowercase email := by
  constructor
  · intro hnone id user huser heq
    have hvalue : user ∈ HashMap.values g.users := HashMap.mem_values.mpr ⟨id, huser⟩
    exact List.find?_eq_none.mp hnone user hvalue (decide_eq_true heq)
  · intro hall
    refine List.find?_eq_none.mpr fun user hvalue heq => ?_
    obtain ⟨id, huser⟩ := HashMap.mem_values.mp hvalue
    exact hall id user huser (of_decide_eq_true heq)

/-- A user with a new email is created, or the repository stays as it was. -/
theorem createUser_cases [HashOrder] [Lowercase] (ids : FreshIds) (input : NewUser)
    (nowMs : Int64) (g : InMemoryRepo) :
    (∃ e, (createUser ids input nowMs).run g = .error e g) ∨
      g.findUserByEmail input.email = none ∧ (createUser ids input nowMs).run g =
        .ok ⟨ids.userId, input.email, input.emailVerified, nowMs⟩
          (g.insertUser ids input nowMs) := by
  by_cases hemail : (g.findUserByEmail input.email).isSome
  · left
    exact ⟨.alreadyExists s!"user with email {input.email}", by simp [createUser, hemail]⟩
  · right
    refine ⟨Option.not_isSome_iff_eq_none.mp hemail, ?_⟩
    simp only [createUser, EStateM.run_bind, EStateM.run_get, hemail]
    rfl

/-- The organizations listed for a user are those of the user's memberships. -/
theorem mem_listOrganizationsForUser [HashOrder] {userId : UserId} {g g' : InMemoryRepo}
    {out : List OrgWithRole} {org : Organization} {role : Role}
    (h : (listOrganizationsForUser userId).run g = .ok out g') :
    (org, role) ∈ out ↔ ∃ orgId m, g.orgMemberships.lookup (userId, orgId) = some m ∧
      g.organizations.lookup orgId = some org ∧ m.role = role := by
  obtain ⟨rfl, rfl⟩ := EStateM.Result.ok.inj h
  rw [List.mem_insertionSort, List.mem_filterMap]
  constructor
  · rintro ⟨⟨⟨u, orgId⟩, m⟩, hkept, horg⟩
    obtain ⟨hrow, huser⟩ := List.mem_filter.mp hkept
    obtain rfl : u = userId := by simpa using huser
    obtain ⟨org', hlookup, heq⟩ := Option.map_eq_some_iff.mp horg
    obtain ⟨rfl, rfl⟩ := Prod.mk.inj heq
    exact ⟨orgId, m, HashMap.mem_rows.mp hrow, hlookup, rfl⟩
  · rintro ⟨orgId, m, hm, hlookup, rfl⟩
    refine ⟨((userId, orgId), m), List.mem_filter.mpr ⟨HashMap.mem_rows.mpr hm, by simp⟩, ?_⟩
    exact Option.map_eq_some_iff.mpr ⟨org, hlookup, rfl⟩

/-- They are listed by identifier. -/
theorem listOrganizationsForUser_sorted [HashOrder] {userId : UserId} {g g' : InMemoryRepo}
    {out : List OrgWithRole} (h : (listOrganizationsForUser userId).run g = .ok out g') :
    out.Pairwise fun a b => a.1.id.asStr ≤ b.1.id.asStr := by
  obtain ⟨rfl, rfl⟩ := EStateM.Result.ok.inj h
  exact Sorted.pairwise (fun listed : OrgWithRole => listed.1.id.asStr) (fun _ _ => Iff.rfl) _

/-- A database of an existing organization is created, or the repository stays as it
was. -/
theorem createDatabase_cases [HashOrder] (ids : FreshIds) (orgId : OrgId) (name : String)
    (createdBy : UserId) (nowMs : Int64) (g : InMemoryRepo) :
    (∃ e, (createDatabase ids orgId name createdBy nowMs).run g = .error e g) ∨
      orgId ∈ g.organizations ∧ (createDatabase ids orgId name createdBy nowMs).run g =
        .ok ⟨ids.databaseId, orgId, name, createdBy, nowMs⟩
          { g with
            databases := g.databases.insert ids.databaseId
              ⟨ids.databaseId, orgId, name, createdBy, nowMs⟩ } := by
  by_cases horg : orgId ∈ g.organizations
  · by_cases hname : (HashMap.values g.databases).any fun d => d.orgId = orgId ∧ d.name = name
    · left
      refine ⟨.alreadyExists s!"database '{name}' in {orgId.asStr}", ?_⟩
      simp only [createDatabase, EStateM.run_bind, EStateM.run_get, horg, hname]
      rfl
    · right
      refine ⟨horg, ?_⟩
      simp only [createDatabase, EStateM.run_bind, EStateM.run_get, horg, hname]
      rfl
  · left
    exact ⟨.notFound s!"organization {orgId.asStr}", by simp [createDatabase, horg]⟩

/-- The databases listed for an organization are its own. -/
theorem mem_listDatabasesForOrg [HashOrder] {orgId : OrgId} {g g' : InMemoryRepo}
    {out : List Domain.Database} {db : Domain.Database}
    (h : (listDatabasesForOrg orgId).run g = .ok out g') (hmem : db ∈ out) :
    db.orgId = orgId ∧ ∃ id, g.databases.lookup id = some db := by
  obtain ⟨rfl, rfl⟩ := EStateM.Result.ok.inj h
  obtain ⟨hvalue, horg⟩ := List.mem_filter.mp ((List.mem_insertionSort _).mp hmem)
  exact ⟨by simpa using horg, HashMap.mem_values.mp hvalue⟩

theorem run_deleteDatabase (id : DatabaseId) (g : InMemoryRepo) :
    (deleteDatabase id).run g =
      if id ∈ g.databases then .ok () { g with databases := g.databases.erase id }
      else .error (.notFound s!"database {id.asStr}") g := by
  by_cases h : id ∈ g.databases
  · simp only [deleteDatabase, EStateM.run_bind, EStateM.run_get, h]
    rfl
  · simp [deleteDatabase, h]

end InMemoryRepo

end EdgeReplica
