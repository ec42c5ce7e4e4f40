-- SUMMARY: The trait `Repo`: its calls, their replies, and how the in-memory repository serves them.
import EdgeReplica.Lib.Machine
import EdgeReplica.Repo.InMemory

/-!
# Calls of the repository

The operations that the trait `Repo` offers, so that a run of a repository is a list
of calls whatever its implementation. With each call come the identifiers that are
generated while it is served.
-/

namespace EdgeReplica

open Text (Lowercase)
open Domain (User Identity Organization OrgMembership OAuthState)

inductive RepoCall where
  | getUser (id : UserId)
  | getUserByEmail (email : String)
  | listIdentities (userId : UserId)
  | findIdentity (provider providerUserId : String)
  | linkIdentity (userId : UserId) (provider providerUserId : String) (secret : Option String)
      (nowMs : Int64)
  | updateIdentitySecret (identityId : IdentityId) (newSecret : String)
  | createPasswordUser (input : NewPasswordUser) (nowMs : Int64)
  | createOAuthUser (input : NewOAuthUser) (nowMs : Int64)
  | getOrganization (id : OrgId)
  | createOrganization (displayName : String) (ownerUserId : UserId) (nowMs : Int64)
  | listOrganizationsForUser (userId : UserId)
  | deleteOrganization (id : OrgId)
  | getOrgMembership (userId : UserId) (orgId : OrgId)
  | addOrgMembership (userId : UserId) (orgId : OrgId) (role : Role) (nowMs : Int64)
  | removeOrgMembership (userId : UserId) (orgId : OrgId)
  | listOrgMemberships (orgId : OrgId)
  | createDatabase (orgId : OrgId) (name : String) (createdBy : UserId) (nowMs : Int64)
  | getDatabase (id : DatabaseId)
  | listDatabasesForOrg (orgId : OrgId)
  | deleteDatabase (id : DatabaseId)
  | storeOAuthState (state : OAuthState)
  | consumeOAuthState (state : String) (nowMs : Int64)

/-- What a call returns. -/
inductive RepoReply where
  | unit
  | user (user : User)
  | optUser (user : Option User)
  | identity (identity : Identity)
  | optIdentity (identity : Option Identity)
  | identities (identities : List Identity)
  | organization (org : Organization)
  | optOrganization (org : Option Organization)
  | organizations (orgs : List OrgWithRole)
  | optMembership (membership : Option OrgMembership)
  | members (members : List OrgMemberRow)
  | database (db : Domain.Database)
  | optDatabase (db : Option Domain.Database)
  | databases (dbs : List Domain.Database)
  | optOAuthState (state : Option OAuthState)
deriving DecidableEq

namespace InMemoryRepo

/-- Serve one call. -/
def serve [HashOrder] [Lowercase] (ids : FreshIds) : RepoCall → RepoM RepoReply
  | .getUser id => .optUser <$> getUser id
  | .getUserByEmail email => .optUser <$> getUserByEmail email
  | .listIdentities userId => .identities <$> listIdentities userId
  | .findIdentity provider providerUserId => .optIdentity <$> findIdentity provider providerUserId
  | .linkIdentity userId provider providerUserId secret nowMs =>
    .identity <$> linkIdentity ids userId provider providerUserId secret nowMs
  | .updateIdentitySecret identityId newSecret =>
    (fun _ => .unit) <$> updateIdentitySecret identityId newSecret
  | .createPasswordUser input nowMs => .user <$> createPasswordUser ids input nowMs
  | .createOAuthUser input nowMs => .user <$> createOAuthUser ids input nowMs
  | .getOrganization id => .optOrganization <$> getOrganization id
  | .createOrganization displayName ownerUserId nowMs =>
    .organization <$> createOrganization ids displayName ownerUserId nowMs
  | .listOrganizationsForUser userId => .organizations <$> listOrganizationsForUser userId
  | .deleteOrganization id => (fun _ => .unit) <$> deleteOrganization id
  | .getOrgMembership userId orgId => .optMembership <$> getOrgMembership userId orgId
  | .addOrgMembership userId orgId role nowMs =>
    (fun _ => .unit) <$> addOrgMembership userId orgId role nowMs
  | .removeOrgMembership userId orgId => (fun _ => .unit) <$> removeOrgMembership userId orgId
  | .listOrgMemberships orgId => .members <$> listOrgMemberships orgId
  | .createDatabase orgId name createdBy nowMs =>
    .database <$> createDatabase ids orgId name createdBy nowMs
  | .getDatabase id => .optDatabase <$> getDatabase id
  | .listDatabasesForOrg orgId => .databases <$> listDatabasesForOrg orgId
  | .deleteDatabase id => (fun _ => .unit) <$> deleteDatabase id
  | .storeOAuthState state => (fun _ => .unit) <$> storeOAuthState state
  | .consumeOAuthState state nowMs => .optOAuthState <$> consumeOAuthState state nowMs

end InMemoryRepo

end EdgeReplica
