-- SUMMARY: The records that the repository stores.
import EdgeReplica.Domain.Enums
import EdgeReplica.Domain.Ids

/-!
# Entities

The shapes of the stored rows. Times are milliseconds since the Unix epoch.
-/

namespace EdgeReplica.Domain

structure User where
  id : UserId
  email : String
  emailVerified : Bool
  createdAtMs : Int64
deriving DecidableEq

structure Identity where
  id : IdentityId
  userId : UserId
  /-- One of `password`, `github`, `google`. -/
  provider : String
  /-- The user id for `password`; else the id that the provider issued. -/
  providerUserId : String
  secret : Option String
  createdAtMs : Int64
deriving DecidableEq

structure Organization where
  id : OrgId
  displayName : String
  /-- The organization that was created with its user. -/
  personal : Bool
  ownerUserId : Option UserId
  createdAtMs : Int64
deriving DecidableEq

structure OrgMembership where
  userId : UserId
  orgId : OrgId
  role : Role
  createdAtMs : Int64
deriving DecidableEq

structure Database where
  id : DatabaseId
  orgId : OrgId
  name : String
  createdBy : UserId
  createdAtMs : Int64
deriving DecidableEq

/-- The state of an OAuth round trip that is under way. -/
structure OAuthState where
  state : String
  provider : String
  createdAtMs : Int64
  expiresAtMs : Int64
deriving DecidableEq

def personalOrgName (email : String) : String := s!"{email} (personal)"

end EdgeReplica.Domain
