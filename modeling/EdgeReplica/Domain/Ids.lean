-- SUMMARY: Typed identifiers: a string each, kept apart by their types.
import Mathlib.Data.List.Basic

/-!
# Identifiers

Each is a wrapper of the string that travels in messages and tokens, so that one
cannot be passed where another is expected. A generated identifier is a prefix and
a random UUID.
-/

namespace EdgeReplica

@[ext] structure UserId where
  asStr : String
deriving DecidableEq, Repr

@[ext] structure IdentityId where
  asStr : String
deriving DecidableEq, Repr

@[ext] structure OrgId where
  asStr : String
deriving DecidableEq, Repr

@[ext] structure DatabaseId where
  asStr : String
deriving DecidableEq, Repr

end EdgeReplica
