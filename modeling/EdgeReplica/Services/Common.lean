-- SUMMARY: What the handlers share: the errors they answer with, the mapping of inner errors to them, and the checks of names.
import EdgeReplica.Auth.Password
import EdgeReplica.Error
import EdgeReplica.Lib.Text

/-!
# Common helpers of the handlers
-/

namespace EdgeReplica

inductive ErrorCode where
  | invalidArgument
  | notFound
  | alreadyExists
  | permissionDenied
  | unauthenticated
  | failedPrecondition
  | unimplemented
  | internal
deriving DecidableEq, Repr

structure ConnectError where
  code : ErrorCode
  message : String
deriving DecidableEq, Repr

namespace Common

def mapStoreError : StoreError → ConnectError
  | .notFound s => ⟨.notFound, s⟩
  | .alreadyExists s => ⟨.alreadyExists, s⟩
  | .conflict s => ⟨.failedPrecondition, s⟩
  | .backend s => ⟨.internal, s⟩

def mapPasswordError (e : PasswordError) : ConnectError :=
  match e with
  | .tooShort _ => ⟨.invalidArgument, e.toString⟩
  | .pwned => ⟨.invalidArgument, "password appears in known-breached corpus; pick another"⟩
  | .mismatch => ⟨.unauthenticated, "password mismatch"⟩
  | .hashFailed _ | .invalidHash _ => ⟨.internal, e.toString⟩
  | .policyError _ => ⟨.invalidArgument, e.toString⟩

/-- The shape of an email: exactly one `@`, with text on both sides. -/
def validateEmail (email : String) : Except ConnectError Unit := do
  let trimmed := Text.trim email
  if trimmed = "" then
    throw ⟨.invalidArgument, "email is required"⟩
  match Text.splitOnce trimmed '@' with
  | none => throw ⟨.invalidArgument, "email must contain '@'"⟩
  | some (localPart, domain) =>
    if localPart = "" ∨ domain = "" then
      throw ⟨.invalidArgument, "malformed email"⟩
    if '@' ∈ domain.toList then
      throw ⟨.invalidArgument, "malformed email"⟩

def isUniqueViolation (err : String) : Bool := Text.contains err "UNIQUE constraint"

/-- The limit counts bytes; past the last check they are characters. -/
def validateDatabaseName (name : String) : Except ConnectError Unit := do
  let trimmed := Text.trim name
  if trimmed = "" then
    throw ⟨.invalidArgument, "database name is required"⟩
  if trimmed.utf8ByteSize > 64 then
    throw ⟨.invalidArgument, "database name too long (max 64 chars)"⟩
  if ¬ trimmed.toList.all fun c => c.isAlphanum || c = '-' || c = '_' then
    throw ⟨.invalidArgument, "database name may only contain ASCII alphanumerics, '-', '_'"⟩

example : validateDatabaseName " main " = .ok () := by decide

example : validateEmail "a@b@c" = .error ⟨.invalidArgument, "malformed email"⟩ := by decide

end Common

end EdgeReplica
