-- SUMMARY: Passwords: the policy they are checked against, and their hashing and verification.
import EdgeReplica.Lib.Effect
import EdgeReplica.Lib.Text

/-!
# Passwords

Argon2id hashes a password under a random salt; what is stored is the hash in its
textual form, which verification parses again.
-/

namespace EdgeReplica

/-- The hasher, with its fixed parameters, and the textual form of its hashes. -/
class Argon2 where
  PasswordHash : Type
  hashPassword (password salt : String) : Except String PasswordHash
  toString : PasswordHash → String
  /-- `PasswordHash::new`. -/
  parse : String → Except String PasswordHash
  verifyPassword (password : String) (hash : PasswordHash) : Except String Unit

/-- A hasher that keeps the salt and the password apart by a `$`, as readable text. -/
abbrev Argon2.readable : Argon2 where
  PasswordHash := String × String
  hashPassword password salt := .ok (salt, password)
  toString hash := hash.1 ++ "$" ++ hash.2
  parse s := match Text.splitOnce s '$' with
    | some hash => .ok hash
    | none => .error "missing field"
  verifyPassword password hash := if hash.2 = password then .ok () else .error "password"

/-- The hasher accepts the password that was hashed, and no other. -/
def Argon2.Faithful [Argon2] : Prop :=
  ∀ salt password hash, hashPassword password salt = .ok hash →
    ∃ parsed, parse (Argon2.toString hash) = .ok parsed ∧
      ∀ candidate, verifyPassword candidate parsed = .ok () ↔ password = candidate

/-- The readable hasher, if it refuses a salt with a `$`. -/
abbrev Argon2.salted : Argon2 where
  PasswordHash := String × String
  hashPassword password salt :=
    if '$' ∈ salt.toList then .error "salt invalid" else .ok (salt, password)
  toString hash := hash.1 ++ "$" ++ hash.2
  parse s := Effect.okOr (Text.splitOnce s '$') "missing field"
  verifyPassword password hash := if hash.2 = password then .ok () else .error "password"

theorem Argon2.salted_faithful : @Argon2.Faithful .salted := by
  intro salt password hash hhash
  change (if '$' ∈ salt.toList then Except.error "salt invalid" else Except.ok (salt, password)) =
    Except.ok hash at hhash
  split at hhash
  · cases hhash
  · next hsalt =>
    obtain rfl : (salt, password) = hash := Except.ok.inj hhash
    have hsplit : Text.splitOnce (salt ++ "$" ++ password) '$' = some (salt, password) := by
      refine Text.splitOnce_append ?_ hsalt
      simp
    refine ⟨(salt, password), ?_, fun candidate => ?_⟩
    · show Effect.okOr (Text.splitOnce (salt ++ "$" ++ password) '$') _ = _
      rw [hsplit]
      rfl
    · show (if password = candidate then Except.ok () else .error "password") = .ok () ↔ _
      split <;> simp_all

inductive PasswordError where
  | tooShort (length : Nat)
  | pwned
  | hashFailed (message : String)
  | invalidHash (message : String)
  | mismatch
  | policyError (message : String)
deriving DecidableEq, Repr

namespace Password

def MIN_PASSWORD_LEN : Nat := 8

end Password

def PasswordError.toString : PasswordError → String
  | .tooShort length => s!"password too short ({length} chars, need {Password.MIN_PASSWORD_LEN})"
  | .pwned => "password appears in known-breached corpus"
  | .hashFailed message => s!"hash failed: {message}"
  | .invalidHash message => s!"invalid stored hash: {message}"
  | .mismatch => "password mismatch"
  | .policyError message => s!"policy: {message}"

namespace Password

variable [Argon2]

/-- Check and hash a new password, under a salt drawn for it. -/
def hashNewPassword (salt password : String) : Except PasswordError String := do
  if password.length < MIN_PASSWORD_LEN then
    throw (.tooShort password.length)
  let hash ← (Argon2.hashPassword password salt).mapError .hashFailed
  return Argon2.toString hash

def verifyPassword (stored password : String) : Except PasswordError Unit := do
  let parsed ← (Argon2.parse stored).mapError .invalidHash
  (Argon2.verifyPassword password parsed).mapError fun _ => .mismatch

theorem verifyPassword_eq_ok (hargon : Argon2.Faithful) {salt password stored : String}
    (h : hashNewPassword salt password = .ok stored) {candidate : String} :
    verifyPassword stored candidate = .ok () ↔ password = candidate := by
  unfold hashNewPassword at h
  split at h
  · cases h
  · obtain ⟨hash, hhash, hstored⟩ := Effect.bind_eq_ok.mp h
    obtain rfl : Argon2.toString hash = stored := Except.ok.inj hstored
    obtain ⟨parsed, hparsed, haccepts⟩ := hargon salt password hash (Effect.mapError_eq_ok.mp hhash)
    rw [verifyPassword, hparsed]
    exact Effect.mapError_eq_ok.trans (haccepts candidate)

end Password

end EdgeReplica
