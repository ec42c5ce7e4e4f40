-- SUMMARY: Enumerated domain values and their string constants: roles, sync directions, identity providers, token purposes.
import Mathlib.Data.List.Basic

/-!
# Domain enumerations

Each value is encoded as a string constant on the wire and parsed into the typed
enum where a request enters the service.
-/

namespace EdgeReplica

inductive Role where
  | admin
  | member
deriving DecidableEq, Repr

namespace Role

def asStr : Role → String
  | .admin => "admin"
  | .member => "member"

def fromStr (s : String) : Except String Role :=
  if s = "admin" then .ok .admin
  else if s = "member" then .ok .member
  else .error s!"unknown role: {s}"

@[simp] theorem fromStr_asStr (r : Role) : fromStr r.asStr = .ok r := by
  cases r <;> decide

end Role

/-- Sync direction, carried in the signed claims of a sync token. -/
inductive Direction where
  | push
  | pull
deriving DecidableEq, Repr

namespace Direction

def asStr : Direction → String
  | .push => "push"
  | .pull => "pull"

def fromStr (s : String) : Except String Direction :=
  if s = "push" then .ok .push
  else if s = "pull" then .ok .pull
  else .error s!"unknown direction: {s}"

@[simp] theorem fromStr_asStr (d : Direction) : fromStr d.asStr = .ok d := by
  cases d <;> decide

end Direction

/-- The `purpose` claims a token is minted with. -/
inductive TokenPurpose where
  | session
  | sync
deriving DecidableEq, Repr

namespace TokenPurpose

def asStr : TokenPurpose → String
  | .session => "session"
  | .sync => "sync"

theorem asStr_inj {a b : TokenPurpose} : a.asStr = b.asStr ↔ a = b := by
  cases a <;> cases b <;> decide

end TokenPurpose

inductive IdentityProvider where
  | password
  | gitHub
  | google
deriving DecidableEq, Repr

namespace IdentityProvider

def PASSWORD : String := "password"
def GITHUB : String := "github"
def GOOGLE : String := "google"

def asStr : IdentityProvider → String
  | .password => PASSWORD
  | .gitHub => GITHUB
  | .google => GOOGLE

def fromStr (s : String) : Except String IdentityProvider :=
  if s = PASSWORD then .ok .password
  else if s = GITHUB then .ok .gitHub
  else if s = GOOGLE then .ok .google
  else .error s!"unknown identity provider: {s}"

@[simp] theorem fromStr_asStr (p : IdentityProvider) : fromStr p.asStr = .ok p := by
  cases p <;> decide

end IdentityProvider

end EdgeReplica
