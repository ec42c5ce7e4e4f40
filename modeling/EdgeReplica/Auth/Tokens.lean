-- SUMMARY: Session and sync tokens: how they are minted, and what their verification checks.
import EdgeReplica.Domain.Enums
import EdgeReplica.Domain.Ids
import EdgeReplica.Lib.Decimal
import EdgeReplica.Lib.Effect
import EdgeReplica.Lib.Macaroon
import EdgeReplica.Protocol.TokenClaims

/-!
# Tokens

Every claim of a token is in its signed identifier. The one caveat it is minted
with is its expiry, `exp=<unix>`, which a holder may narrow by appending an earlier
one. Verification rejects every other caveat, takes the earliest expiry, and then
reads the claims.
-/

namespace EdgeReplica

open Effect (okOr bind_eq_ok mapError_eq_ok okOr_eq_ok)

/-! ## Keys and verified contexts -/

structure MacaroonKey where
  bytes : Bytes
  length_eq : bytes.length = 32
deriving DecidableEq

structure Keyring where
  root : MacaroonKey

structure SessionContext where
  user : UserId
  email : String
  org : OrgId
  role : Role
  expUnix : Int64
deriving DecidableEq

structure SyncContext where
  user : UserId
  org : OrgId
  database : DatabaseId
  direction : Direction
  expUnix : Int64
deriving DecidableEq

abbrev Macaroon := Macaroons.Macaroon MacaroonKey Bytes

abbrev Caveat := Macaroons.Caveat Bytes

/-- The text of a token, as `Macaroon::deserialize` reads it. -/
abbrev Token := Except String Macaroon

inductive TokenError where
  | malformed (message : String)
  | expired
  | invalidSignature
  | wrongPurpose (expected : TokenPurpose) (found : String)
  | missingClaim (claim : String)
  | invalidClaim (message : String)
  | unexpectedCaveat (caveat : Caveat)
deriving DecidableEq

def TokenError.ofMacaroonError : Macaroons.Error Bytes → TokenError
  | .invalidSignature => .invalidSignature
  | .caveatNotSatisfied caveat => .unexpectedCaveat caveat

namespace Tokens

def LOCATION : Option String := some "edgereplica"

/-- The bytes of `exp=`. -/
def EXP_PREFIX : Bytes := [101, 120, 112, 61]

example : Protobuf.utf8 "exp=" = EXP_PREFIX := by decide

/-- The predicate of the caveat that a token is minted with. -/
def expCaveat (expUnix : Int64) : Bytes := EXP_PREFIX ++ Decimal.ofInt64 expUnix

/-- The expiry of a well-formed `exp=<i64>`. Digits and signs are ASCII, so bytes
that are not UTF-8 are no number either. -/
def parseExp (caveat : Bytes) : Option Int64 :=
  match EXP_PREFIX.isPrefixOf caveat with
  | true => Decimal.toInt64? (caveat.drop EXP_PREFIX.length)
  | false => none

def expiry : Caveat → Option Int64
  | .firstParty predicate => parseExp predicate
  | .thirdParty .. => none

/-- The expiries that the caveats give. -/
def expiries (caveats : List Caveat) : List Int64 := caveats.filterMap expiry

variable [TokenClaimsCodec]

def pack (keyring : Keyring) (claims : TokenClaims) (expUnix : Int64) : Macaroon :=
  (Macaroons.Macaroon.create LOCATION keyring.root
    (TokenClaimsCodec.encodeToVec claims)).addFirstPartyCaveat (expCaveat expUnix)

def unpack (keyring : Keyring) (nowUnix : Int64) (token : Token) :
    Except TokenError (TokenClaims × Int64) := do
  let macaroon ← token.mapError .malformed
  (macaroon.verify (fun c => (parseExp c).isSome) keyring.root).mapError .ofMacaroonError
  let expUnix ← okOr (expiries macaroon.caveats).min? (.missingClaim "exp")
  if expUnix ≤ nowUnix then
    throw .expired
  let claims ← (TokenClaimsCodec.decodeFromSlice macaroon.identifier).mapError fun e =>
    .malformed s!"claims decode: {e}"
  return (claims, expUnix)

def checkPurpose (claims : TokenClaims) (expected : TokenPurpose) : Except TokenError Unit :=
  if claims.purpose ≠ expected.asStr then .error (.wrongPurpose expected claims.purpose)
  else .ok ()

def require (value claim : String) : Except TokenError String :=
  if value = "" then .error (.missingClaim claim) else .ok value

/-! ## Session tokens -/

structure MintSessionInput where
  userId : UserId
  email : String
  org : OrgId
  role : Role
  nowUnix : Int64
  ttlSeconds : Int64

/-- The expiry a token is minted with. -/
def MintSessionInput.expUnix (input : MintSessionInput) : Int64 := input.nowUnix + input.ttlSeconds

def MintSessionInput.claims (input : MintSessionInput) : TokenClaims where
  purpose := TokenPurpose.session.asStr
  userId := input.userId.asStr
  orgId := input.org.asStr
  email := input.email
  role := input.role.asStr

def mintSession (keyring : Keyring) (input : MintSessionInput) : Macaroon :=
  pack keyring input.claims input.expUnix

def verifySession (keyring : Keyring) (nowUnix : Int64) (token : Token) :
    Except TokenError SessionContext := do
  let (claims, expUnix) ← unpack keyring nowUnix token
  checkPurpose claims .session
  let role ← (Role.fromStr claims.role).mapError .invalidClaim
  let user ← require claims.userId "user"
  let email ← require claims.email "email"
  let org ← require claims.orgId "org"
  return { user := ⟨user⟩, email, org := ⟨org⟩, role, expUnix }

/-! ## Sync tokens -/

structure MintSyncInput where
  userId : UserId
  org : OrgId
  database : DatabaseId
  direction : Direction
  nowUnix : Int64
  ttlSeconds : Int64

def MintSyncInput.expUnix (input : MintSyncInput) : Int64 := input.nowUnix + input.ttlSeconds

def MintSyncInput.claims (input : MintSyncInput) : TokenClaims where
  purpose := TokenPurpose.sync.asStr
  userId := input.userId.asStr
  orgId := input.org.asStr
  databaseId := input.database.asStr
  direction := input.direction.asStr

def mintSync (keyring : Keyring) (input : MintSyncInput) : Macaroon :=
  pack keyring input.claims input.expUnix

def verifySync (keyring : Keyring) (nowUnix : Int64) (token : Token) :
    Except TokenError SyncContext := do
  let (claims, expUnix) ← unpack keyring nowUnix token
  checkPurpose claims .sync
  let direction ← (Direction.fromStr claims.direction).mapError .invalidClaim
  let user ← require claims.userId "user"
  let org ← require claims.orgId "org"
  let database ← require claims.databaseId "database"
  return { user := ⟨user⟩, org := ⟨org⟩, database := ⟨database⟩, direction, expUnix }

/-! ## What verification accepts -/

omit [TokenClaimsCodec] in
theorem parseExp_expCaveat (expUnix : Int64) : parseExp (expCaveat expUnix) = some expUnix := by
  have hinitial : EXP_PREFIX.isPrefixOf (EXP_PREFIX ++ Decimal.ofInt64 expUnix) = true :=
    List.isPrefixOf_iff_prefix.mpr (List.prefix_append _ _)
  rw [parseExp, expCaveat, hinitial]
  simp only [List.drop_left, Decimal.toInt64?_ofInt64]

/-- The signature is right, every caveat is an expiry, the earliest of them is to
come, and the identifier decodes. -/
structure Accepted (keyring : Keyring) (nowUnix : Int64) (m : Macaroon) (claims : TokenClaims)
    (expUnix : Int64) : Prop where
  verified : m.verify (fun c => (parseExp c).isSome) keyring.root = .ok ()
  earliest : (expiries m.caveats).min? = some expUnix
  valid : nowUnix < expUnix
  decoded : TokenClaimsCodec.decodeFromSlice m.identifier = .ok claims

theorem unpack_eq_ok {keyring : Keyring} {nowUnix : Int64} {token : Token} {claims : TokenClaims}
    {expUnix : Int64} :
    unpack keyring nowUnix token = .ok (claims, expUnix) ↔
      ∃ m, token = .ok m ∧ Accepted keyring nowUnix m claims expUnix := by
  unfold unpack
  simp only [bind_eq_ok, mapError_eq_ok, okOr_eq_ok]
  constructor
  · rintro ⟨m, rfl, _, hverified, e, hearliest, hrest⟩
    split at hrest
    · cases hrest
    · next hvalid =>
      obtain ⟨claims', hdecoded, heq⟩ := bind_eq_ok.mp hrest
      cases heq
      exact ⟨m, rfl, hverified, hearliest, Int64.not_le.mp hvalid, mapError_eq_ok.mp hdecoded⟩
  · rintro ⟨m, rfl, hverified, hearliest, hvalid, hdecoded⟩
    refine ⟨m, rfl, (), hverified, expUnix, hearliest, ?_⟩
    rw [if_neg (Int64.not_le.mpr hvalid)]
    exact bind_eq_ok.mpr ⟨claims, mapError_eq_ok.mpr hdecoded, rfl⟩

omit [TokenClaimsCodec] in
theorem checkPurpose_eq_ok {claims : TokenClaims} {expected : TokenPurpose} :
    checkPurpose claims expected = .ok () ↔ claims.purpose = expected.asStr := by
  unfold checkPurpose
  by_cases h : claims.purpose = expected.asStr <;> simp [h]

omit [TokenClaimsCodec] in
theorem require_eq_ok {value claim s : String} :
    require value claim = .ok s ↔ value ≠ "" ∧ value = s := by
  unfold require
  by_cases h : value = "" <;> simp [h]

theorem verifySession_eq_ok {keyring : Keyring} {nowUnix : Int64} {token : Token}
    {ctx : SessionContext} :
    verifySession keyring nowUnix token = .ok ctx ↔
      ∃ m claims, token = .ok m ∧ Accepted keyring nowUnix m claims ctx.expUnix ∧
        claims.purpose = TokenPurpose.session.asStr ∧ Role.fromStr claims.role = .ok ctx.role ∧
        claims.userId ≠ "" ∧ claims.email ≠ "" ∧ claims.orgId ≠ "" ∧
        ctx.user = ⟨claims.userId⟩ ∧ ctx.email = claims.email ∧ ctx.org = ⟨claims.orgId⟩ := by
  unfold verifySession
  simp only [bind_eq_ok, mapError_eq_ok, require_eq_ok]
  constructor
  · rintro ⟨⟨claims, e⟩, hunpack, _, hpurpose, role, hrole, user, ⟨huser, rfl⟩, email,
      ⟨hemail, rfl⟩, org, ⟨horg, rfl⟩, heq⟩
    cases heq
    obtain ⟨m, rfl, haccepted⟩ := unpack_eq_ok.mp hunpack
    exact ⟨m, claims, rfl, haccepted, checkPurpose_eq_ok.mp hpurpose, hrole, huser, hemail, horg,
      rfl, rfl, rfl⟩
  · obtain ⟨user, email, org, role, e⟩ := ctx
    rintro ⟨m, claims, rfl, haccepted, hpurpose, hrole, huser, hemail, horg, rfl, rfl, rfl⟩
    exact ⟨(claims, e), unpack_eq_ok.mpr ⟨m, rfl, haccepted⟩, (),
      checkPurpose_eq_ok.mpr hpurpose, role, hrole, _, ⟨huser, rfl⟩, _, ⟨hemail, rfl⟩, _,
      ⟨horg, rfl⟩, rfl⟩

theorem verifySync_eq_ok {keyring : Keyring} {nowUnix : Int64} {token : Token} {ctx : SyncContext} :
    verifySync keyring nowUnix token = .ok ctx ↔
      ∃ m claims, token = .ok m ∧ Accepted keyring nowUnix m claims ctx.expUnix ∧
        claims.purpose = TokenPurpose.sync.asStr ∧
        Direction.fromStr claims.direction = .ok ctx.direction ∧
        claims.userId ≠ "" ∧ claims.orgId ≠ "" ∧ claims.databaseId ≠ "" ∧
        ctx.user = ⟨claims.userId⟩ ∧ ctx.org = ⟨claims.orgId⟩ ∧
        ctx.database = ⟨claims.databaseId⟩ := by
  unfold verifySync
  simp only [bind_eq_ok, mapError_eq_ok, require_eq_ok]
  constructor
  · rintro ⟨⟨claims, e⟩, hunpack, _, hpurpose, direction, hdirection, user, ⟨huser, rfl⟩, org,
      ⟨horg, rfl⟩, database, ⟨hdatabase, rfl⟩, heq⟩
    cases heq
    obtain ⟨m, rfl, haccepted⟩ := unpack_eq_ok.mp hunpack
    exact ⟨m, claims, rfl, haccepted, checkPurpose_eq_ok.mp hpurpose, hdirection, huser, horg,
      hdatabase, rfl, rfl, rfl⟩
  · obtain ⟨user, org, database, direction, e⟩ := ctx
    rintro ⟨m, claims, rfl, haccepted, hpurpose, hdirection, huser, horg, hdatabase, rfl, rfl, rfl⟩
    exact ⟨(claims, e), unpack_eq_ok.mpr ⟨m, rfl, haccepted⟩, (),
      checkPurpose_eq_ok.mpr hpurpose, direction, hdirection, _, ⟨huser, rfl⟩, _, ⟨horg, rfl⟩, _,
      ⟨hdatabase, rfl⟩, rfl⟩

end Tokens

end EdgeReplica
