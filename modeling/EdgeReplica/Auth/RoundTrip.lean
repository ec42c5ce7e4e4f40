-- SUMMARY: What verification makes of a minted token with any expiries appended: the exact answer at every time.
import EdgeReplica.Auth.Attenuation

/-!
# Mint and verify

A minted token carries one expiry, and a holder may append more of them in any text
that parses. Until the earliest of them the verifier of the token's purpose gives back
what was minted, and from then on nothing; the other verifier never accepts it.
-/

namespace EdgeReplica

open Effect (okOr)

namespace Tokens

/-! ## Appended expiries -/

/-- The token with more first-party caveats, in order. -/
def attenuate (m : Macaroon) (predicates : List Bytes) : Macaroon :=
  predicates.foldl Macaroons.Macaroon.addFirstPartyCaveat m

/-- The earliest of an expiry and some more. -/
def earliest (expUnix : Int64) (more : List Int64) : Int64 := more.foldl min expUnix

theorem attenuate_identifier (m : Macaroon) (predicates : List Bytes) :
    (attenuate m predicates).identifier = m.identifier := by
  induction predicates generalizing m with
  | nil => rfl
  | cons predicate predicates ih => exact ih (m.addFirstPartyCaveat predicate)

theorem attenuate_caveats (m : Macaroon) (predicates : List Bytes) :
    (attenuate m predicates).caveats = m.caveats ++ predicates.map .firstParty := by
  induction predicates generalizing m with
  | nil => exact (List.append_nil _).symm
  | cons predicate predicates ih =>
    show (attenuate (m.addFirstPartyCaveat predicate) predicates).caveats = _
    rw [ih]
    show (m.caveats ++ [.firstParty predicate]) ++ _ = _
    rw [List.append_assoc]
    rfl

/-- Appending expiries leaves a token verified. -/
theorem verify_attenuate {satisfier : Bytes → Bool} {key : MacaroonKey} {m : Macaroon}
    {predicates : List Bytes} (hm : m.verify satisfier key = .ok ())
    (hpredicates : ∀ predicate ∈ predicates, satisfier predicate = true) :
    (attenuate m predicates).verify satisfier key = .ok () := by
  induction predicates generalizing m with
  | nil => exact hm
  | cons predicate predicates ih =>
    obtain ⟨hfirst, hrest⟩ := List.forall_mem_cons.mp hpredicates
    exact ih (Macaroons.Macaroon.verify_addCaveat.mpr ⟨hm, hfirst⟩) hrest

theorem expiries_firstParty {predicates : List Bytes} {more : List Int64}
    (hmore : predicates.map parseExp = more.map some) :
    expiries (predicates.map .firstParty) = more := by
  have hsame : expiries (predicates.map .firstParty) = (predicates.map parseExp).filterMap id := by
    rw [expiries, List.filterMap_map, List.filterMap_map]
    rfl
  rw [hsame, hmore, List.filterMap_map]
  exact List.filterMap_some

/-- The expiry is the sum, if that is an `i64`. -/
theorem expUnix_eq {nowUnix ttlSeconds expUnix : Int64}
    (h : expUnix.toInt = nowUnix.toInt + ttlSeconds.toInt) : nowUnix + ttlSeconds = expUnix := by
  rw [← Int64.toInt_inj, Int64.toInt_add, ← h]
  exact Int64.toInt_bmod expUnix

theorem isSome_of_expiries {predicates : List Bytes} {more : List Int64}
    (hmore : predicates.map parseExp = more.map some) :
    ∀ predicate ∈ predicates, (parseExp predicate).isSome = true := by
  intro predicate hmem
  have hparsed : parseExp predicate ∈ more.map some := by
    rw [← hmore]
    exact List.mem_map_of_mem hmem
  obtain ⟨e, -, he⟩ := List.mem_map.mp hparsed
  rw [← he]
  rfl

/-! ## What is accepted -/

variable [TokenClaimsCodec]

/-- A token is verified as it was packed. -/
theorem verify_pack (keyring : Keyring) (claims : TokenClaims) (expUnix : Int64) :
    (pack keyring claims expUnix).verify (fun c => (parseExp c).isSome) keyring.root = .ok () := by
  refine Macaroons.Macaroon.verify_eq_ok.mpr ⟨?_, signedBy_pack keyring claims expUnix⟩
  intro caveat hmem
  obtain rfl : caveat = .firstParty (expCaveat expUnix) := List.mem_singleton.mp hmem
  show (parseExp (expCaveat expUnix)).isSome = true
  rw [parseExp_expCaveat]
  rfl

/-- Until its earliest expiry a token is unpacked into the claims it was minted with. -/
theorem unpack_attenuate (keyring : Keyring) (nowUnix : Int64) (claims : TokenClaims)
    (expUnix : Int64) {predicates : List Bytes} {more : List Int64}
    (hmore : predicates.map parseExp = more.map some) :
    unpack keyring nowUnix (.ok (attenuate (pack keyring claims expUnix) predicates)) =
      if nowUnix < earliest expUnix more then .ok (claims, earliest expUnix more)
      else .error .expired := by
  have hverified := verify_attenuate (verify_pack keyring claims expUnix)
    (isSome_of_expiries hmore)
  have hearliest : (expiries (attenuate (pack keyring claims expUnix) predicates).caveats).min? =
      some (earliest expUnix more) := by
    rw [attenuate_caveats, expiries_append, expiries_pack, expiries_firstParty hmore]
    exact List.min?_cons'
  have hdecoded : TokenClaimsCodec.decodeFromSlice
      (attenuate (pack keyring claims expUnix) predicates).identifier = .ok claims := by
    rw [attenuate_identifier]
    exact TokenClaimsCodec.decode_encode claims
  split
  · next hvalid => exact unpack_eq_ok.mpr ⟨_, rfl, hverified, hearliest, hvalid, hdecoded⟩
  · next hexpired =>
    simp only [unpack, Except.mapError, okOr, bind, Except.bind, hverified, hearliest,
      Int64.not_lt.mp hexpired, if_true]
    rfl

/-- What verification gives with an expiry: the context until then, and nothing after. -/
def untilExpiry {α : Type} (nowUnix expUnix : Int64) (ctx : α) : Except TokenError α :=
  if nowUnix < expUnix then .ok ctx else .error .expired

theorem verifySession_mint {keyring : Keyring} {nowUnix : Int64} {input : MintSessionInput}
    {predicates : List Bytes} {more : List Int64}
    (hmore : predicates.map parseExp = more.map some) (huser : input.userId.asStr ≠ "")
    (hemail : input.email ≠ "") (horg : input.org.asStr ≠ "") :
    verifySession keyring nowUnix (.ok (attenuate (mintSession keyring input) predicates)) =
      untilExpiry nowUnix (earliest input.expUnix more)
        { user := input.userId, email := input.email, org := input.org, role := input.role,
          expUnix := earliest input.expUnix more } := by
  have hunpack := unpack_attenuate keyring nowUnix input.claims input.expUnix hmore
  unfold untilExpiry
  split
  · next hvalid =>
    rw [if_pos hvalid] at hunpack
    obtain ⟨m, htoken, haccepted⟩ := unpack_eq_ok.mp hunpack
    exact verifySession_eq_ok.mpr ⟨m, input.claims, htoken, haccepted, rfl,
      Role.fromStr_asStr input.role, huser, hemail, horg, rfl, rfl, rfl⟩
  · next hexpired =>
    rw [if_neg hexpired] at hunpack
    rw [verifySession, mintSession, hunpack]
    rfl

theorem verifySync_mint {keyring : Keyring} {nowUnix : Int64} {input : MintSyncInput}
    {predicates : List Bytes} {more : List Int64}
    (hmore : predicates.map parseExp = more.map some) (huser : input.userId.asStr ≠ "")
    (horg : input.org.asStr ≠ "") (hdatabase : input.database.asStr ≠ "") :
    verifySync keyring nowUnix (.ok (attenuate (mintSync keyring input) predicates)) =
      untilExpiry nowUnix (earliest input.expUnix more)
        { user := input.userId, org := input.org, database := input.database,
          direction := input.direction, expUnix := earliest input.expUnix more } := by
  have hunpack := unpack_attenuate keyring nowUnix input.claims input.expUnix hmore
  unfold untilExpiry
  split
  · next hvalid =>
    rw [if_pos hvalid] at hunpack
    obtain ⟨m, htoken, haccepted⟩ := unpack_eq_ok.mp hunpack
    exact verifySync_eq_ok.mpr ⟨m, input.claims, htoken, haccepted, rfl,
      Direction.fromStr_asStr input.direction, huser, horg, hdatabase, rfl, rfl, rfl⟩
  · next hexpired =>
    rw [if_neg hexpired] at hunpack
    rw [verifySync, mintSync, hunpack]
    rfl

/-- A token whose claims have one purpose is not accepted for the other. -/
theorem claims_of_accepted {keyring : Keyring} {nowUnix : Int64} {claims claims' : TokenClaims}
    {expUnix expUnix' : Int64} {predicates : List Bytes}
    (h : Accepted keyring nowUnix (attenuate (pack keyring claims expUnix) predicates) claims'
      expUnix') : claims' = claims := by
  have hdecoded := h.decoded
  rw [attenuate_identifier] at hdecoded
  exact Except.ok.inj (hdecoded.symm.trans (TokenClaimsCodec.decode_encode claims))

/-- A session token is no sync token, whatever is appended to it. -/
theorem verifySync_mintSession {keyring : Keyring} {nowUnix : Int64} {input : MintSessionInput}
    {predicates : List Bytes} {ctx : SyncContext} :
    verifySync keyring nowUnix (.ok (attenuate (mintSession keyring input) predicates)) ≠
      .ok ctx := by
  intro h
  obtain ⟨_, claims, ⟨⟩, haccepted, hpurpose, -⟩ := verifySync_eq_ok.mp h
  rw [claims_of_accepted haccepted] at hpurpose
  exact session_purpose_ne input hpurpose

/-- A sync token is no session token. -/
theorem verifySession_mintSync {keyring : Keyring} {nowUnix : Int64} {input : MintSyncInput}
    {predicates : List Bytes} {ctx : SessionContext} :
    verifySession keyring nowUnix (.ok (attenuate (mintSync keyring input) predicates)) ≠
      .ok ctx := by
  intro h
  obtain ⟨_, claims, ⟨⟩, haccepted, hpurpose, -⟩ := verifySession_eq_ok.mp h
  rw [claims_of_accepted haccepted] at hpurpose
  exact sync_purpose_ne input hpurpose

/-- Mint, then verify. With any further expiries appended, in any text that parses, the
verifier of the same purpose gives back exactly what was minted, with the earliest of all
the expiries, until that time, and `Expired` from then on. The other verifier never
accepts the token. -/
theorem mint_verify_exact (keyring : Keyring) (nowUnix : Int64) {predicates : List Bytes}
    {more : List Int64} (hmore : predicates.map parseExp = more.map some) :
    (∀ (input : MintSessionInput) (expUnix : Int64),
      expUnix.toInt = input.nowUnix.toInt + input.ttlSeconds.toInt →
      input.userId.asStr ≠ "" → input.email ≠ "" → input.org.asStr ≠ "" →
      let token := Except.ok (attenuate (mintSession keyring input) predicates)
      verifySession keyring nowUnix token =
        untilExpiry nowUnix (earliest expUnix more)
          { user := input.userId, email := input.email, org := input.org, role := input.role,
            expUnix := earliest expUnix more } ∧
      ∀ ctx, verifySync keyring nowUnix token ≠ .ok ctx) ∧
    ∀ (input : MintSyncInput) (expUnix : Int64),
      expUnix.toInt = input.nowUnix.toInt + input.ttlSeconds.toInt →
      input.userId.asStr ≠ "" → input.org.asStr ≠ "" → input.database.asStr ≠ "" →
      let token := Except.ok (attenuate (mintSync keyring input) predicates)
      verifySync keyring nowUnix token =
        untilExpiry nowUnix (earliest expUnix more)
          { user := input.userId, org := input.org, database := input.database,
            direction := input.direction, expUnix := earliest expUnix more } ∧
      ∀ ctx, verifySession keyring nowUnix token ≠ .ok ctx := by
  constructor
  · intro input expUnix hexp huser hemail horg
    have hsum : input.expUnix = expUnix := expUnix_eq hexp
    rw [← hsum]
    exact ⟨verifySession_mint hmore huser hemail horg, fun _ => verifySync_mintSession⟩
  · intro input expUnix hexp huser horg hdatabase
    have hsum : input.expUnix = expUnix := expUnix_eq hexp
    rw [← hsum]
    exact ⟨verifySync_mint hmore huser horg hdatabase, fun _ => verifySession_mintSync⟩

def sampleSyncInput : MintSyncInput where
  userId := ⟨"u_1"⟩
  org := ⟨"o_1"⟩
  database := ⟨"d_1"⟩
  direction := .pull
  nowUnix := 0
  ttlSeconds := 10000

/-- Expiries with a sign and with leading zeros. -/
def sampleExpiries : List Bytes := [Protobuf.utf8 "exp=+500", Protobuf.utf8 "exp=00400"]

omit [TokenClaimsCodec] in
theorem mint_verify_exact_sample :
    letI := TokenClaimsCodec.protobuf
    verifySession ⟨sampleKey 0⟩ 399
        (.ok (attenuate (mintSession ⟨sampleKey 0⟩ sampleInput) sampleExpiries)) =
      .ok ⟨⟨"u_1"⟩, "ada@example.com", ⟨"o_1"⟩, .member, 400⟩ ∧
    verifySync ⟨sampleKey 0⟩ 400
        (.ok (attenuate (mintSync ⟨sampleKey 0⟩ sampleSyncInput) sampleExpiries)) =
      .error .expired := by
  let _ := TokenClaimsCodec.protobuf
  have hmore : sampleExpiries.map parseExp = [500, 400].map some := by decide
  constructor
  · exact ((mint_verify_exact ⟨sampleKey 0⟩ 399 hmore).1 sampleInput 10000 (by decide) (by decide)
      (by decide) (by decide)).1
  · exact ((mint_verify_exact ⟨sampleKey 0⟩ 400 hmore).2 sampleSyncInput 10000 (by decide)
      (by decide) (by decide) (by decide)).1

end Tokens

end EdgeReplica
