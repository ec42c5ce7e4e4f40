-- SUMMARY: What a holder of tokens can do with them: narrow their expiry, and nothing else.
import Mathlib.Data.Set.Image
import EdgeReplica.Auth.Tokens

/-!
# Attenuation

Anyone who holds a token can append caveats to it. An accepted token, however it
was derived, says what some minted token says, and is valid no longer.
-/

namespace EdgeReplica

namespace Tokens

open Macaroons (Derivable)

/-- A session token is not one for a sync. -/
theorem session_purpose_ne (input : MintSessionInput) :
    input.claims.purpose ≠ TokenPurpose.sync.asStr := by
  intro h
  have h' : TokenPurpose.session.asStr = TokenPurpose.sync.asStr := h
  exact absurd (TokenPurpose.asStr_inj.mp h') (by decide)

/-- Nor the other way round. -/
theorem sync_purpose_ne (input : MintSyncInput) :
    input.claims.purpose ≠ TokenPurpose.session.asStr := by
  intro h
  have h' : TokenPurpose.sync.asStr = TokenPurpose.session.asStr := h
  exact absurd (TokenPurpose.asStr_inj.mp h') (by decide)

variable [TokenClaimsCodec]

/-! ## Appended caveats -/

omit [TokenClaimsCodec] in
theorem expiries_append (l₁ l₂ : List Caveat) :
    expiries (l₁ ++ l₂) = expiries l₁ ++ expiries l₂ := List.filterMap_append

omit [TokenClaimsCodec] in
/-- The earliest expiry of more caveats is no later. -/
theorem earliest_le {l₁ l₂ : List Caveat} {e e' : Int64} (h : (expiries (l₁ ++ l₂)).min? = some e')
    (he : e ∈ expiries l₁) : e' ≤ e := by
  rw [expiries_append] at h
  exact (List.min?_eq_some_iff.mp h).2 e (List.mem_append_left _ he)

/-- Appending to a token that has an expiry narrows what is accepted, and changes
no claim. -/
theorem Accepted.of_addCaveat {keyring : Keyring} {nowUnix : Int64} {m : Macaroon} {caveat : Caveat}
    {claims : TokenClaims} {expUnix : Int64} (hexp : expiries m.caveats ≠ [])
    (h : Accepted keyring nowUnix (m.addCaveat caveat) claims expUnix) :
    ∃ expUnix', Accepted keyring nowUnix m claims expUnix' ∧ expUnix ≤ expUnix' := by
  obtain ⟨hverified, hearliest, hvalid, hdecoded⟩ := h
  cases hmin : (expiries m.caveats).min? with
  | none => exact absurd (List.min?_eq_none_iff.mp hmin) hexp
  | some expUnix' =>
    have hle : expUnix ≤ expUnix' := earliest_le hearliest (List.min?_eq_some_iff.mp hmin).1
    exact ⟨expUnix', ⟨(Macaroons.Macaroon.verify_addCaveat.mp hverified).1, hmin,
      Std.lt_of_lt_of_le hvalid hle, hdecoded⟩, hle⟩

/-! ## Derived tokens -/

/-- The tokens minted under the keyring from these inputs. -/
def issued (keyring : Keyring) (sessions : Set MintSessionInput) (syncs : Set MintSyncInput) :
    Set Macaroon :=
  mintSession keyring '' sessions ∪ mintSync keyring '' syncs

/-- A token is minted with the claims and the expiry of some input. -/
theorem of_mem_issued {keyring : Keyring} {sessions : Set MintSessionInput}
    {syncs : Set MintSyncInput} {m : Macaroon} (h : m ∈ issued keyring sessions syncs) :
    (∃ input ∈ sessions, m = pack keyring input.claims input.expUnix) ∨
      ∃ input ∈ syncs, m = pack keyring input.claims input.expUnix := by
  rcases h with ⟨input, hinput, rfl⟩ | ⟨input, hinput, rfl⟩
  · exact .inl ⟨input, hinput, rfl⟩
  · exact .inr ⟨input, hinput, rfl⟩

theorem signedBy_pack (keyring : Keyring) (claims : TokenClaims) (expUnix : Int64) :
    (pack keyring claims expUnix).SignedBy keyring.root := rfl

theorem expiries_pack (keyring : Keyring) (claims : TokenClaims) (expUnix : Int64) :
    expiries (pack keyring claims expUnix).caveats = [expUnix] :=
  List.filterMap_cons_some (parseExp_expCaveat expUnix)

section

variable {keyring : Keyring} {own : Set MacaroonKey} {sessions : Set MintSessionInput}
  {syncs : Set MintSyncInput} {m : Macaroon}

/-- A derived token that the root key signed continues a minted one. -/
theorem of_derivable (hown : keyring.root ∉ own)
    (h : Derivable (issued keyring sessions syncs) own m) (hsigned : m.SignedBy keyring.root) :
    ∃ m₀ ∈ issued keyring sessions syncs, m₀.identifier = m.identifier ∧
      m₀.caveats <+: m.caveats :=
  h.of_signedBy hown (fun m₀ hm₀ => by
    rcases of_mem_issued hm₀ with ⟨input, -, rfl⟩ | ⟨input, -, rfl⟩ <;>
      exact signedBy_pack keyring _ _) hsigned

/-- It has an expiry. -/
theorem expiries_ne_nil_of_derivable (hown : keyring.root ∉ own)
    (h : Derivable (issued keyring sessions syncs) own m) (hsigned : m.SignedBy keyring.root) :
    expiries m.caveats ≠ [] := by
  obtain ⟨m₀, hm₀, -, more, hmore⟩ := of_derivable hown h hsigned
  rw [← hmore, expiries_append]
  rcases of_mem_issued hm₀ with ⟨input, -, rfl⟩ | ⟨input, -, rfl⟩ <;> simp [expiries_pack]

/-- The token is one that was packed from these claims, with caveats appended. -/
structure Continues (keyring : Keyring) (claims : TokenClaims) (expUnix : Int64) (m : Macaroon) :
    Prop where
  identifier : (pack keyring claims expUnix).identifier = m.identifier
  caveats : (pack keyring claims expUnix).caveats <+: m.caveats

/-- What is accepted of it are the claims of some input, no longer than they were
minted for. -/
theorem Accepted.of_derivable {nowUnix : Int64} {claims : TokenClaims} {expUnix : Int64}
    (hown : keyring.root ∉ own) (h : Derivable (issued keyring sessions syncs) own m)
    (haccepted : Accepted keyring nowUnix m claims expUnix) :
    (∃ input ∈ sessions, claims = input.claims ∧ expUnix ≤ input.expUnix) ∨
      ∃ input ∈ syncs, claims = input.claims ∧ expUnix ≤ input.expUnix ∧
        Continues keyring input.claims input.expUnix m := by
  obtain ⟨hverified, hearliest, -, hdecoded⟩ := haccepted
  have hsigned := (Macaroons.Macaroon.verify_eq_ok.mp hverified).2
  obtain ⟨m₀, hm₀, hid, hcaveats⟩ := Tokens.of_derivable hown h hsigned
  have hminted (claims₀ : TokenClaims) (expUnix₀ : Int64)
      (hpack : m₀ = pack keyring claims₀ expUnix₀) : claims = claims₀ ∧ expUnix ≤ expUnix₀ := by
    subst hpack
    constructor
    · have hdecode := TokenClaimsCodec.decode_encode claims₀
      rw [← hid] at hdecoded
      exact Except.ok.inj (hdecoded.symm.trans hdecode)
    · obtain ⟨more, hmore⟩ := hcaveats
      rw [← hmore] at hearliest
      exact earliest_le hearliest (by rw [expiries_pack]; exact List.mem_singleton_self _)
  rcases of_mem_issued hm₀ with ⟨input, hinput, hpack⟩ | ⟨input, hinput, hpack⟩
  · exact .inl ⟨input, hinput, hminted _ _ hpack⟩
  · obtain ⟨hclaims, hle⟩ := hminted _ _ hpack
    subst hpack
    exact .inr ⟨input, hinput, hclaims, hle, hid, hcaveats⟩

end

/-! ## Both kinds of tokens -/

/-- The context says what the session token was minted with, for no longer. -/
structure FromSession (input : MintSessionInput) (nowUnix : Int64) (ctx : SessionContext) :
    Prop where
  user : ctx.user = input.userId
  org : ctx.org = input.org
  email : ctx.email = input.email
  role : ctx.role = input.role
  valid : nowUnix < ctx.expUnix
  expires : ctx.expUnix ≤ input.expUnix

/-- The context says what the sync token was minted with, for no longer. -/
structure FromSync (input : MintSyncInput) (nowUnix : Int64) (ctx : SyncContext) : Prop where
  user : ctx.user = input.userId
  org : ctx.org = input.org
  database : ctx.database = input.database
  direction : ctx.direction = input.direction
  valid : nowUnix < ctx.expUnix
  expires : ctx.expUnix ≤ input.expUnix

section

variable {keyring : Keyring} {own : Set MacaroonKey} {sessions : Set MintSessionInput}
  {syncs : Set MintSyncInput} {nowUnix : Int64} {m : Macaroon}

theorem verifySession_of_derivable (hown : keyring.root ∉ own)
    (h : Derivable (issued keyring sessions syncs) own m) {ctx : SessionContext}
    (hverify : verifySession keyring nowUnix (.ok m) = .ok ctx) :
    ∃ input ∈ sessions, FromSession input nowUnix ctx := by
  obtain ⟨_, claims, ⟨⟩, haccepted, hpurpose, hrole, -, -, -, huser, hemail, horg⟩ :=
    verifySession_eq_ok.mp hverify
  rcases haccepted.of_derivable hown h with ⟨input, hinput, rfl, hle⟩ | ⟨input, -, rfl, -⟩
  · have hrole' : Role.fromStr input.role.asStr = .ok ctx.role := hrole
    rw [Role.fromStr_asStr] at hrole'
    exact ⟨input, hinput, huser, horg, hemail, (Except.ok.inj hrole').symm, haccepted.valid, hle⟩
  · exact absurd hpurpose (sync_purpose_ne input)

theorem verifySync_of_derivable (hown : keyring.root ∉ own)
    (h : Derivable (issued keyring sessions syncs) own m) {ctx : SyncContext}
    (hverify : verifySync keyring nowUnix (.ok m) = .ok ctx) :
    ∃ input ∈ syncs, FromSync input nowUnix ctx ∧
      Continues keyring input.claims input.expUnix m := by
  obtain ⟨_, claims, ⟨⟩, haccepted, hpurpose, hdirection, -, -, -, huser, horg, hdatabase⟩ :=
    verifySync_eq_ok.mp hverify
  rcases haccepted.of_derivable hown h with ⟨input, -, rfl, -⟩ |
    ⟨input, hinput, rfl, hle, hcontinues⟩
  · exact absurd hpurpose (session_purpose_ne input)
  · have hdirection' : Direction.fromStr input.direction.asStr = .ok ctx.direction := hdirection
    rw [Direction.fromStr_asStr] at hdirection'
    exact ⟨input, hinput, ⟨huser, horg, hdatabase, (Except.ok.inj hdirection').symm,
      haccepted.valid, hle⟩, hcontinues⟩

theorem verifySession_addCaveat (hexp : expiries m.caveats ≠ []) {caveat : Caveat}
    {ctx : SessionContext}
    (h : verifySession keyring nowUnix (.ok (m.addCaveat caveat)) = .ok ctx) :
    ∃ expUnix, ctx.expUnix ≤ expUnix ∧
      verifySession keyring nowUnix (.ok m) = .ok { ctx with expUnix } := by
  obtain ⟨_, claims, ⟨⟩, haccepted, hclaims⟩ := verifySession_eq_ok.mp h
  obtain ⟨expUnix, haccepted', hle⟩ := haccepted.of_addCaveat hexp
  exact ⟨expUnix, hle, verifySession_eq_ok.mpr ⟨m, claims, rfl, haccepted', hclaims⟩⟩

theorem verifySync_addCaveat (hexp : expiries m.caveats ≠ []) {caveat : Caveat}
    {ctx : SyncContext} (h : verifySync keyring nowUnix (.ok (m.addCaveat caveat)) = .ok ctx) :
    ∃ expUnix, ctx.expUnix ≤ expUnix ∧
      verifySync keyring nowUnix (.ok m) = .ok { ctx with expUnix } := by
  obtain ⟨_, claims, ⟨⟩, haccepted, hclaims⟩ := verifySync_eq_ok.mp h
  obtain ⟨expUnix, haccepted', hle⟩ := haccepted.of_addCaveat hexp
  exact ⟨expUnix, hle, verifySync_eq_ok.mpr ⟨m, claims, rfl, haccepted', hclaims⟩⟩

end

/-- Tokens only attenuate. Whoever holds minted tokens, and keys other than the
root, gets accepted what a minted token of the same purpose says, for as long as
it was minted at most. A caveat appended to a token that carries an expiry, or
that was derived from minted ones, takes acceptance away or narrows the expiry,
and changes nothing else. -/
theorem tokens_attenuate (keyring : Keyring) {own : Set MacaroonKey} (hown : keyring.root ∉ own)
    (sessions : Set MintSessionInput) (syncs : Set MintSyncInput) (nowUnix : Int64) :
    (∀ m, Derivable (issued keyring sessions syncs) own m →
      (∀ ctx, verifySession keyring nowUnix (.ok m) = .ok ctx →
        ∃ input ∈ sessions, FromSession input nowUnix ctx) ∧
      ∀ ctx, verifySync keyring nowUnix (.ok m) = .ok ctx →
        ∃ input ∈ syncs, FromSync input nowUnix ctx) ∧
    ∀ m, Derivable (issued keyring sessions syncs) own m ∨ expiries m.caveats ≠ [] →
      ∀ caveat,
        (∀ ctx, verifySession keyring nowUnix (.ok (m.addCaveat caveat)) = .ok ctx →
          ∃ expUnix, ctx.expUnix ≤ expUnix ∧
            verifySession keyring nowUnix (.ok m) = .ok { ctx with expUnix }) ∧
        ∀ ctx, verifySync keyring nowUnix (.ok (m.addCaveat caveat)) = .ok ctx →
          ∃ expUnix, ctx.expUnix ≤ expUnix ∧
            verifySync keyring nowUnix (.ok m) = .ok { ctx with expUnix } := by
  refine ⟨fun m h => ⟨fun _ => verifySession_of_derivable hown h, fun ctx hverify => ?_⟩,
    fun m hm caveat => ?_⟩
  · obtain ⟨input, hinput, hfrom, -⟩ := verifySync_of_derivable hown h hverify
    exact ⟨input, hinput, hfrom⟩
  -- A derived token that the root key has not signed is not accepted with a caveat more either.
  have hexp {claims : TokenClaims} {expUnix : Int64}
      (haccepted : Accepted keyring nowUnix (m.addCaveat caveat) claims expUnix) :
      expiries m.caveats ≠ [] := by
    rcases hm with h | hexp
    · have hsigned := (Macaroons.Macaroon.verify_eq_ok.mp haccepted.verified).2
      exact expiries_ne_nil_of_derivable hown h (Macaroons.Macaroon.signedBy_addCaveat.mp hsigned)
    · exact hexp
  constructor
  · intro ctx h
    obtain ⟨_, claims, ⟨⟩, haccepted, -⟩ := verifySession_eq_ok.mp h
    exact verifySession_addCaveat (hexp haccepted) h
  · intro ctx h
    obtain ⟨_, claims, ⟨⟩, haccepted, -⟩ := verifySync_eq_ok.mp h
    exact verifySync_addCaveat (hexp haccepted) h

/-- A key of 32 equal bytes. -/
def sampleKey (b : UInt8) : MacaroonKey := ⟨List.replicate 32 b, List.length_replicate⟩

def sampleInput : MintSessionInput where
  userId := ⟨"u_1"⟩
  email := "ada@example.com"
  org := ⟨"o_1"⟩
  role := .member
  nowUnix := 0
  ttlSeconds := 10000

/-- A holder narrows the expiry of the session to 500. -/
def sampleToken : Macaroon :=
  (mintSession ⟨sampleKey 0⟩ sampleInput).addFirstPartyCaveat (Protobuf.utf8 "exp=500")

omit [TokenClaimsCodec] in
theorem tokens_attenuate_sample :
    letI := TokenClaimsCodec.protobuf
    (∃ input ∈ ({sampleInput} : Set MintSessionInput),
      FromSession input 100 ⟨⟨"u_1"⟩, "ada@example.com", ⟨"o_1"⟩, .member, 500⟩) ∧
    ∃ expUnix, 500 ≤ expUnix ∧
      verifySession ⟨sampleKey 0⟩ 100 (.ok (mintSession ⟨sampleKey 0⟩ sampleInput)) =
        .ok ⟨⟨"u_1"⟩, "ada@example.com", ⟨"o_1"⟩, .member, expUnix⟩ := by
  let _ := TokenClaimsCodec.protobuf
  have hown : sampleKey 0 ∉ ({sampleKey 1} : Set MacaroonKey) := by
    rw [Set.mem_singleton_iff]
    decide
  have hverify : verifySession ⟨sampleKey 0⟩ 100 (.ok sampleToken) =
      .ok ⟨⟨"u_1"⟩, "ada@example.com", ⟨"o_1"⟩, .member, 500⟩ := by decide +kernel
  obtain ⟨hsound, hattenuate⟩ := tokens_attenuate ⟨sampleKey 0⟩ hown {sampleInput} ∅ 100
  have hminted : Derivable (issued ⟨sampleKey 0⟩ {sampleInput} ∅) {sampleKey 1}
      (mintSession ⟨sampleKey 0⟩ sampleInput) :=
    .held (.inl ⟨sampleInput, Set.mem_singleton _, rfl⟩)
  exact ⟨(hsound sampleToken (hminted.addCaveat _)).1 _ hverify,
    (hattenuate _ (.inl hminted) _).1 _ hverify⟩

end Tokens

end EdgeReplica
