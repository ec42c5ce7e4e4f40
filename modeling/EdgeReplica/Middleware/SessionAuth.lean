-- SUMMARY: The optional session of a request: a token that verifies gives one, any other request has none.
import EdgeReplica.Auth.Attenuation
import EdgeReplica.Services.Common

/-!
# Session authentication

The layer decodes: a request with a bad token goes on without a session. A handler
that needs one asks for it.
-/

namespace EdgeReplica

/-- What a handler is told about the request. -/
structure RpcContext where
  session : Option SessionContext
deriving DecidableEq

namespace SessionAuth

open Macaroons (Derivable)

/-- The context of a request with this bearer token, if any. -/
def authenticate [TokenClaimsCodec] (keyring : Keyring) (nowUnix : Int64) (token : Option Token) :
    RpcContext where
  session := do (Tokens.verifySession keyring nowUnix (← token)).toOption

def requireSession (ctx : RpcContext) : Except ConnectError SessionContext :=
  Effect.okOr ctx.session ⟨.unauthenticated, "session token required"⟩

theorem requireSession_eq_ok {ctx : RpcContext} {session : SessionContext} :
    requireSession ctx = .ok session ↔ ctx.session = some session := Effect.okOr_eq_ok

/-- The session is what some session token was minted for. -/
def Minted (sessions : List Tokens.MintSessionInput) (session : SessionContext) : Prop :=
  ∃ input ∈ sessions, session.user = input.userId ∧ session.email = input.email ∧
    session.org = input.org ∧ session.role = input.role

instance (sessions : List Tokens.MintSessionInput) (session : SessionContext) :
    Decidable (Minted sessions session) := by
  unfold Minted
  infer_instance

/-- Whatever a holder makes of minted tokens, the session it opens is a minted one. -/
theorem minted_of_authenticate [TokenClaimsCodec] {keyring : Keyring} {own : Set MacaroonKey}
    (hown : keyring.root ∉ own) {sessions : List Tokens.MintSessionInput}
    {syncs : Set Tokens.MintSyncInput} {nowUnix : Int64} {m : Macaroon}
    (hm : Derivable (Tokens.issued keyring {input | input ∈ sessions} syncs) own m)
    {session : SessionContext}
    (h : (authenticate keyring nowUnix (some (.ok m))).session = some session) :
    Minted sessions session := by
  have hverify : Tokens.verifySession keyring nowUnix (.ok m) = .ok session := by
    change (Tokens.verifySession keyring nowUnix (.ok m)).toOption = some session at h
    cases hr : Tokens.verifySession keyring nowUnix (.ok m) with
    | error e => rw [hr] at h; cases h
    | ok session' => rw [hr] at h; cases h; rfl
  obtain ⟨input, hinput, hsession⟩ := Tokens.verifySession_of_derivable hown hm hverify
  exact ⟨input, hinput, hsession.user, hsession.email, hsession.org, hsession.role⟩

end SessionAuth

end EdgeReplica
