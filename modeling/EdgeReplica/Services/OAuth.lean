-- SUMMARY: The OAuth round trip with GitHub: the authorize URL, the checks of both requests and the exchange of a code.
import EdgeReplica.Lib.Protobuf
import EdgeReplica.Services.Admin

/-!
# OAuth

`StartOAuth` answers with a URL for the browser and a state that comes back with the
code; `CompleteOAuth` gives the code to GitHub and learns whose it is. Only GitHub is
supported.
-/

namespace EdgeReplica

open Domain (OAuthState User)
open Effect (bind_eq_ok okOr)
open Tokens (MintSessionInput)

namespace Pb

structure StartOAuthResponse where
  redirectUrl : String
  state : String
deriving DecidableEq

end Pb

/-- The identity that the provider tells of. -/
structure OAuthIdentity where
  provider : IdentityProvider
  providerUserId : String
  email : String
deriving DecidableEq

/-- What GitHub tells of the holder of a code, given the redirect URI: the subject and
an email. -/
abbrev GitHub := String → String → Except ConnectError (String × String)

namespace OAuth

def GITHUB_AUTHORIZE_URL : String := "https://github.com/login/oauth/authorize"
def GITHUB_SCOPES : String := "read:user user:email"

def hexDigit (n : Nat) : Char := n.digitChar.toUpper

def urlencodeByte (byte : UInt8) : List Char :=
  let c := Char.ofNat byte.toNat
  if c.isAlphanum || c ∈ ['-', '_', '.', '~'] then [c]
  else if c = ' ' then ['+']
  else ['%', hexDigit (byte.toNat / 16), hexDigit (byte.toNat % 16)]

def urlencode (s : String) : String := .ofList ((Protobuf.utf8 s).flatMap urlencodeByte)

example : urlencode "a/b?c=d&e f~" = "a%2Fb%3Fc%3Dd%26e+f~" := by decide

def githubAuthorizeUrl (clientId redirectUri state : String) : String :=
  GITHUB_AUTHORIZE_URL ++ "?client_id=" ++ urlencode clientId ++ "&redirect_uri=" ++
    urlencode redirectUri ++ "&state=" ++ urlencode state ++ "&scope=" ++ urlencode GITHUB_SCOPES

def githubCredentials (config : Config) : Option (String × String) := do
  let id ← config.githubClientId
  let secret ← config.githubClientSecret
  return (id, secret)

def oauthRedirectUri (config : Config) (provider : String) : Except ConnectError String := do
  if Text.trim config.oauthRedirectBase = "" then
    throw ⟨.unimplemented, "OAUTH_REDIRECT_BASE not set on this deployment"⟩
  let base := Text.trimEndMatches config.oauthRedirectBase '/'
  return s!"{base}/oauth/{provider}/callback"

def requireGitHub : IdentityProvider → Except ConnectError Unit
  | .gitHub => .ok ()
  | provider => .error ⟨.unimplemented, s!"oauth provider `{provider.asStr}` not supported"⟩

def completeGithub (config : Config) (github : GitHub) (code redirectUri : String) :
    Except ConnectError OAuthIdentity := do
  let _ ← okOr (githubCredentials config) ⟨.failedPrecondition, "github oauth not configured"⟩
  let (providerUserId, email) ← github code redirectUri
  return { provider := .gitHub, providerUserId, email }

/-- What `StartOAuth` stores, and what it answers once that is stored. -/
def start (config : Config) (nowMs : Int64) (generated provider : String) :
    Except ConnectError (OAuthState × Pb.StartOAuthResponse) := do
  let provider ← (IdentityProvider.fromStr provider).mapError fun _ =>
    ⟨.invalidArgument, s!"unknown oauth provider `{provider}`"⟩
  requireGitHub provider
  let (clientId, _) ← okOr (githubCredentials config)
    ⟨.unimplemented, "github oauth not configured on this deployment"⟩
  let redirectUri ← oauthRedirectUri config provider.asStr
  let ttlMs := Int64.ofIntClamp (config.oauthStateTtlSeconds.toInt * 1000)
  return ({
    state := generated
    provider := provider.asStr
    createdAtMs := nowMs
    expiresAtMs := nowMs + ttlMs },
    { redirectUrl := githubAuthorizeUrl clientId redirectUri generated, state := generated })

/-- The redirect URI that a state of the repository is completed with. -/
def resume (config : Config) (stored : OAuthState) : Except ConnectError String := do
  let provider ← (IdentityProvider.fromStr stored.provider).mapError fun _ =>
    ⟨.internal, s!"stored oauth state has unknown provider `{stored.provider}`"⟩
  requireGitHub provider
  oauthRedirectUri config provider.asStr

/-- The states that `start` prepares can be resumed. -/
theorem resume_of_start {config : Config} {nowMs : Int64} {generated provider : String}
    {state : OAuthState} {response : Pb.StartOAuthResponse}
    (h : start config nowMs generated provider = .ok (state, response)) :
    ∃ redirectUri, resume config state = .ok redirectUri := by
  obtain ⟨known, -, h⟩ := bind_eq_ok.mp h
  obtain ⟨_, hgithub, h⟩ := bind_eq_ok.mp h
  obtain ⟨_, -, h⟩ := bind_eq_ok.mp h
  obtain ⟨redirectUri, huri, h⟩ := bind_eq_ok.mp h
  obtain ⟨rfl, rfl⟩ := Prod.mk.inj (Except.ok.inj h)
  refine ⟨redirectUri, ?_⟩
  rw [resume, IdentityProvider.fromStr_asStr]
  exact bind_eq_ok.mpr ⟨known, rfl, bind_eq_ok.mpr ⟨_, hgithub, huri⟩⟩

/-- What a session of the user is minted with, over the organizations that the
repository lists. -/
def sessionInput (config : Config) (nowUnix : Int64) (user : User) (orgs : List OrgWithRole) :
    Except ConnectError MintSessionInput := do
  let (org, role) ← okOr (orgs.find? fun listed => listed.1.personal)
    ⟨.internal, "personal org missing for user"⟩
  return {
    userId := user.id
    email := user.email
    org := org.id
    role := role
    nowUnix := nowUnix
    ttlSeconds := config.sessionTtlSeconds }

end OAuth

end EdgeReplica
