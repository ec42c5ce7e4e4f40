-- SUMMARY: The configuration from the variables of the environment, and the values that its lifetimes can have.
import EdgeReplica.Lib.Utf8
import EdgeReplica.Services.Admin

/-!
# Configuration

A lifetime is any `i64` that its variable parses to. Nothing looks at its size or its sign.
-/

namespace EdgeReplica

/-- The variables of the environment. -/
abbrev Vars := String → Option String

/-- `str::parse::<i64>`. -/
def parseI64 (s : String) : Option Int64 := Decimal.toInt64? (Protobuf.utf8 s)

def readSecs (vars : Vars) (k : String) (default : Int64) : Int64 :=
  ((vars k).bind parseI64).getD default

def readStr (vars : Vars) (k : String) : Option String :=
  (vars k).filter fun s => Text.trim s ≠ ""

def loadConfig (vars : Vars) : Config where
  sessionTtlSeconds := readSecs vars "SESSION_TTL_SECONDS" 86400
  syncTokenTtlSeconds := readSecs vars "SYNC_TOKEN_TTL_SECONDS" 3600
  maxSyncTokenTtlSeconds := readSecs vars "MAX_SYNC_TOKEN_TTL_SECONDS" (24 * 3600)
  oauthStateTtlSeconds := readSecs vars "OAUTH_STATE_TTL_SECONDS" (10 * 60)
  oauthRedirectBase := (readStr vars "OAUTH_REDIRECT_BASE").getD ""
  githubClientId := readStr vars "GITHUB_CLIENT_ID"
  githubClientSecret := readStr vars "GITHUB_CLIENT_SECRET"

/-- Every `i64` is written by some text. -/
theorem exists_parseI64 (e : Int64) : ∃ s, parseI64 s = some e := by
  have hascii : ∀ b ∈ Decimal.ofInt64 e, b.toNat < 128 := by
    have hdigits : ∀ b ∈ Decimal.ofNat e.toInt.natAbs, b.toNat < 128 := by
      intro b hb
      have hle := UInt8.le_iff_toNat_le.mp (Decimal.digit_of_mem_ofNat hb).2
      exact Nat.lt_of_le_of_lt hle (by decide)
    unfold Decimal.ofInt64
    split
    · exact List.forall_mem_cons.mpr ⟨by decide, hdigits⟩
    · exact hdigits
  obtain ⟨s, hs⟩ := Utf8.exists_utf8_eq hascii
  exact ⟨s, by rw [parseI64, hs, Decimal.toInt64?_ofInt64]⟩

/-- Any lifetimes at all can be configured. -/
theorem exists_loadConfig (session sync maxSync oauthState : Int64) :
    ∃ vars, (loadConfig vars).sessionTtlSeconds = session ∧
      (loadConfig vars).syncTokenTtlSeconds = sync ∧
      (loadConfig vars).maxSyncTokenTtlSeconds = maxSync ∧
      (loadConfig vars).oauthStateTtlSeconds = oauthState := by
  obtain ⟨s₁, h₁⟩ := exists_parseI64 session
  obtain ⟨s₂, h₂⟩ := exists_parseI64 sync
  obtain ⟨s₃, h₃⟩ := exists_parseI64 maxSync
  obtain ⟨s₄, h₄⟩ := exists_parseI64 oauthState
  refine ⟨fun k =>
    if k = "SESSION_TTL_SECONDS" then some s₁
    else if k = "SYNC_TOKEN_TTL_SECONDS" then some s₂
    else if k = "MAX_SYNC_TOKEN_TTL_SECONDS" then some s₃ else some s₄, ?_⟩
  simp [loadConfig, readSecs, h₁, h₂, h₃, h₄]

example : (loadConfig fun k =>
    if k = "SESSION_TTL_SECONDS" then some "+60" else some "soon").sessionTtlSeconds = 60 := by
  decide

end EdgeReplica
