-- SUMMARY: The expiries that are computed from configured lifetimes: which configurations keep them in range, and what is issued alive.
import EdgeReplica.Repo.D1
import EdgeReplica.Services.Lifetimes
import EdgeReplica.Services.OAuth
import EdgeReplica.Worker.LoadConfig

/-!
# Expiries

An expiry is the clock plus a lifetime, and additions wrap. The lifetimes are configured
without a bound, so that the largest ones end up in the past. OAuth states go through a
repository that reads a time back only if it is safe in a double.
-/

namespace EdgeReplica

open Domain (OAuthState)
open Effect (bind_eq_ok)
open SessionAuth (authenticate)
open Sql (ScanOrder Table)
open Tokens (untilExpiry)

/-- `now_unix_seconds` of a clock. -/
def nowUnixSeconds (nowMs : Int64) : Int64 := nowMs / 1000

/-- The last millisecond of the year 9999. -/
def lastMs : Int64 := 253402300799999

/-- The addition does not overflow. -/
def Fits (a b : Int64) : Prop := (a + b).toInt = a.toInt + b.toInt

instance (a b : Int64) : Decidable (Fits a b) := inferInstanceAs (Decidable (_ = _))

/-- To a time from 0 on, only a lifetime that is too long cannot be added. -/
theorem fits_iff {a b : Int64} (ha : 0 ≤ a.toInt) : Fits a b ↔ a.toInt + b.toInt < 2 ^ 63 := by
  have hlow := b.le_toInt
  have hsum := (a + b).toInt_lt
  unfold Fits
  constructor
  · intro h
    rwa [h] at hsum
  · intro h
    rw [Int64.toInt_add, Int.bmod_eq_of_le (by omega) (by omega)]

/-! ## OAuth states -/

namespace OAuth

/-- The lifetime of a state, in milliseconds. -/
def stateTtlMs (config : Config) : Int64 :=
  Int64.ofIntClamp (config.oauthStateTtlSeconds.toInt * 1000)

/-- The state of a request to start. -/
def newState (config : Config) (nowMs : Int64) (generated provider : String) : OAuthState where
  state := generated
  provider := provider
  createdAtMs := nowMs
  expiresAtMs := nowMs + stateTtlMs config

/-- What `start` stores is a new state. -/
theorem state_of_start {config : Config} {nowMs : Int64} {generated provider : String}
    {state : OAuthState} {response : Pb.StartOAuthResponse}
    (h : start config nowMs generated provider = .ok (state, response)) :
    ∃ known : IdentityProvider, state = newState config nowMs generated known.asStr := by
  obtain ⟨known, -, h⟩ := bind_eq_ok.mp h
  obtain ⟨_, -, h⟩ := bind_eq_ok.mp h
  obtain ⟨_, -, h⟩ := bind_eq_ok.mp h
  obtain ⟨_, -, h⟩ := bind_eq_ok.mp h
  obtain ⟨rfl, -⟩ := Prod.mk.inj (Except.ok.inj h)
  exact ⟨known, rfl⟩

end OAuth

namespace D1Repo

variable [ScanOrder]

/-- Store a state, and consume it at that time. -/
def storeThenConsume (state : OAuthState) (nowMs : Int64) : D1M (Option OAuthState) := do
  storeOAuthState state
  consumeOAuthState state.state nowMs

/-- A state that was not stored before is read back as it was bound. -/
theorem run_storeThenConsume {d : D1Repo} {state : OAuthState}
    (hnew : ∀ row ∈ d.oauthStates, row.state ≠ state.state) (nowMs : Int64) :
    ∃ d', (storeThenConsume state nowMs).run d =
      match (OAuthStateRow.mk state.state state.provider (ms state.createdAtMs)
          (ms state.expiresAtMs)).into with
      | .error e => .error e d'
      | .ok s => .ok (if s.expiresAtMs < nowMs then none else some s) d' := by
  generalize hrow : OAuthStateRow.mk state.state state.provider (ms state.createdAtMs)
    (ms state.expiresAtMs) = row
  have hstate : row.state = state.state := by rw [← hrow]
  have hviolation : oauthStatesTable.violation row d = none := by
    rw [Table.violation_eq_none]
    refine ⟨fun rule hrule old hold => ?_, rfl⟩
    obtain rfl := List.mem_singleton.mp hrule
    exact decide_eq_false fun heq => hnew old hold (heq.trans hstate)
  have hstored : (storeOAuthState state).run d = .ok () (oauthStatesTable.add row d) := by
    rw [storeOAuthState, hrow]
    exact run_exec_insert_new d hviolation
  have hfind : (ScanOrder.scan (oauthStatesTable.add row d).oauthStates).find?
      (fun r => r.state = state.state) = some row := by
    have hmem : ∀ r, r ∈ ScanOrder.scan (oauthStatesTable.add row d).oauthStates ↔
        r ∈ d.oauthStates ∨ r = row := fun r =>
      ((ScanOrder.scan_perm _).mem_iff).trans
          (List.mem_append.trans (or_congr_right List.mem_singleton))
    cases hfound : (ScanOrder.scan (oauthStatesTable.add row d).oauthStates).find?
        (fun r => r.state = state.state) with
    | none =>
      have hnot := List.find?_eq_none.mp hfound row ((hmem row).mpr (.inr rfl))
      exact absurd (decide_eq_true hstate) hnot
    | some r =>
      have hr := of_decide_eq_true (List.find?_some (p := fun r : OAuthStateRow =>
        decide (r.state = state.state)) hfound)
      rcases (hmem r).mp (List.mem_of_find?_eq_some hfound) with hold | rfl
      · exact absurd hr (hnew r hold)
      · rfl
  refine ⟨(oauthStatesTable.add row d).withoutOAuthState state.state, ?_⟩
  have hconsumed := run_consumeOAuthState (oauthStatesTable.add row d) state.state nowMs
  rw [hfind] at hconsumed
  rw [storeThenConsume, EStateM.run_bind, hstored]
  refine hconsumed.trans ?_
  cases hinto : row.into with
  | error e => simp only [hinto]
  | ok s => simp only [hinto]

omit [ScanOrder] in
/-- A time is read back if it is safe. -/
theorem asI64_ms {x : Int64} : (∃ y, asI64 (ms x) = .ok y) ↔ Double.IsSafe x.toInt := by
  rw [← Double.isSafe_ofInt, asI64, ms]
  split
  case isTrue hsafe => exact iff_of_true ⟨_, rfl⟩ hsafe
  case isFalse hunsafe =>
    refine iff_of_false ?_ hunsafe
    rintro ⟨y, hy⟩
    cases hy

/-- A state is accepted if its times are read back and it has not expired. -/
theorem storeThenConsume_eq_some {d : D1Repo} {state : OAuthState}
    (hnew : ∀ row ∈ d.oauthStates, row.state ≠ state.state) (nowMs : Int64) :
    (∃ s d', (storeThenConsume state nowMs).run d = .ok (some s) d') ↔
      Double.IsSafe state.createdAtMs.toInt ∧ Double.IsSafe state.expiresAtMs.toInt ∧
        nowMs ≤ state.expiresAtMs := by
  obtain ⟨d', hrun⟩ := run_storeThenConsume hnew nowMs
  rw [hrun, ← asI64_ms, ← asI64_ms]
  constructor
  · rintro ⟨s, d'', h⟩
    split at h
    case h_1 => cases h
    case h_2 s' hinto =>
      obtain rfl := OAuthStateRow.eq_of_into hinto
      obtain ⟨created, hcreated, hinto⟩ := bind_eq_ok.mp hinto
      obtain ⟨expires, hexpires, -⟩ := bind_eq_ok.mp hinto
      refine ⟨⟨created, hcreated⟩, ⟨expires, hexpires⟩, ?_⟩
      by_contra hexpired
      rw [if_pos (Int64.not_le.mp hexpired)] at h
      cases h
  · rintro ⟨⟨created, hcreated⟩, ⟨expires, hexpires⟩, halive⟩
    obtain rfl := eq_of_asI64_ms hcreated
    obtain rfl := eq_of_asI64_ms hexpires
    refine ⟨state, d', ?_⟩
    rw [OAuthStateRow.into, hcreated, hexpires]
    show EStateM.Result.ok (if state.expiresAtMs < nowMs then none else some state) d' = _
    rw [if_neg (Int64.not_lt.mpr halive)]

end D1Repo

/-! ## What is issued -/

/-- The additions of the three ways to an expiry. -/
structure NoOverflow (config : Config) (nowMs ttlSeconds : Int64) : Prop where
  session : Fits (nowUnixSeconds nowMs) config.sessionTtlSeconds
  sync : Fits (nowUnixSeconds nowMs) (AdminServer.syncTtl config ttlSeconds)
  oauthState : Fits nowMs (OAuth.stateTtlMs config)

/-- What is issued for a lifetime that is positive is good when it is issued. -/
structure IssuedAlive [TokenClaimsCodec] [HashOrder] [ScanOrder] (config : Config)
    (nowMs ttlSeconds : Int64) : Prop where
  session : 0 < config.sessionTtlSeconds →
    ∀ (keyring : Keyring) (env : Env) (user : Domain.User) (s s' : AdminServer)
      (issued : Macaroon × Domain.Organization × Role),
      env.nowUnix = nowUnixSeconds nowMs → AdminServer.Named s.repo → user.id.asStr ≠ "" →
      user.email ≠ "" →
      (AdminServer.issueSessionFor ⟨keyring, config⟩ env user).run s = .ok issued s' →
      ∃ ctx, Tokens.verifySession keyring (nowUnixSeconds nowMs) (.ok issued.1) = .ok ctx
  sync : 0 < AdminServer.syncTtl config ttlSeconds →
    ∀ (keyring : Keyring) (env : Env) (t₀ : Int64) (token : Option Token) (databaseId : String)
      (direction : Int32) (s s' : AdminServer) (response : Pb.IssueSyncTokenResponse),
      env.nowUnix = nowUnixSeconds nowMs → AdminServer.Named s.repo →
      (AdminServer.issueSyncToken ⟨keyring, config⟩ env (authenticate keyring t₀ token) databaseId
        direction ttlSeconds).run s = .ok response s' →
      ∃ ctx, Tokens.verifySync keyring (nowUnixSeconds nowMs) (.ok response.token) = .ok ctx
  oauthState : 0 < config.oauthStateTtlSeconds →
    ∀ (generated provider : String) (d : D1Repo), (∀ row ∈ d.oauthStates, row.state ≠ generated) →
      ∃ state d', (D1Repo.storeThenConsume (OAuth.newState config nowMs generated provider)
        nowMs).run d = .ok (some state) d'

/-- Until the end of the year 9999, whatever lifetime is asked for. -/
def Sound [TokenClaimsCodec] [HashOrder] [ScanOrder] (config : Config) : Prop :=
  ∀ nowMs, 0 ≤ nowMs → nowMs ≤ lastMs → ∀ ttlSeconds,
    NoOverflow config nowMs ttlSeconds ∧ IssuedAlive config nowMs ttlSeconds

/-- The last second of the year 9999 plus any of the lifetimes of tokens is an `i64`, and its
last millisecond plus that of a state is safe in a double. -/
structure Bounded (config : Config) : Prop where
  session : config.sessionTtlSeconds ≤ 9223371783452475008
  sync : config.syncTokenTtlSeconds ≤ 9223371783452475008
  maxSync : config.maxSyncTokenTtlSeconds ≤ 9223371783452475008
  oauthState : config.oauthStateTtlSeconds ≤ 8753796953940

/-! ## Bounded lifetimes -/

section

variable {config : Config} {nowMs : Int64}

theorem toInt_nowUnixSeconds (h : 0 ≤ nowMs) :
    (nowUnixSeconds nowMs).toInt = nowMs.toInt / 1000 := by
  have hpos : 0 ≤ nowMs.toInt := Int64.le_iff_toInt_le.mp h
  have hmin : nowMs ≠ Int64.minValue := by
    rintro rfl
    exact absurd hpos (by decide)
  rw [nowUnixSeconds, Int64.toInt_div_of_ne_left _ _ hmin, Int.tdiv_eq_ediv_of_nonneg hpos]
  rfl

theorem toInt_ofIntClamp (x : Int) :
    (Int64.ofIntClamp x).toInt = max (-2 ^ 63) (min x (2 ^ 63 - 1)) := by
  have hmin : Int64.minValue.toInt = -2 ^ 63 := rfl
  have hmax : Int64.maxValue.toInt = 2 ^ 63 - 1 := rfl
  unfold Int64.ofIntClamp
  split
  case isTrue hlow =>
    split
    case isTrue hhigh =>
      rw [Int64.toInt_ofIntLE]
      omega
    case isFalse hhigh => omega
  case isFalse hlow => omega

/-- A clock that is in range, in milliseconds and in seconds. -/
theorem clock_bounds (hlow : 0 ≤ nowMs) (hhigh : nowMs ≤ lastMs) :
    0 ≤ nowMs.toInt ∧ nowMs.toInt ≤ 253402300799999 ∧
      (nowUnixSeconds nowMs).toInt = nowMs.toInt / 1000 :=
  ⟨Int64.le_iff_toInt_le.mp hlow, Int64.le_iff_toInt_le.mp hhigh, toInt_nowUnixSeconds hlow⟩

theorem syncTtl_le {b ttlSeconds : Int64} (hsync : config.syncTokenTtlSeconds ≤ b)
    (hmax : config.maxSyncTokenTtlSeconds ≤ b) : AdminServer.syncTtl config ttlSeconds ≤ b := by
  unfold AdminServer.syncTtl
  split
  case isTrue => exact hsync
  case isFalse => exact Int64.le_trans AdminServer.min_le_right hmax

theorem Bounded.noOverflow (h : Bounded config) (hlow : 0 ≤ nowMs) (hhigh : nowMs ≤ lastMs)
    (ttlSeconds : Int64) : NoOverflow config nowMs ttlSeconds := by
  obtain ⟨hzero, hlast, hunix⟩ := clock_bounds hlow hhigh
  have hadd : ∀ ttl : Int64, ttl ≤ 9223371783452475008 → Fits (nowUnixSeconds nowMs) ttl := by
    intro ttl httl
    have hle : ttl.toInt ≤ 9223371783452475008 := Int64.le_iff_toInt_le.mp httl
    rw [fits_iff (by omega)]
    omega
  refine ⟨hadd _ h.session, hadd _ (syncTtl_le h.sync h.maxSync), ?_⟩
  have hstate : config.oauthStateTtlSeconds.toInt ≤ 8753796953940 :=
    Int64.le_iff_toInt_le.mp h.oauthState
  rw [fits_iff hzero, OAuth.stateTtlMs, toInt_ofIntClamp]
  omega

end

/-- A sum that fits is later than the clock if the lifetime is positive. -/
theorem lt_add_of_fits {a b : Int64} (h : Fits a b) (hpos : 0 < b) : a < a + b := by
  have hb : 0 < b.toInt := Int64.lt_iff_toInt_lt.mp hpos
  rw [Int64.lt_iff_toInt_lt, h]
  omega

section

variable [TokenClaimsCodec] [HashOrder] [ScanOrder] {config : Config} {nowMs : Int64}

theorem Bounded.issuedAlive (h : Bounded config) (hlow : 0 ≤ nowMs) (hhigh : nowMs ≤ lastMs)
    (ttlSeconds : Int64) : IssuedAlive config nowMs ttlSeconds := by
  have hfits := h.noOverflow hlow hhigh ttlSeconds
  constructor
  · intro hpos keyring env user s s' issued hnow hnamed huser hemail hissued
    obtain ⟨ctx, hverify⟩ := AdminServer.verifySession_issued hnamed huser hemail hissued
    refine ⟨ctx, ?_⟩
    rw [hverify, hnow, untilExpiry, if_pos (lt_add_of_fits hfits.session hpos)]
  · intro hpos keyring env t₀ token databaseId direction s s' response hnow hnamed hissued
    obtain ⟨hexp, ctx, -, hverify⟩ := AdminServer.verifySync_issued hnamed hissued
    refine ⟨ctx, ?_⟩
    rw [hverify, hexp, hnow, untilExpiry, if_pos (lt_add_of_fits hfits.sync hpos)]
  · intro hpos generated provider d hnew
    obtain ⟨hzero, hlast, -⟩ := clock_bounds hlow hhigh
    have hstate : config.oauthStateTtlSeconds.toInt ≤ 8753796953940 :=
      Int64.le_iff_toInt_le.mp h.oauthState
    have hpositive : 0 < config.oauthStateTtlSeconds.toInt := Int64.lt_iff_toInt_lt.mp hpos
    have hexpires : (nowMs + OAuth.stateTtlMs config).toInt =
        nowMs.toInt + config.oauthStateTtlSeconds.toInt * 1000 := by
      rw [hfits.oauthState, OAuth.stateTtlMs, toInt_ofIntClamp]
      omega
    refine (D1Repo.storeThenConsume_eq_some hnew nowMs).mpr ⟨?_, ?_, ?_⟩
    · show nowMs.toInt.natAbs < 2 ^ 53
      omega
    · show (nowMs + OAuth.stateTtlMs config).toInt.natAbs < 2 ^ 53
      omega
    · show nowMs ≤ nowMs + OAuth.stateTtlMs config
      rw [Int64.le_iff_toInt_le]
      omega

/-- At the end of the year 9999 each bound is needed. -/
theorem bounded_of_sound (h : Sound config) : Bounded config := by
  have hlow : (0 : Int64) ≤ lastMs := by decide
  have hunix : (nowUnixSeconds lastMs).toInt = 253402300799 := rfl
  have hbound : ∀ ttl : Int64, Fits (nowUnixSeconds lastMs) ttl → ttl ≤ 9223371783452475008 := by
    intro ttl hfits
    have hsum := (fits_iff (by omega)).mp hfits
    rw [Int64.le_iff_toInt_le]
    show ttl.toInt ≤ 9223371783452475008
    omega
  have hasked : AdminServer.syncTtl config Int64.maxValue = config.maxSyncTokenTtlSeconds := by
    rw [AdminServer.syncTtl, if_neg (by decide)]
    change (if Int64.maxValue ≤ config.maxSyncTokenTtlSeconds then _ else _) = _
    split
    case isTrue hle => exact Int64.le_antisymm hle (Int64.le_iff_toInt_le.mpr (Int64.toInt_le _))
    case isFalse => rfl
  refine ⟨hbound _ (h lastMs hlow (Int64.le_refl _) 0).1.session,
    hbound _ (h lastMs hlow (Int64.le_refl _) 0).1.sync, ?_, ?_⟩
  · rw [← hasked]
    exact hbound _ (h lastMs hlow (Int64.le_refl _) Int64.maxValue).1.sync
  · by_contra hlong
    obtain ⟨hfits, halive⟩ := h lastMs hlow (Int64.le_refl _) 0
    have hlong : 8753796953940 < config.oauthStateTtlSeconds.toInt :=
      Int64.lt_iff_toInt_lt.mp (Int64.not_le.mp hlong)
    have hpos : 0 < config.oauthStateTtlSeconds := by
      rw [Int64.lt_iff_toInt_lt]
      show 0 < config.oauthStateTtlSeconds.toInt
      omega
    obtain ⟨-, hsafe, -⟩ := (D1Repo.storeThenConsume_eq_some (by nofun) lastMs).mp
      (halive.oauthState hpos "" "" .new (by nofun))
    have hexpires : (lastMs + OAuth.stateTtlMs config).toInt.natAbs < 2 ^ 53 := hsafe
    have hlast : lastMs.toInt = 253402300799999 := rfl
    rw [hfits.oauthState, OAuth.stateTtlMs, toInt_ofIntClamp] at hexpires
    omega

/-- The lifetimes that are configured are sound exactly if they are bounded. -/
theorem expiries_iff (vars : Vars) : Sound (loadConfig vars) ↔ Bounded (loadConfig vars) := by
  constructor
  · exact bounded_of_sound
  · intro h nowMs hlow hhigh ttlSeconds
    exact ⟨h.noOverflow hlow hhigh ttlSeconds, h.issuedAlive hlow hhigh ttlSeconds⟩

end

/-- The largest lifetime of a session that there is. -/
theorem expiries_overflow :
    letI := TokenClaimsCodec.protobuf
    letI := HashOrder.newestFirst
    letI := ScanOrder.oldestFirst
    ¬ Sound (loadConfig fun k =>
      if k = "SESSION_TTL_SECONDS" then some "9223372036854775807" else none) := by
  let _ := TokenClaimsCodec.protobuf
  let _ := HashOrder.newestFirst
  let _ := ScanOrder.oldestFirst
  intro h
  have hfits := (h 1000 (by decide) (by decide) 0).1.session
  exact absurd hfits (by decide)

end EdgeReplica
