-- SUMMARY: The two gates before a sync session: the worker's edge, which routes by the token, and the DurableObject's own.
import EdgeReplica.Middleware.Bearer
import EdgeReplica.Middleware.SessionAuth
import EdgeReplica.Worker.DoSyncWs

/-!
# The sync gates

The worker verifies a sync token, takes the database out of its claims and forwards
the upgrade to the DurableObject of that name. The object verifies the token once
more and spawns the session on its own storage. It does not know the name it is
addressed by, so it cannot compare it with the token's.
-/

namespace EdgeReplica

open Effect (okOr)

/-! ## Requests -/

/-- The headers that the gates read. Names are looked up whatever their case. -/
inductive HeaderName where
  | authorization
  | upgrade

/-- A request, by what `headers().get` answers. -/
structure Request where
  headers : HeaderName → Except String (Option String)

structure Response where
  status : UInt16
  body : String := ""
deriving DecidableEq

def Request.isWebsocketUpgrade (req : Request) : Bool :=
  match (req.headers .upgrade).toOption.join with
  | some s => Text.eqIgnoreAsciiCase s "websocket"
  | none => false

/-- The token of a header. Where `extract_bearer` panics the request ends without one. -/
def bearerToken (raw : String) : Option String := (Middleware.extractBearer raw).join

/-- The token of the request, as text. -/
def Request.bearer (req : Request) : Option String :=
  (req.headers .authorization).toOption.join.bind bearerToken

theorem Request.bearer_eq_some {req : Request} {text : String} :
    req.bearer = some text ↔
      ∃ raw, req.headers .authorization = .ok (some raw) ∧ bearerToken raw = some text := by
  unfold bearer
  cases req.headers .authorization with
  | error e => simp [Except.toOption]
  | ok header => cases header <;> simp [Except.toOption]

/-- What the gates call and is not in the source, or not part of their logic. -/
structure Platform (σ : Type) where
  /-- `Macaroon::deserialize`. -/
  deserialize : String → Token
  /-- The text of a caveat in an error of the macaroon library. -/
  caveatText : Caveat → String
  /-- `do_migrations::ensure_schema`. -/
  ensureSchema : Int64 → EStateM String σ Unit
  /-- `WebSocketPair::new` and `accept`; the socket refuses these frames. -/
  webSocketPair : Except String (Nat → Bool)
  /-- The binding of the namespace, and `get_by_name`. -/
  stub : DatabaseId → Except String Unit

/-- The token of the request, deserialized. -/
def Request.token {σ : Type} (platform : Platform σ) (req : Request) : Option Token :=
  req.bearer.map platform.deserialize

variable {σ : Type} [TokenClaimsCodec]

/-! ## The DurableObject -/

/-- `EdgeReplica`: one instance for each database, addressed by its name. -/
structure EdgeReplicaObject (σ : Type) where
  sql : σ
  keyring : Keyring
  /-- Has this instance migrated its own database? -/
  schemaReady : Bool := false

namespace DoSyncWs

def verifyToken (platform : Platform σ) (keyring : Keyring) (nowUnix : Int64) (req : Request) :
    Except UInt16 SyncContext := do
  let header ← (req.headers .authorization).mapError fun _ => 400
  let raw ← okOr header 401
  let token ← okOr (bearerToken raw) 401
  (Tokens.verifySync keyring nowUnix (platform.deserialize token)).mapError fun _ => 401

/-- The answer to an upgrade, and the session it spawns. -/
def handleUpgrade (platform : Platform σ) (sql : σ) (nowUnix : Int64) (keyring : Keyring)
    (req : Request) : Except String (Response × Option (SessionTask σ)) :=
  match verifyToken platform keyring nowUnix req with
  | .error status => .ok (⟨status, "invalid sync token"⟩, none)
  | .ok ctx => do
    let refuses ← platform.webSocketPair
    return ({ status := 101 }, some (SessionTask.spawn ctx.direction sql refuses))

end DoSyncWs

namespace EdgeReplicaObject

def ensureSchema (platform : Platform σ) (nowMs : Int64) :
    EStateM String (EdgeReplicaObject σ) Unit := fun self =>
  if self.schemaReady then .ok () self
  else
    match (platform.ensureSchema nowMs).run self.sql with
    | .ok _ sql => .ok () { self with sql, schemaReady := true }
    | .error e sql => .error s!"schema: {e}" { self with sql }

/-- The object's `fetch`. -/
def fetch (platform : Platform σ) (nowMs nowUnix : Int64) (req : Request) :
    EStateM String (EdgeReplicaObject σ) (Response × Option (SessionTask σ)) := do
  ensureSchema platform nowMs
  if req.isWebsocketUpgrade then
    let self ← get
    MonadExcept.ofExcept (DoSyncWs.handleUpgrade platform self.sql nowUnix self.keyring req)
  else
    return (⟨400, "EdgeReplica DO accepts only WebSocket upgrades"⟩, none)

end EdgeReplicaObject

/-! ## The worker -/

/-- The instances, by the names they are addressed by. -/
abbrev ObjectNamespace (σ : Type) := DatabaseId → EdgeReplicaObject σ

/-- The text of an error. -/
def TokenError.text (caveatText : Caveat → String) : TokenError → String
  | .malformed message => s!"malformed token: {message}"
  | .expired => "token expired"
  | .invalidSignature => "invalid signature"
  | .wrongPurpose expected found =>
    s!"wrong token purpose: expected {expected.asStr}, got {found}"
  | .missingClaim claim => s!"missing claim: {claim}"
  | .invalidClaim message => s!"invalid claim: {message}"
  | .unexpectedCaveat caveat => s!"unexpected caveat on token: {caveatText caveat}"

namespace SyncForward

def unauthorized (message : String) : Response := ⟨401, message⟩

def verifyRequest (platform : Platform σ) (keyring : Keyring) (nowUnix : Int64) (req : Request) :
    Except Response SyncContext := do
  let token ← okOr req.bearer (unauthorized "missing bearer token")
  (Tokens.verifySync keyring nowUnix (platform.deserialize token)).mapError fun e =>
    unauthorized s!"invalid sync token: {e.text platform.caveatText}"

/-- Forward a request to the instance that its token names. A session comes with the
name of the instance it runs in. -/
def forward (platform : Platform σ) (keyring : Keyring) (workerNow nowMs nowUnix : Int64)
    (req : Request) :
    EStateM String (ObjectNamespace σ) (Response × Option (DatabaseId × SessionTask σ)) := fun ns =>
  match verifyRequest platform keyring workerNow req with
  | .error response => .ok (response, none) ns
  | .ok ctx =>
    match platform.stub ctx.database with
    | .error e => .error e ns
    | .ok _ =>
      match (EdgeReplicaObject.fetch platform nowMs nowUnix req).run (ns ctx.database) with
      | .ok (response, session) self =>
        .ok (response, session.map fun task => (ctx.database, task))
          (Function.update ns ctx.database self)
      | .error e self => .error e (Function.update ns ctx.database self)

end SyncForward

/-! ## What a session was opened with -/

/-- The object accepts the token of the request: this is the context of its session. -/
structure Admits (platform : Platform σ) (keyring : Keyring) (nowUnix : Int64) (req : Request)
    (m : Macaroon) (ctx : SyncContext) : Prop where
  token : req.token platform = some (.ok m)
  verified : Tokens.verifySync keyring nowUnix (.ok m) = .ok ctx

theorem admits_of_verified {platform : Platform σ} {keyring : Keyring} {nowUnix : Int64}
    {req : Request} {text : String} {ctx : SyncContext} (htext : req.bearer = some text)
    (h : Tokens.verifySync keyring nowUnix (platform.deserialize text) = .ok ctx) :
    ∃ m, Admits platform keyring nowUnix req m ctx := by
  obtain ⟨m, -, htoken, -⟩ := Tokens.verifySync_eq_ok.mp h
  rw [htoken] at h
  exact ⟨m, by rw [Request.token, htext, Option.map_some, htoken], h⟩

namespace DoSyncWs

theorem verifyToken_eq_ok {platform : Platform σ} {keyring : Keyring} {nowUnix : Int64}
    {req : Request} {ctx : SyncContext} :
    verifyToken platform keyring nowUnix req = .ok ctx ↔
      ∃ text, req.bearer = some text ∧
        Tokens.verifySync keyring nowUnix (platform.deserialize text) = .ok ctx := by
  unfold verifyToken
  simp only [Effect.bind_eq_ok, Effect.mapError_eq_ok, Effect.okOr_eq_ok, Request.bearer_eq_some]
  constructor
  · rintro ⟨header, hheader, raw, rfl, text, htext, h⟩
    exact ⟨text, ⟨raw, hheader, htext⟩, h⟩
  · rintro ⟨text, ⟨raw, hheader, htext⟩, h⟩
    exact ⟨some raw, hheader, raw, rfl, text, htext, h⟩

theorem session_of_handleUpgrade {platform : Platform σ} {sql : σ} {nowUnix : Int64}
    {keyring : Keyring} {req : Request} {response : Response} {task : SessionTask σ}
    (h : handleUpgrade platform sql nowUnix keyring req = .ok (response, some task)) :
    ∃ m ctx refuses, Admits platform keyring nowUnix req m ctx ∧
      task = SessionTask.spawn ctx.direction sql refuses := by
  unfold handleUpgrade at h
  split at h
  · cases h
  · next ctx hverified =>
    obtain ⟨text, htext, hverify⟩ := verifyToken_eq_ok.mp hverified
    obtain ⟨m, hadmits⟩ := admits_of_verified htext hverify
    cases hpair : platform.webSocketPair with
    | error e => rw [hpair] at h; cases h
    | ok refuses =>
      rw [hpair] at h
      cases h
      exact ⟨m, ctx, refuses, hadmits, rfl⟩

end DoSyncWs

namespace EdgeReplicaObject

variable {platform : Platform σ} {nowMs nowUnix : Int64} {req : Request}
  {self self' : EdgeReplicaObject σ} {response : Response} {task : SessionTask σ}

omit [TokenClaimsCodec] in
theorem ensureSchema_keyring (h : (ensureSchema platform nowMs).run self = .ok () self') :
    self'.keyring = self.keyring := by
  change ensureSchema platform nowMs self = .ok () self' at h
  unfold ensureSchema at h
  split at h
  · obtain ⟨-, rfl⟩ := EStateM.Result.ok.inj h
    rfl
  · split at h
    · obtain ⟨-, rfl⟩ := EStateM.Result.ok.inj h
      rfl
    · cases h

/-- A session comes of an accepted token, and runs in its direction on the object's own
storage. -/
theorem session_of_fetch
    (h : (fetch platform nowMs nowUnix req).run self = .ok (response, some task) self') :
    ∃ m ctx refuses, Admits platform self.keyring nowUnix req m ctx ∧
      task = SessionTask.spawn ctx.direction self'.sql refuses := by
  unfold fetch at h
  rw [EStateM.run_bind] at h
  cases hschema : (ensureSchema platform nowMs).run self with
  | error e s => simp [hschema] at h
  | ok u s =>
    have hkeyring := ensureSchema_keyring hschema
    rw [hschema] at h
    dsimp only at h
    by_cases hupgrade : req.isWebsocketUpgrade = true
    · rw [if_pos hupgrade, EStateM.run_bind, EStateM.run_get] at h
      dsimp only at h
      cases hhandled : DoSyncWs.handleUpgrade platform s.sql nowUnix s.keyring req with
      | error e => rw [hhandled] at h; cases h
      | ok answer =>
        rw [hhandled] at h
        obtain ⟨rfl, rfl⟩ := EStateM.Result.ok.inj h
        obtain ⟨m, ctx, refuses, hadmits, htask⟩ := DoSyncWs.session_of_handleUpgrade hhandled
        exact ⟨m, ctx, refuses, hkeyring ▸ hadmits, htask⟩
    · rw [if_neg hupgrade] at h
      cases h

/-- An upgrade whose token is accepted gets its session. -/
theorem fetch_of_admits {m : Macaroon} {ctx : SyncContext} {refuses : Nat → Bool}
    (hschema : self.schemaReady = true) (hupgrade : req.isWebsocketUpgrade = true)
    (h : Admits platform self.keyring nowUnix req m ctx)
    (hpair : platform.webSocketPair = .ok refuses) :
    (fetch platform nowMs nowUnix req).run self =
      .ok ({ status := 101 }, some (SessionTask.spawn ctx.direction self.sql refuses)) self := by
  obtain ⟨text, htext, hm⟩ := Option.map_eq_some_iff.mp h.token
  have hverified : DoSyncWs.verifyToken platform self.keyring nowUnix req = .ok ctx :=
    DoSyncWs.verifyToken_eq_ok.mpr ⟨text, htext, by rw [hm]; exact h.verified⟩
  have hready : (ensureSchema platform nowMs).run self = .ok () self := by
    show ensureSchema platform nowMs self = _
    rw [ensureSchema, if_pos hschema]
  rw [fetch, EStateM.run_bind, hready]
  dsimp only
  rw [if_pos hupgrade, EStateM.run_bind, EStateM.run_get]
  dsimp only
  rw [DoSyncWs.handleUpgrade, hverified, hpair]
  rfl

end EdgeReplicaObject

/-! ## The databases of tokens -/

/-- The token was signed for the database. -/
def SignedFor (m : Macaroon) (database : DatabaseId) : Prop :=
  ∃ claims, TokenClaimsCodec.decodeFromSlice m.identifier = .ok claims ∧
    claims.databaseId = database.asStr

open Macaroons (Derivable)
open Tokens (MintSessionInput MintSyncInput issued mintSync expiries)

/-- The token continues a sync token that was minted for this database and direction, and
its effective expiry is to come. -/
structure Granted (keyring : Keyring) (syncs : Set MintSyncInput) (nowUnix : Int64) (m : Macaroon)
    (database : DatabaseId) (direction : Direction) : Prop where
  minted : ∃ input ∈ syncs, input.database = database ∧ input.direction = direction ∧
    (mintSync keyring input).identifier = m.identifier ∧
    (mintSync keyring input).caveats <+: m.caveats
  valid : ∃ expUnix, (expiries m.caveats).min? = some expUnix ∧ nowUnix < expUnix

/-- A token that is accepted was signed for the database it is accepted for. -/
theorem Admits.signedFor {platform : Platform σ} {keyring : Keyring} {nowUnix : Int64}
    {req : Request} {m : Macaroon} {ctx : SyncContext}
    (h : Admits platform keyring nowUnix req m ctx) : SignedFor m ctx.database := by
  obtain ⟨_, claims, ⟨⟩, haccepted, -, -, -, -, -, -, -, hdatabase⟩ :=
    Tokens.verifySync_eq_ok.mp h.verified
  exact ⟨claims, haccepted.decoded, by rw [hdatabase]⟩

section

variable {platform : Platform σ} {keyring : Keyring} {own : Set MacaroonKey}
  {sessions : Set MintSessionInput} {syncs : Set MintSyncInput} {nowUnix : Int64} {req : Request}
  {m : Macaroon} {ctx : SyncContext}

/-- Whatever was derived, an accepted token continues a sync token that was minted for the
database in its own claims. -/
theorem Admits.granted (h : Admits platform keyring nowUnix req m ctx) (hown : keyring.root ∉ own)
    (hm : Derivable (issued keyring sessions syncs) own m) :
    Granted keyring syncs nowUnix m ctx.database ctx.direction := by
  obtain ⟨_, claims, ⟨⟩, haccepted, -⟩ := Tokens.verifySync_eq_ok.mp h.verified
  obtain ⟨input, hinput, hfrom, hcontinues⟩ := Tokens.verifySync_of_derivable hown hm h.verified
  exact ⟨⟨input, hinput, hfrom.database.symm, hfrom.direction.symm, hcontinues.identifier,
    hcontinues.caveats⟩, ctx.expUnix, haccepted.earliest, haccepted.valid⟩

/-- So it is granted for a database exactly if that is the one it was signed for. -/
theorem Admits.granted_iff (h : Admits platform keyring nowUnix req m ctx)
    (hown : keyring.root ∉ own) (hm : Derivable (issued keyring sessions syncs) own m)
    (database : DatabaseId) :
    Granted keyring syncs nowUnix m database ctx.direction ↔ SignedFor m database := by
  obtain ⟨claims, hdecoded, hname⟩ := h.signedFor
  constructor
  · intro hother
    obtain ⟨input, -, rfl, -, hid, -⟩ := hother.minted
    refine ⟨input.claims, ?_, rfl⟩
    rw [← hid]
    exact TokenClaimsCodec.decode_encode input.claims
  · rintro ⟨claims', hdecoded', hname'⟩
    obtain rfl : claims = claims' := Except.ok.inj (hdecoded.symm.trans hdecoded')
    obtain rfl : ctx.database = database := DatabaseId.ext (hname.symm.trans hname')
    exact h.granted hown hm

end

/-- The worker forwards a request only to the instance that its token was signed for. -/
theorem forward_signedFor {platform : Platform σ} {keyring : Keyring}
    {workerNow nowMs nowUnix : Int64} {req : Request} {ns ns' : ObjectNamespace σ}
    {response : Response} {database : DatabaseId} {task : SessionTask σ}
    (h : (SyncForward.forward platform keyring workerNow nowMs nowUnix req).run ns =
      .ok (response, some (database, task)) ns') :
    ∃ m, req.token platform = some (.ok m) ∧ SignedFor m database := by
  change SyncForward.forward platform keyring workerNow nowMs nowUnix req ns = _ at h
  unfold SyncForward.forward at h
  split at h
  · cases h
  · next ctx hverified =>
    obtain ⟨text, htext, hverify⟩ := Effect.bind_eq_ok.mp hverified
    obtain ⟨m, hadmits⟩ := admits_of_verified (Effect.okOr_eq_ok.mp htext)
      (Effect.mapError_eq_ok.mp hverify)
    split at h
    · cases h
    · split at h
      · next response' session self hfetch =>
        obtain ⟨hanswer, -⟩ := EStateM.Result.ok.inj h
        obtain ⟨task', -, hsession⟩ := Option.map_eq_some_iff.mp (Prod.mk.inj hanswer).2
        obtain rfl : ctx.database = database := (Prod.mk.inj hsession).1
        exact ⟨m, hadmits.token, hadmits.signedFor⟩
      · cases h

/-- Exactly the sessions whose token was signed for the database of the instance are ones
that `mint_sync` was called for, with this database and in this direction. -/
theorem inner_gate_iff (platform : Platform σ) (ns : ObjectNamespace σ) (database : DatabaseId)
    (nowMs nowUnix : Int64) (req : Request) {own : Set MacaroonKey}
    {sessions : Set MintSessionInput} {syncs : Set MintSyncInput} {m : Macaroon}
    {response : Response} {task : SessionTask σ} {self : EdgeReplicaObject σ}
    (hown : (ns database).keyring.root ∉ own) (htoken : req.token platform = some (.ok m))
    (hm : Derivable (issued (ns database).keyring sessions syncs) own m)
    (hsession : (EdgeReplicaObject.fetch platform nowMs nowUnix req).run (ns database) =
      .ok (response, some task) self) :
    Granted (ns database).keyring syncs nowUnix m database task.world.fsm.direction ↔
      SignedFor m database := by
  obtain ⟨m', ctx, refuses, hadmits, rfl⟩ := EdgeReplicaObject.session_of_fetch hsession
  obtain rfl : m = m' := by
    have htoken' := hadmits.token
    rw [htoken] at htoken'
    exact Except.ok.inj (Option.some.inj htoken')
  exact hadmits.granted_iff hown hm database

section Samples

omit [TokenClaimsCodec]

def sampleUpgradeInput : MintSyncInput where
  userId := ⟨"u_1"⟩
  org := ⟨"o_1"⟩
  database := ⟨"d_1"⟩
  direction := .push
  nowUnix := 0
  ttlSeconds := 3600

/-- A platform on which the text of this one token is `t`. -/
def samplePlatform (token : Macaroon) : Platform InMemorySyncStorage where
  deserialize text := if text = "t" then .ok token else .error "malformed"
  caveatText _ := ""
  ensureSchema _ := pure ()
  webSocketPair := .ok fun _ => false
  stub _ := .ok ()

def sampleUpgrade : Request where
  headers
    | .authorization => .ok (some "Bearer t")
    | .upgrade => .ok (some "WebSocket")

def sampleNamespace : ObjectNamespace InMemorySyncStorage :=
  fun _ => ⟨(∅ : Pages), ⟨Tokens.sampleKey 0⟩, true⟩

/-- Any instance opens a session for the token. -/
theorem sample_session (database : DatabaseId) :
    letI := TokenClaimsCodec.protobuf
    letI token := mintSync ⟨Tokens.sampleKey 0⟩ sampleUpgradeInput
    sampleUpgrade.token (samplePlatform token) = some (.ok token) ∧
    (EdgeReplicaObject.fetch (samplePlatform token) 0 100 sampleUpgrade).run
        (sampleNamespace database) =
      .ok ({ status := 101 }, some (SessionTask.spawn .push (∅ : Pages) fun _ => false))
        (sampleNamespace database) := by
  let _ := TokenClaimsCodec.protobuf
  have htext : sampleUpgrade.bearer = some "t" := by decide +kernel
  have htoken : sampleUpgrade.token
      (samplePlatform (mintSync ⟨Tokens.sampleKey 0⟩ sampleUpgradeInput)) =
      some (.ok (mintSync ⟨Tokens.sampleKey 0⟩ sampleUpgradeInput)) := by
    rw [Request.token, htext]
    rfl
  have hverify : Tokens.verifySync ⟨Tokens.sampleKey 0⟩ 100
      (.ok (mintSync ⟨Tokens.sampleKey 0⟩ sampleUpgradeInput)) =
      .ok ⟨⟨"u_1"⟩, ⟨"o_1"⟩, ⟨"d_1"⟩, .push, 3600⟩ := by decide +kernel
  have hadmits : Admits (samplePlatform (mintSync ⟨Tokens.sampleKey 0⟩ sampleUpgradeInput))
      (sampleNamespace database).keyring 100 sampleUpgrade
      (mintSync ⟨Tokens.sampleKey 0⟩ sampleUpgradeInput)
      ⟨⟨"u_1"⟩, ⟨"o_1"⟩, ⟨"d_1"⟩, .push, 3600⟩ := ⟨htoken, hverify⟩
  have hupgrade : sampleUpgrade.isWebsocketUpgrade = true := by decide +kernel
  exact ⟨htoken, EdgeReplicaObject.fetch_of_admits rfl hupgrade hadmits rfl⟩

/-- The instance of the token's own database. -/
theorem inner_gate_own :
    letI := TokenClaimsCodec.protobuf
    Granted ⟨Tokens.sampleKey 0⟩ {sampleUpgradeInput} 100
      (mintSync ⟨Tokens.sampleKey 0⟩ sampleUpgradeInput) ⟨"d_1"⟩ .push := by
  let _ := TokenClaimsCodec.protobuf
  have hown : Tokens.sampleKey 0 ∉ ({Tokens.sampleKey 1} : Set MacaroonKey) := by
    rw [Set.mem_singleton_iff]
    decide
  obtain ⟨htoken, hsession⟩ := sample_session ⟨"d_1"⟩
  have hm : Derivable (issued ⟨Tokens.sampleKey 0⟩ ∅ {sampleUpgradeInput}) {Tokens.sampleKey 1}
      (mintSync ⟨Tokens.sampleKey 0⟩ sampleUpgradeInput) :=
    .held (.inr ⟨sampleUpgradeInput, Set.mem_singleton _, rfl⟩)
  have hsigned : SignedFor (mintSync ⟨Tokens.sampleKey 0⟩ sampleUpgradeInput) ⟨"d_1"⟩ :=
    ⟨_, TokenClaimsCodec.decode_encode sampleUpgradeInput.claims, rfl⟩
  exact (inner_gate_iff _ sampleNamespace ⟨"d_1"⟩ 0 100 _ hown htoken hm hsession).mpr hsigned

/-- The instance of another database opens a session for it too. -/
theorem inner_gate_other :
    letI := TokenClaimsCodec.protobuf
    ¬ ∀ (platform : Platform InMemorySyncStorage) (ns : ObjectNamespace InMemorySyncStorage)
        (database : DatabaseId) (nowMs nowUnix : Int64) (req : Request) (own : Set MacaroonKey)
        (sessions : Set MintSessionInput) (syncs : Set MintSyncInput) (m : Macaroon)
        (response : Response) (task : SessionTask InMemorySyncStorage)
        (self : EdgeReplicaObject InMemorySyncStorage),
      (ns database).keyring.root ∉ own → req.token platform = some (.ok m) →
      Derivable (issued (ns database).keyring sessions syncs) own m →
      (EdgeReplicaObject.fetch platform nowMs nowUnix req).run (ns database) =
        .ok (response, some task) self →
      (∃ input ∈ syncs, input.database = database ∧
        input.direction = task.world.fsm.direction) ∧
      ∃ expUnix, (expiries m.caveats).min? = some expUnix ∧ nowUnix < expUnix := by
  let _ := TokenClaimsCodec.protobuf
  intro h
  have hown : Tokens.sampleKey 0 ∉ ({Tokens.sampleKey 1} : Set MacaroonKey) := by
    rw [Set.mem_singleton_iff]
    decide
  obtain ⟨htoken, hsession⟩ := sample_session ⟨"d_2"⟩
  obtain ⟨⟨input, hinput, hdatabase, -⟩, -⟩ := h _ sampleNamespace ⟨"d_2"⟩ 0 100 _
    {Tokens.sampleKey 1} ∅ {sampleUpgradeInput} _ _ _ _ hown htoken
    (.held (.inr ⟨sampleUpgradeInput, Set.mem_singleton _, rfl⟩)) hsession
  rw [Set.mem_singleton_iff.mp hinput] at hdatabase
  exact absurd hdatabase (by decide)

end Samples

end EdgeReplica
