-- SUMMARY: The whole deployment, the worker and its objects, under requests, frames and restarts: schema and recovery.
import EdgeReplica.Lib.Machine
import EdgeReplica.Services.AdminTurns
import EdgeReplica.Worker.DoMigrations
import EdgeReplica.Worker.Routes

/-!
# The deployment

The worker answers static routes itself, starts RPCs on the admin service over D1, and
forwards sync upgrades to the object that their token names. Requests, the turns of RPCs,
frames and restarts come in any order. No session runs on a database without its tables, and
whatever has failed so far, an object serves again once its database does.
-/

namespace EdgeReplica

open DoMigrations (Migrated Quiet)
open Effect (Outcome)
open EdgeReplicaObject (Ready Kept)
open Sql (ScanOrder)

/-! ## The worker -/

def SyncForward.SYNC_PATH : String := "/sync"

namespace Worker

/-- A request, by what the parts of the worker make of it. -/
structure HttpRequest where
  method : Routes.Method
  path : String
  query : Option String := none
  head : Request
  /-- The RPC that the service decodes. -/
  rpc : Except ConnectError AdminService.Request

/-- What a request meets: what `build_state` comes to, and what is read and drawn for it. -/
structure Moment where
  buildState : Except String Unit := .ok ()
  /-- By the layer that authenticates RPCs. -/
  sessionNow : Int64
  /-- By the handler of an RPC, before it first awaits anything. -/
  nowMs : Int64
  salt : String
  generated : String
  /-- By the worker, before it forwards. -/
  syncNow : Int64
  /-- By the object. -/
  objectNowMs : Int64
  objectNow : Int64

/-- What stays the same over the life of a deployment. -/
structure Site where
  app : AppState
  platform : Platform SqlStorage

inductive Answer where
  | page (page : Routes.Page)
  | sync (response : Response)
  /-- The RPC is under way. -/
  | rpc (task : AdminService.Task)

section

variable [TokenClaimsCodec] [Argon2]

/-- The RPC, as it reaches the handlers behind the layer. -/
def call (site : Site) (moment : Moment) (head : Request) (request : AdminService.Request) :
    AdminService.Call where
  ctx := SessionAuth.authenticate site.app.keyring moment.sessionNow (head.token site.platform)
  nowMs := moment.nowMs
  salt := moment.salt
  generated := moment.generated
  request := request

def callAdmin (site : Site) (moment : Moment) (req : HttpRequest) : AdminService.Task :=
  match req.rpc with
  | .error e => .answered (.error e)
  | .ok request => AdminService.start site.app.config (call site moment req.head request)

/-- The worker's `fetch`, up to the first storage call of an RPC. -/
def fetch (site : Site) (moment : Moment) (req : HttpRequest) :
    EStateM String (ObjectNamespace SqlStorage)
      (Answer × Option (DatabaseId × SessionTask SqlStorage)) :=
  match Routes.tryHandle req.method req.path req.query with
  | some page => return (.page page, none)
  | none => do
    MonadExcept.ofExcept moment.buildState
    if req.path = SyncForward.SYNC_PATH then
      let (response, session) ← SyncForward.forward site.platform.migrating site.app.keyring
        moment.syncNow moment.objectNowMs moment.objectNow req.head
      return (.sync response, session)
    else
      return (.rpc (callAdmin site moment req), none)

end

end Worker

open Worker (HttpRequest Moment Site Answer)

/-! ## Turns -/

/-- A sync connection: the token it was opened with, the pages that have arrived on it, and
its task, which has no store of its own between its turns. -/
structure Connection where
  token : Option Token
  arrived : List PageDataEntry := []
  task : SessionTask Unit

/-- The admin service and the RPCs on it, the object of every database, and the connections to
it. -/
structure Deployment (ι : Type) where
  admin : AdminService.State
  rpcs : ι → Option AdminService.Task
  objects : ObjectNamespace SqlStorage
  connections : DatabaseId → ι → Option Connection

namespace Deployment

/-- Nothing has happened yet. The databases may fail as `faults` says. -/
def new {ι : Type} (site : Site) (faults : DatabaseId → Nat → Option String) : Deployment ι where
  admin := AdminService.empty
  rpcs _ := none
  objects database := { sql := { faults := faults database }, keyring := site.app.keyring }
  connections _ _ := none

/-- What may happen next. -/
inductive Turn (ι : Type) where
  /-- A request comes in. An RPC that it starts or a session that it opens is called `i`. -/
  | request (i : ι) (moment : Moment) (req : HttpRequest)
  /-- An RPC goes on until it awaits the next thing. -/
  | rpc (i : ι) (env : OAuthEnv)
  | frame (database : DatabaseId) (i : ι) (nowMs : Int64) (event : WebsocketEvent)
  /-- The instance is dropped with its tasks, and started anew. -/
  | restart (database : DatabaseId)

/-- The task is dropped. -/
def stop (c : Connection) : Connection := { c with task := { c.task with running := false } }

section

variable {ι : Type} [DecidableEq ι]

/-- Add the session of an answer to the connections. -/
def opened (token : Option Token) (i : ι) (session : Option (DatabaseId × SessionTask SqlStorage))
    (connections : DatabaseId → ι → Option Connection) :
    Option (DatabaseId → ι → Option Connection) :=
  match session with
  | none => some connections
  | some (database, task) =>
    if (connections database i).isSome then none
    else some (Function.update connections database
      (Function.update (connections database) i (some { token, task := task.withStorage () })))

/-- Add the RPC of an answer to those under way. -/
def started (i : ι) (answer : Answer) (rpcs : ι → Option AdminService.Task) :
    Option (ι → Option AdminService.Task) :=
  match answer with
  | .page _ | .sync _ => some rpcs
  | .rpc task => if (rpcs i).isSome then none else some (Function.update rpcs i (some task))

variable [TokenClaimsCodec] [ScanOrder] [Argon2] [Blake3]

def step (site : Site) (turn : Turn ι) (d : Deployment ι) : Option (Deployment ι) :=
  match turn with
  | .request i moment req =>
    match (Worker.fetch site moment req).run d.objects with
    | .ok (answer, session) objects => do
      let rpcs ← started i answer d.rpcs
      let connections ← opened (req.head.token site.platform) i session d.connections
      return { d with rpcs, objects, connections }
    | .error _ objects => some { d with objects }
  | .rpc i env => do
    let task ← d.rpcs i
    let (task, admin) ← AdminService.turn site.app env task d.admin
    return { d with admin, rpcs := Function.update d.rpcs i (some task) }
  | .frame database i nowMs event =>
    match d.connections database i with
    | none => none
    | some c =>
      if c.task.running then
        let next := ScanSession.step (c.task.withStorage (d.objects database).sql) nowMs event
        some { d with
          objects := Function.update d.objects database
            { d.objects database with sql := next.world.storage }
          connections := Function.update d.connections database
            (Function.update (d.connections database) i
              (some { c with
                arrived := c.arrived ++ event.entries
                task := next.withStorage () })) }
      else none
  | .restart database =>
    some { d with
      objects := Function.update d.objects database
        { d.objects database with schemaReady := false }
      connections := Function.update d.connections database
        fun i => (d.connections database i).map stop }

end

end Deployment

/-! ## What a request does to an object -/

section

variable [TokenClaimsCodec]

namespace SyncForward

variable {platform : Platform SqlStorage} {keyring : Keyring} {workerNow : Int64} {req : Request}
  {ns : ObjectNamespace SqlStorage}

/-- A session that runs on the object of the database, and the context it was let in with. -/
structure Opens (platform : Platform SqlStorage) (keyring : Keyring) (workerNow : Int64)
    (req : Request) (database : DatabaseId) (object : EdgeReplicaObject SqlStorage)
    (task : SessionTask SqlStorage) : Prop where
  migrated : Migrated object.sql
  admits : ∃ m ctx, Admits platform keyring workerNow req m ctx ∧ ctx.database = database
  spawned : ∃ direction refuses, task = .spawn direction object.sql refuses

theorem verifyRequest_eq_ok {ctx : SyncContext}
    (h : verifyRequest platform keyring workerNow req = .ok ctx) :
    ∃ m, Admits platform keyring workerNow req m ctx := by
  obtain ⟨text, htext, hverify⟩ := Effect.bind_eq_ok.mp h
  exact admits_of_verified (Effect.okOr_eq_ok.mp htext) (Effect.mapError_eq_ok.mp hverify)

/-- Whatever comes of it, a request leaves every object ready, and its rows as they are. -/
theorem forward_outcome (platform : Platform SqlStorage) (keyring : Keyring)
    (workerNow nowMs nowUnix : Int64) (req : Request) (hready : ∀ database, Ready (ns database)) :
    Outcome
      (fun answer ns' => (∀ database, Kept (ns database) (ns' database)) ∧
        ∀ database task, answer.2 = some (database, task) →
          Opens platform keyring workerNow req database (ns' database) task)
      (fun _ ns' => ∀ database, Kept (ns database) (ns' database))
      ((forward platform.migrating keyring workerNow nowMs nowUnix req).run ns) := by
  have hsame (database : DatabaseId) : Kept (ns database) (ns database) :=
    ⟨hready database, rfl, rfl, id, id⟩
  have hupdate {name : DatabaseId} {self' : EdgeReplicaObject SqlStorage}
      (hkept : Kept (ns name) self') (database : DatabaseId) :
      Kept (ns database) (Function.update ns name self' database) := by
    by_cases heq : database = name
    · subst heq
      rwa [Function.update_self]
    · rw [Function.update_of_ne heq]
      exact hsame database
  show Outcome _ _ (forward platform.migrating keyring workerNow nowMs nowUnix req ns)
  unfold forward
  split
  · exact ⟨hsame, nofun⟩
  · next ctx hverified =>
    obtain ⟨m, hadmits⟩ := verifyRequest_eq_ok hverified
    split
    · exact hsame
    · have hfetch := EdgeReplicaObject.fetch_outcome platform nowMs nowUnix req
        (hready ctx.database)
      split
      · next response session self' hr =>
        rw [hr] at hfetch
        obtain ⟨hkept, hsession⟩ := hfetch
        refine ⟨hupdate hkept, fun database task hanswer => ?_⟩
        obtain ⟨task', rfl, hpair⟩ := Option.map_eq_some_iff.mp hanswer
        obtain ⟨rfl, rfl⟩ := Prod.mk.inj hpair
        rw [Function.update_self]
        obtain ⟨hmigrated, hspawn⟩ := hsession task' rfl
        exact ⟨hmigrated, ⟨m, ctx, ⟨hadmits.token, hadmits.verified⟩, rfl⟩, hspawn⟩
      · next e self' hr =>
        rw [hr] at hfetch
        exact hupdate hfetch

end SyncForward

namespace EdgeReplicaObject

variable {platform : Platform SqlStorage} {nowUnix : Int64} {req : Request}
  {self : EdgeReplicaObject SqlStorage}

/-- An upgrade whose token is accepted gets its session, if the database raises no more
faults, whatever it has been through. -/
theorem fetch_of_quiet (nowMs : Int64) {m : Macaroon} {ctx : SyncContext} {refuses : Nat → Bool}
    (hquiet : Quiet self.sql) (hupgrade : req.isWebsocketUpgrade = true)
    (h : Admits platform self.keyring nowUnix req m ctx)
    (hpair : platform.webSocketPair = .ok refuses) :
    ∃ self', (fetch platform.migrating nowMs nowUnix req).run self =
      .ok ({ status := 101 }, some (.spawn ctx.direction self'.sql refuses)) self' ∧
      Quiet self'.sql := by
  obtain ⟨self', hensured, hlatch, hkeyring, hquiet'⟩ : ∃ self',
      (ensureSchema platform.migrating nowMs).run self = .ok () self' ∧
        self'.schemaReady = true ∧ self'.keyring = self.keyring ∧ Quiet self'.sql := by
    by_cases hlatch : self.schemaReady = true
    · refine ⟨self, ?_, hlatch, rfl, hquiet⟩
      show ensureSchema platform.migrating nowMs self = _
      rw [ensureSchema, if_pos hlatch]
    · obtain ⟨sql, hrun, hquiet'⟩ := hquiet.ensureSchema nowMs
      refine ⟨{ self with sql, schemaReady := true }, ?_, rfl, rfl, hquiet'⟩
      show ensureSchema platform.migrating nowMs self = _
      rw [ensureSchema, if_neg hlatch, show platform.migrating.ensureSchema =
        DoMigrations.ensureSchema from rfl, hrun]
  have hagain : (ensureSchema platform.migrating nowMs).run self' = .ok () self' := by
    show ensureSchema platform.migrating nowMs self' = _
    rw [ensureSchema, if_pos hlatch]
  have hadmits : Admits platform.migrating self'.keyring nowUnix req m ctx :=
    ⟨h.token, hkeyring ▸ h.verified⟩
  have hfetch : (fetch platform.migrating nowMs nowUnix req).run self' =
      .ok ({ status := 101 }, some (.spawn ctx.direction self'.sql refuses)) self' :=
    fetch_of_admits hlatch hupgrade hadmits hpair
  refine ⟨self', ?_, hquiet'⟩
  rw [fetch, EStateM.run_bind, hagain] at hfetch
  rw [fetch, EStateM.run_bind, hensured]
  exact hfetch

end EdgeReplicaObject

end

/-! ## What a request does to the worker -/

namespace Worker

variable [TokenClaimsCodec] [Argon2] {site : Site} {moment : Moment} {req : HttpRequest}
  {ns : ObjectNamespace SqlStorage}

/-- Whatever comes of it, a request leaves every object ready, and its rows as they are. -/
theorem fetch_outcome (site : Site) (moment : Moment) (req : HttpRequest)
    (hready : ∀ database, Ready (ns database)) :
    Outcome
      (fun answer ns' => (∀ database, Kept (ns database) (ns' database)) ∧
        (∀ task, answer.1 = .rpc task → task = callAdmin site moment req) ∧
        ∀ database task, answer.2 = some (database, task) →
          SyncForward.Opens site.platform site.app.keyring moment.syncNow req.head database
            (ns' database) task)
      (fun _ ns' => ∀ database, Kept (ns database) (ns' database))
      ((fetch site moment req).run ns) := by
  have hsame (database : DatabaseId) : Kept (ns database) (ns database) :=
    ⟨hready database, rfl, rfl, id, id⟩
  unfold fetch
  split
  · exact ⟨hsame, fun _ hanswer => Answer.noConfusion hanswer, nofun⟩
  · rw [Effect.run_ofExcept_bind]
    cases moment.buildState with
    | error e => exact hsame
    | ok _ =>
      dsimp only
      split
      · have hforward := SyncForward.forward_outcome site.platform site.app.keyring
          moment.syncNow moment.objectNowMs moment.objectNow req.head hready
        rw [EStateM.run_bind]
        cases hr : (SyncForward.forward site.platform.migrating site.app.keyring moment.syncNow
          moment.objectNowMs moment.objectNow req.head).run ns with
        | ok answer ns' =>
          obtain ⟨response, session⟩ := answer
          rw [hr] at hforward
          exact ⟨hforward.1, fun _ hanswer => Answer.noConfusion hanswer, hforward.2⟩
        | error e ns' =>
          rw [hr] at hforward
          exact hforward
      · exact ⟨hsame, fun task h => (Answer.rpc.inj h).symm, nofun⟩

/-- A sync upgrade to the database that nothing but the database could refuse. -/
structure Upgrade (site : Site) (moment : Moment) (req : HttpRequest) (database : DatabaseId)
    (direction : Direction) (refuses : Nat → Bool) : Prop where
  path : req.path = SyncForward.SYNC_PATH
  built : moment.buildState = .ok ()
  upgrade : req.head.isWebsocketUpgrade = true
  outer : ∃ m ctx, Admits site.platform site.app.keyring moment.syncNow req.head m ctx ∧
    ctx.database = database
  inner : ∃ m ctx, Admits site.platform site.app.keyring moment.objectNow req.head m ctx ∧
    ctx.direction = direction
  stub : site.platform.stub database = .ok ()
  pair : site.platform.webSocketPair = .ok refuses

theorem fetch_of_upgrade {database : DatabaseId} {direction : Direction} {refuses : Nat → Bool}
    (h : Upgrade site moment req database direction refuses)
    (hkeyring : (ns database).keyring = site.app.keyring) (hquiet : Quiet (ns database).sql) :
    ∃ self', (fetch site moment req).run ns =
      .ok (.sync { status := 101 }, some (database, .spawn direction self'.sql refuses))
        (Function.update ns database self') ∧
      Quiet self'.sql := by
  obtain ⟨m, ctx, houter, rfl⟩ := h.outer
  obtain ⟨m', ctx', hinner, rfl⟩ := h.inner
  obtain ⟨self', hfetch, hquiet'⟩ := EdgeReplicaObject.fetch_of_quiet moment.objectNowMs hquiet
    h.upgrade ⟨hinner.token, hkeyring ▸ hinner.verified⟩ h.pair
  have hroute : Routes.tryHandle req.method req.path req.query = none := by
    rw [h.path]
    have hoauth : Text.startsWith SyncForward.SYNC_PATH "/oauth/" = false := by decide +kernel
    have hhealth : SyncForward.SYNC_PATH ≠ "/healthz" := by decide
    simp [Routes.tryHandle, hoauth, hhealth]
  obtain ⟨text, htext, hdeserialize⟩ := Option.map_eq_some_iff.mp houter.token
  have hverified : SyncForward.verifyRequest site.platform.migrating site.app.keyring
      moment.syncNow req.head = .ok ctx := by
    refine Effect.bind_eq_ok.mpr ⟨text, Effect.okOr_eq_ok.mpr htext, ?_⟩
    rw [show site.platform.migrating.deserialize text = .ok m from hdeserialize, houter.verified]
    rfl
  have hforward : (SyncForward.forward site.platform.migrating site.app.keyring moment.syncNow
      moment.objectNowMs moment.objectNow req.head).run ns =
      .ok ({ status := 101 }, some (ctx.database, .spawn ctx'.direction self'.sql refuses))
        (Function.update ns ctx.database self') := by
    show SyncForward.forward site.platform.migrating _ _ _ _ _ ns = _
    rw [SyncForward.forward, hverified]
    dsimp only
    rw [show site.platform.migrating.stub ctx.database = .ok () from h.stub]
    dsimp only
    rw [hfetch]
    rfl
  refine ⟨self', ?_, hquiet'⟩
  rw [fetch, hroute]
  dsimp only
  rw [h.built]
  show EStateM.run (if req.path = SyncForward.SYNC_PATH then _ else _) ns = _
  rw [if_pos h.path, EStateM.run_bind, hforward]
  rfl

end Worker

/-! ## An object and its connections -/

section

variable {ι : Type}

/-- The pages that have arrived on some connection. -/
def arrivedOn (connections : ι → Option Connection) : Set PageDataEntry :=
  { entry | ∃ i c, connections i = some c ∧ entry ∈ c.arrived }

/-- What holds of the object of a database, and of the connections to it. -/
structure Serving (keyring : Keyring) (object : EdgeReplicaObject SqlStorage)
    (connections : ι → Option Connection) : Prop where
  ready : Ready object
  keyring : object.keyring = keyring
  migrated : ∀ i c, connections i = some c → Migrated object.sql
  held : ∀ (p : UInt32) (page : Page), (PageStore.pages object.sql)[p]? = some page →
    ⟨p, page.data⟩ ∈ arrivedOn connections
  sent : ∀ i c, connections i = some c → ∀ msg ∈ c.task.sent, ∀ entry ∈ msg.entries,
    entry ∈ arrivedOn connections

namespace Serving

variable {keyring : Keyring} {object object' : EdgeReplicaObject SqlStorage}
  {connections : ι → Option Connection}

/-- A request. -/
theorem kept (h : Serving keyring object connections) (hkept : Kept object object') :
    Serving keyring object' connections where
  ready := hkept.ready
  keyring := hkept.keyring.trans h.keyring
  migrated i c hc := hkept.migrated (h.migrated i c hc)
  held p page hrow := by
    refine h.held p page ?_
    show object.sql.rows.pages[p]? = some page
    rw [← hkept.rows]
    exact hrow
  sent := h.sent

variable [DecidableEq ι]

theorem arrivedOn_update {i : ι} {c : Connection}
    (hold : ∀ c₀, connections i = some c₀ → c₀.arrived ⊆ c.arrived) :
    arrivedOn connections ⊆ arrivedOn (Function.update connections i (some c)) := by
  rintro entry ⟨j, c₀, hj, hmem⟩
  by_cases hji : j = i
  · subst hji
    exact ⟨j, c, Function.update_self .., hold c₀ hj hmem⟩
  · exact ⟨j, c₀, by rwa [Function.update_of_ne hji], hmem⟩

/-- A session is opened. -/
theorem opened (h : Serving keyring object connections) (hmigrated : Migrated object.sql) {i : ι}
    (hi : connections i = none) {c : Connection} (hsent : c.task.sent = []) :
    Serving keyring object (Function.update connections i (some c)) where
  ready := h.ready
  keyring := h.keyring
  migrated _ _ _ := hmigrated
  held p page hrow := arrivedOn_update (by simp [hi]) (h.held p page hrow)
  sent j c' hj msg hmsg entry hentry := by
    by_cases hji : j = i
    · subst hji
      obtain rfl : c = c' := by simpa using hj
      rw [hsent] at hmsg
      cases hmsg
    · rw [Function.update_of_ne hji] at hj
      exact arrivedOn_update (by simp [hi]) (h.sent j c' hj msg hmsg entry hentry)

omit [DecidableEq ι] in
/-- The instance is dropped. -/
theorem restarted (h : Serving keyring object connections) :
    Serving keyring { object with schemaReady := false }
      fun i => (connections i).map Deployment.stop := by
  have harrived : arrivedOn connections ⊆
      arrivedOn fun i => (connections i).map Deployment.stop := by
    rintro entry ⟨i, c, hi, hmem⟩
    exact ⟨i, Deployment.stop c, congrArg (Option.map Deployment.stop) hi, hmem⟩
  refine ⟨⟨h.ready.sound, nofun⟩, h.keyring, fun i c hi => ?_,
    fun p page hrow => harrived (h.held p page hrow), fun i c hi => ?_⟩
  · obtain ⟨c₀, hc₀, -⟩ := Option.map_eq_some_iff.mp hi
    exact h.migrated i c₀ hc₀
  · obtain ⟨c₀, hc₀, rfl⟩ := Option.map_eq_some_iff.mp hi
    exact fun msg hmsg entry hentry => harrived (h.sent i c₀ hc₀ msg hmsg entry hentry)

variable [Blake3]

/-- A session takes an event. -/
theorem framed (h : Serving keyring object connections) {i : ι} {c : Connection}
    (hi : connections i = some c) (nowMs : Int64) (event : WebsocketEvent) :
    Serving keyring
      { object with
        sql := (ScanSession.step (c.task.withStorage object.sql) nowMs event).world.storage }
      (Function.update connections i (some { c with
        arrived := c.arrived ++ event.entries
        task :=
          (ScanSession.step (c.task.withStorage object.sql) nowMs event).withStorage () })) := by
  let next := ScanSession.step (c.task.withStorage object.sql) nowMs event
  let c' : Connection := { c with
    arrived := c.arrived ++ event.entries
    task := next.withStorage () }
  have harrived : arrivedOn connections ⊆ arrivedOn (Function.update connections i (some c')) := by
    refine arrivedOn_update fun c₀ hc₀ => ?_
    obtain rfl : c = c₀ := Option.some.inj (hi.symm.trans hc₀)
    exact List.subset_append_left _ _
  have hnew : ∀ entry ∈ event.entries,
      entry ∈ arrivedOn (Function.update connections i (some c')) := fun entry hmem =>
    ⟨i, c', Function.update_self .., List.mem_append_right _ hmem⟩
  have hbefore : SyncFsm.Within (arrivedOn (Function.update connections i (some c')))
      (c.task.withStorage object.sql).world :=
    ⟨fun p page hrow => harrived (h.held p page hrow),
      fun msg hmsg entry hentry => harrived (h.sent i c hi msg hmsg entry hentry)⟩
  have hwithin := ScanSession.within_step nowMs hnew hbefore
  -- The schema is the one before.
  have hschema : SqlStorage.Schema object.sql.tables object.sql.versions next.world.storage :=
    ScanSession.step_keeps_storage SqlStorage.schemaKept nowMs event ⟨rfl, rfl⟩
  have hmigrated : Migrated object.sql → Migrated next.world.storage := by
    intro hold table htable
    rw [hschema.1]
    exact hold table htable
  refine ⟨⟨h.ready.sound.of_schema hschema, fun hlatch => hmigrated (h.ready.ready hlatch)⟩,
    h.keyring, fun _ _ _ => hmigrated (h.migrated i c hi), hwithin.held, fun j c₀ hj => ?_⟩
  by_cases hji : j = i
  · subst hji
    obtain rfl : c' = c₀ := by simpa using hj
    exact hwithin.sent
  · rw [Function.update_of_ne hji] at hj
    exact fun msg hmsg entry hentry => harrived (h.sent j c₀ hj msg hmsg entry hentry)

end Serving

end

namespace Deployment

variable {ι : Type}

/-- Every object serves. -/
def Inv (site : Site) (d : Deployment ι) : Prop :=
  ∀ database, Serving site.app.keyring (d.objects database) (d.connections database)

@[simp] theorem new_rpcs (site : Site) (faults : DatabaseId → Nat → Option String) (i : ι) :
    (new site faults).rpcs i = none := rfl

@[simp] theorem new_connections (site : Site) (faults : DatabaseId → Nat → Option String)
    (database : DatabaseId) (i : ι) : (new site faults).connections database i = none := rfl

theorem inv_new (site : Site) (faults : DatabaseId → Nat → Option String) :
    Inv site (new site faults : Deployment ι) := by
  intro database
  refine ⟨⟨DoMigrations.sound_new _, nofun⟩, rfl, fun i c hc => ?_, fun p page hrow => ?_,
    fun i c hc => ?_⟩
  · simp at hc
  · exact absurd hrow (by rw [show PageStore.pages _ = (∅ : Pages) from rfl]; simp)
  · simp at hc

variable [DecidableEq ι] [TokenClaimsCodec] [Argon2]

/-- What a request leaves of a deployment. -/
structure Answered (site : Site) (i : ι) (moment : Moment) (req : HttpRequest)
    (d d' : Deployment ι) : Prop where
  admin : d'.admin = d.admin
  rpcs : d'.rpcs = d.rpcs ∨
    d'.rpcs = Function.update d.rpcs i (some (Worker.callAdmin site moment req))
  objects : ∀ database, Kept (d.objects database) (d'.objects database)
  connections : ∀ database, d'.connections database = d.connections database ∨
    ∃ task, d.connections database i = none ∧
      SyncForward.Opens site.platform site.app.keyring moment.syncNow req.head database
        (d'.objects database) task ∧
      d'.connections database = Function.update (d.connections database) i
        (some { token := req.head.token site.platform, task := task.withStorage () })

omit [TokenClaimsCodec] [Argon2] in
theorem started_eq_some {i : ι} {answer : Worker.Answer}
    {rpcs rpcs' : ι → Option AdminService.Task} (h : started i answer rpcs = some rpcs') :
    rpcs' = rpcs ∨ ∃ task, answer = .rpc task ∧ rpcs' = Function.update rpcs i (some task) := by
  unfold started at h
  split at h
  · exact .inl (Option.some.inj h).symm
  · exact .inl (Option.some.inj h).symm
  · next task =>
    split at h
    · cases h
    · exact .inr ⟨task, rfl, (Option.some.inj h).symm⟩

variable [ScanOrder] [Blake3] {site : Site} {d d' : Deployment ι}

theorem answered {i : ι} {moment : Moment} {req : HttpRequest} (hinv : Inv site d)
    (hstep : step site (.request i moment req) d = some d') :
    Answered site i moment req d d' := by
  have hfetch := Worker.fetch_outcome site moment req
    fun database => (hinv database).ready
  simp only [step] at hstep
  split at hstep
  · next answer session objects hr =>
    rw [hr] at hfetch
    obtain ⟨hkept, hrpc, hopens⟩ := hfetch
    obtain ⟨rpcs, hstarted, hrest⟩ := Option.bind_eq_some_iff.mp hstep
    obtain ⟨connections, hopened, hdone⟩ := Option.bind_eq_some_iff.mp hrest
    obtain rfl := Option.some.inj hdone
    refine ⟨rfl, ?_, hkept, fun database => ?_⟩
    · rcases started_eq_some hstarted with hsame | ⟨task, hanswer, hnew⟩
      · exact .inl hsame
      · exact .inr (hnew.trans (by rw [hrpc task hanswer]))
    · unfold opened at hopened
      split at hopened
      · exact .inl (congrFun (Option.some.inj hopened).symm database)
      · next name task =>
        split at hopened
        · cases hopened
        · next hfree =>
          obtain rfl := Option.some.inj hopened
          by_cases heq : database = name
          · subst heq
            exact .inr ⟨task, by simpa using hfree, hopens database task rfl,
              Function.update_self ..⟩
          · exact .inl (Function.update_of_ne heq ..)
  · next e objects hr =>
    rw [hr] at hfetch
    obtain rfl := Option.some.inj hstep
    exact ⟨rfl, .inl rfl, hfetch, fun _ => .inl rfl⟩

/-- What a turn of an RPC leaves of a deployment. -/
theorem rpc_cases {i : ι} {env : OAuthEnv} (hstep : step site (.rpc i env) d = some d') :
    ∃ task task' admin, d.rpcs i = some task ∧
      AdminService.turn site.app env task d.admin = some (task', admin) ∧
      d' = { d with admin, rpcs := Function.update d.rpcs i (some task') } := by
  obtain ⟨task, htask, hstep⟩ := Option.bind_eq_some_iff.mp hstep
  obtain ⟨⟨task', admin⟩, hturn, hstep⟩ := Option.bind_eq_some_iff.mp hstep
  exact ⟨task, task', admin, htask, hturn, (Option.some.inj hstep).symm⟩

/-- Every turn keeps the objects serving. -/
theorem inv_step {turn : Turn ι} (hinv : Inv site d) (hstep : step site turn d = some d') :
    Inv site d' := by
  intro database
  match turn with
  | .request i moment req =>
    have hanswered := answered hinv hstep
    have hserving := (hinv database).kept (hanswered.objects database)
    rcases hanswered.connections database with hsame | ⟨task, hfree, hopens, hnew⟩
    · rwa [hsame]
    · rw [hnew]
      obtain ⟨direction, refuses, rfl⟩ := hopens.spawned
      exact hserving.opened hopens.migrated hfree rfl
  | .rpc i env =>
    obtain ⟨task, task', admin, -, -, rfl⟩ := rpc_cases hstep
    exact hinv database
  | .frame name i nowMs event =>
    simp only [step] at hstep
    split at hstep
    · cases hstep
    · next c hi =>
      split at hstep
      · obtain rfl := Option.some.inj hstep
        by_cases heq : database = name
        · subst heq
          simpa only [Function.update_self] using (hinv database).framed hi nowMs event
        · simpa only [Function.update_of_ne heq] using hinv database
      · cases hstep
  | .restart name =>
    obtain rfl := Option.some.inj hstep
    by_cases heq : database = name
    · subst heq
      simpa only [Function.update_self] using (hinv database).restarted
    · simpa only [Function.update_of_ne heq] using hinv database

theorem inv_of_run (site : Site) (faults : DatabaseId → Nat → Option String)
    {turns : List (Turn ι)} (hrun : Machine.run (step site) turns (new site faults) = some d) :
    Inv site d :=
  Machine.run_keeps hrun (inv_new site faults) fun _ _ _ _ hstep hinv => inv_step hinv hstep

/-- Whatever is asked of the deployment, in whatever order, whatever its databases refuse and
whenever its instances are dropped: an instance that takes its database for migrated is
right, no session runs on a database without its tables, and no version is stamped ahead of
its script. And once a database raises no more faults, an upgrade with a good token gets its
session. -/
theorem schema_recovers (site : Site) (faults : DatabaseId → Nat → Option String)
    {turns : List (Turn ι)} (hrun : Machine.run (step site) turns (new site faults) = some d)
    (database : DatabaseId) :
    ((d.objects database).schemaReady = true → Migrated (d.objects database).sql) ∧
    (∀ i c, d.connections database i = some c → Migrated (d.objects database).sql) ∧
    DoMigrations.Sound (d.objects database).sql ∧
    (Quiet (d.objects database).sql → ∀ moment req direction refuses,
      Worker.Upgrade site moment req database direction refuses →
      ∃ task objects, (Worker.fetch site moment req).run d.objects =
        .ok (.sync { status := 101 }, some (database, task)) objects) := by
  have hserving := inv_of_run site faults hrun database
  refine ⟨hserving.ready.ready, hserving.migrated, hserving.ready.sound, ?_⟩
  intro hquiet moment req direction refuses hupgrade
  obtain ⟨self', hfetch, -⟩ := Worker.fetch_of_upgrade hupgrade hserving.keyring hquiet
  exact ⟨_, _, hfetch⟩

omit [DecidableEq ι] [TokenClaimsCodec] [Argon2] [ScanOrder] [Blake3]

def sampleSite : Site where
  app := { keyring := ⟨Tokens.sampleKey 0⟩ }
  platform := {
    deserialize text :=
      if text = "t" then .ok (Tokens.mintSync ⟨Tokens.sampleKey 0⟩ sampleUpgradeInput)
      else .error "malformed"
    caveatText _ := ""
    ensureSchema := DoMigrations.ensureSchema
    webSocketPair := .ok fun _ => false
    stub _ := .ok () }

def sampleMoment : Moment where
  sessionNow := 1
  nowMs := 1000
  salt := "salt"
  generated := "state"
  syncNow := 100
  objectNowMs := 1000
  objectNow := 100

def sampleSync : HttpRequest where
  method := .get
  path := "/sync"
  head := sampleUpgrade
  rpc := .error ⟨.unimplemented, "not an RPC"⟩

/-- An upgrade whose migration fails before the stamp, a restart, and another upgrade. -/
def sampleTurns : List (Turn Nat) :=
  [.request 0 sampleMoment sampleSync, .restart ⟨"d_1"⟩, .request 1 sampleMoment sampleSync]

def sampleFaults (_ : DatabaseId) (k : Nat) : Option String := if k = 3 then some "disk" else none

theorem schema_recovers_sample :
    letI := TokenClaimsCodec.protobuf
    letI := ScanOrder.oldestFirst
    letI := Argon2.readable
    letI := Blake3.onSamples
    ∃ d, Machine.run (step sampleSite) sampleTurns (new sampleSite sampleFaults) = some d ∧
      (d.connections ⟨"d_1"⟩ 0).isNone = true ∧ (d.connections ⟨"d_1"⟩ 1).isSome = true ∧
      Migrated (d.objects ⟨"d_1"⟩).sql := by
  let _ := TokenClaimsCodec.protobuf
  let _ := ScanOrder.oldestFirst
  let _ := Argon2.readable
  let _ := Blake3.onSamples
  have hrun : (Machine.run (step sampleSite) sampleTurns (new sampleSite sampleFaults)).map
      (fun d => ((d.connections ⟨"d_1"⟩ 0).isNone, (d.connections ⟨"d_1"⟩ 1).isSome)) =
        some (true, true) := by
    decide +kernel
  obtain ⟨d, hd, hconnected⟩ := Option.map_eq_some_iff.mp hrun
  obtain ⟨hnone, hsome⟩ := Prod.mk.inj hconnected
  obtain ⟨c, hc⟩ := Option.isSome_iff_exists.mp hsome
  exact ⟨d, hd, hnone, hsome, (schema_recovers sampleSite sampleFaults hd ⟨"d_1"⟩).2.1 1 c hc⟩

end Deployment

end EdgeReplica
