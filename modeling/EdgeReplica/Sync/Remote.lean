-- SUMMARY: A client that syncs with a deployment which serves others too: what it sees is the session of two parties.
import EdgeReplica.Sync.Interrupted
import EdgeReplica.Sync.Termination
import EdgeReplica.Worker.DeployedSession

/-!
# Syncing with a deployment

A client talks to its connection while the deployment answers whoever else asks it. As long
as nobody else writes the database and its instance is not dropped, nothing of that shows:
the client takes part in the session of two parties, over the pages of the database.
-/

namespace EdgeReplica

open Deployment (Inv)
open DoMigrations (Quiet)
open Machine (Lockstep)
open SqlStorage (InOrder)
open Sql (ScanOrder)
open Worker (Site Moment HttpRequest)

/-! ## What turns do to one database -/

namespace Deployment

variable {ι : Type}

/-- The pages that a turn brings to the database. -/
def Turn.entries (database : DatabaseId) : Turn ι → List PageDataEntry
  | .frame name _ _ event => if name = database then event.entries else []
  | .request .. | .rpc .. | .restart _ => []

/-- A turn that leaves the connection `i` of the database alone, and writes none of its pages. -/
def Turn.Apart (database : DatabaseId) (i : ι) : Turn ι → Prop
  | .request .. | .rpc .. => True
  | .frame name j _ event => name = database → j ≠ i ∧ event.entries = []
  | .restart name => name ≠ database

theorem Turn.Apart.entries {database : DatabaseId} {i : ι} {turn : Turn ι}
    (h : turn.Apart database i) : turn.entries database = [] := by
  cases turn with
  | request j moment req => rfl
  | rpc j env => rfl
  | restart name => rfl
  | frame name j nowMs event =>
    by_cases heq : name = database
    · rw [Turn.entries, if_pos heq]
      exact (h heq).2
    · rw [Turn.entries, if_neg heq]

variable [DecidableEq ι] [TokenClaimsCodec] [ScanOrder] [Argon2] [Blake3]
  {site : Site} {d d' : Deployment ι} {database : DatabaseId}

/-- What a frame changes. -/
theorem frame_cases {name : DatabaseId} {i : ι} {nowMs : Int64} {event : WebsocketEvent}
    (hstep : step site (.frame name i nowMs event) d = some d') :
    ∃ c c' object, d.connections name i = some c ∧
      object.sql =
        (ScanSession.step (c.task.withStorage (d.objects name).sql) nowMs event).world.storage ∧
      d'.objects = Function.update d.objects name object ∧
      d'.connections =
        Function.update d.connections name (Function.update (d.connections name) i (some c')) := by
  simp only [step] at hstep
  split at hstep
  · cases hstep
  · next c hi =>
    split at hstep
    · obtain rfl := Option.some.inj hstep
      exact ⟨c, _, _, hi, rfl, rfl, rfl⟩
    · cases hstep

/-- A turn writes a prefix of the pages it brings. -/
theorem turn_writes {turn : Turn ι} (hinv : Inv site d) (hstep : step site turn d = some d')
    (database : DatabaseId) :
    ∃ written, written <+: turn.entries database ∧
      PageStore.pages (d'.objects database).sql =
        (PageStore.pages (d.objects database).sql).replay written := by
  match turn with
  | .request i moment req =>
    have hrows := ((answered hinv hstep).objects database).rows
    exact ⟨[], List.nil_prefix, congrArg SqlSyncStorage.pages hrows⟩
  | .rpc i env =>
    obtain ⟨task, task', admin, -, -, rfl⟩ := rpc_cases hstep
    exact ⟨[], List.nil_prefix, rfl⟩
  | .frame name i nowMs event =>
    obtain ⟨c, _, object, -, hsql, hobjects, -⟩ := frame_cases hstep
    rw [hobjects]
    by_cases heq : name = database
    · subst heq
      rw [Turn.entries, if_pos rfl, Function.update_self, hsql]
      exact ScanSession.step_writes (c.task.withStorage (d.objects name).sql) nowMs event
    · rw [Function.update_of_ne (Ne.symm heq)]
      exact ⟨[], List.nil_prefix, rfl⟩
  | .restart name =>
    obtain rfl := Option.some.inj hstep
    refine ⟨[], List.nil_prefix, ?_⟩
    by_cases heq : database = name
    · subst heq
      simp only [Function.update_self, Pages.replay_nil]
    · simp only [Function.update_of_ne heq, Pages.replay_nil]

/-- Every row of a deployment has the digest of its bytes. -/
theorem hashed_of_run (site : Site) (faults : DatabaseId → Nat → Option String)
    {turns : List (Turn ι)} (hrun : Machine.run (step site) turns (new site faults) = some d)
    (database : DatabaseId) : (PageStore.pages (d.objects database).sql).Hashed := by
  refine (Machine.run_keeps hrun
    (I := fun d => Inv site d ∧ (PageStore.pages (d.objects database).sql).Hashed)
    ⟨inv_new site faults, Pages.Hashed.empty⟩ fun turn _ d d' hstep h => ?_).2
  obtain ⟨hinv, hhashed⟩ := h
  obtain ⟨written, -, hpages⟩ := turn_writes hinv hstep database
  refine ⟨inv_step hinv hstep, ?_⟩
  rw [hpages]
  exact hhashed.replay written

/-- What the others do leaves the connection and the pages of the database as they are. -/
theorem apart_step {i : ι} {turn : Turn ι} {c : Connection} (hinv : Inv site d)
    (hi : d.connections database i = some c) (horder : InOrder (d.objects database).sql)
    (hapart : turn.Apart database i) (hstep : step site turn d = some d') :
    d'.connections database i = some c ∧ InOrder (d'.objects database).sql ∧
      PageStore.pages (d'.objects database).sql = PageStore.pages (d.objects database).sql := by
  obtain ⟨written, hwritten, hpages⟩ := turn_writes hinv hstep database
  rw [hapart.entries, List.prefix_nil] at hwritten
  rw [hwritten, Pages.replay_nil] at hpages
  suffices hrest : d'.connections database i = some c ∧ InOrder (d'.objects database).sql from
    ⟨hrest.1, hrest.2, hpages⟩
  match turn with
  | .request j moment req =>
    have hanswered := answered hinv hstep
    have hkept := hanswered.objects database
    refine ⟨?_, SqlStorage.inOrder_of_migrated
      (hkept.migrated ((hinv database).migrated i c hi)) (hkept.quiet horder.quiet)⟩
    rcases hanswered.connections database with hsame | ⟨task, hfree, -, hnew⟩
    · rwa [hsame]
    · have hne : i ≠ j := fun heq => by
        rw [← heq, hi] at hfree
        cases hfree
      rwa [hnew, Function.update_of_ne hne]
  | .rpc j env =>
    obtain ⟨task, task', admin, -, -, rfl⟩ := rpc_cases hstep
    exact ⟨hi, horder⟩
  | .frame name j nowMs event =>
    obtain ⟨c₁, c₂, object, -, hsql, hobjects, hconnections⟩ := frame_cases hstep
    rw [hobjects, hconnections]
    by_cases heq : name = database
    · subst heq
      rw [Function.update_self, Function.update_self, hsql,
        Function.update_of_ne (Ne.symm (hapart rfl).1)]
      exact ⟨hi, (SqlStorage.view_step (c₁.task.withStorage _) horder nowMs event).2⟩
    · rw [Function.update_of_ne (Ne.symm heq), Function.update_of_ne (Ne.symm heq)]
      exact ⟨hi, horder⟩
  | .restart name =>
    obtain rfl := Option.some.inj hstep
    simp only [Function.update_of_ne (Ne.symm hapart)]
    exact ⟨hi, horder⟩

end Deployment

/-! ## The system -/

/-- A client, the deployment it is connected to, and the frames in flight between them. -/
structure Remote (C ι : Type) where
  client : C
  deployment : Deployment ι
  toServer : List SyncMessage := []
  toClient : List SyncMessage := []
  /-- Everything the client sent so far. -/
  clientSent : List SyncMessage := []

namespace Remote

inductive Label (ι : Type) where
  /-- The client, its connection or what joins them moves. -/
  | session (label : Session.Label)
  /-- The deployment takes a turn for somebody else. -/
  | other (turn : Deployment.Turn ι)

variable {C ι : Type}

def Label.shown : Label ι → Option Session.Label
  | .session label => some label
  | .other _ => none

theorem shown_session (label : Session.Label) :
    (Label.session label : Label ι).shown = some label := rfl

theorem mem_shown {labels : List (Label ι)} {label : Session.Label} :
    label ∈ labels.filterMap Label.shown ↔ .session label ∈ labels := by
  rw [List.mem_filterMap]
  constructor
  · rintro ⟨shown, hmem, hshown⟩
    cases shown with
    | session label' =>
      obtain rfl := Option.some.inj hshown
      exact hmem
    | other turn => cases hshown
  · exact fun hmem => ⟨.session label, hmem, rfl⟩

section

variable [DecidableEq ι] [TokenClaimsCodec] [ScanOrder] [Argon2] [Blake3]
  (site : Site) (database : DatabaseId) (i : ι)

/-- The connection takes an event; what it sends is appended to the client's queue. -/
def serverStep (r : Remote C ι) (nowMs : Int64) (event : WebsocketEvent) :
    Option (Remote C ι) :=
  (r.deployment.connections database i).bind fun before =>
    (Deployment.step site (.frame database i nowMs event) r.deployment).bind fun deployment =>
      (deployment.connections database i).map fun after =>
        { r with
          deployment
          toClient := r.toClient ++ after.task.sent.drop before.task.sent.length }

def sessionStep [Peer C] (label : Session.Label) (r : Remote C ι) : Option (Remote C ι) :=
  match label with
  | .client =>
    (Peer.advance r.client).map fun (client, frames) =>
      { r with
        client
        toServer := r.toServer ++ frames
        clientSent := r.clientSent ++ frames }
  | .deliver =>
    match r.toClient with
    | [] => none
    | msg :: toClient =>
      (Peer.receive r.client (.binary (.ok msg))).map fun client => { r with client, toClient }
  | .serve nowMs =>
    match r.toServer with
    | [] => none
    | msg :: toServer => { r with toServer }.serverStep site database i nowMs (.binary (.ok msg))
  | .serverClosed ended =>
    match r.deployment.connections database i with
    | none => none
    | some c =>
      if r.toClient = [] ∧ c.task.running = false then
        (Peer.receive r.client (if ended then .ended else .close c.task.closed)).map
          fun client => { r with client }
      else none
  | .clientClosed nowMs =>
    if Peer.isOver r.client then r.serverStep site database i nowMs .close else none
  | .fault incoming =>
    if Session.isFault r.client incoming then
      (Peer.receive r.client incoming).map fun client => { r with client }
    else none
  | .lost => if Peer.isOver r.client then none else some { r with client := Peer.lose r.client }

def step [Peer C] (label : Label ι) (r : Remote C ι) : Option (Remote C ι) :=
  match label with
  | .session label => r.sessionStep site database i label
  | .other turn =>
    (Deployment.step site turn r.deployment).map fun deployment => { r with deployment }

end

/-! ## The session it shows -/

/-- What the system shows of the session of two parties. -/
structure Looks (database : DatabaseId) (r : Remote C ι) (s : Session C) : Prop where
  client : s.client = r.client
  toServer : s.toServer = r.toServer
  toClient : s.toClient = r.toClient
  clientSent : s.clientSent = r.clientSent
  pages : s.pages = PageStore.pages (r.deployment.objects database).sql

/-- The session, with the connection for its server, seen through the pages of the database. -/
structure Shows [TokenClaimsCodec] (site : Site) (database : DatabaseId) (i : ι) (r : Remote C ι)
    (s : Session C) : Prop where
  client : s.client = r.client
  toServer : s.toServer = r.toServer
  toClient : s.toClient = r.toClient
  clientSent : s.clientSent = r.clientSent
  inv : Inv site r.deployment
  order : InOrder (r.deployment.objects database).sql
  server : ∃ c, r.deployment.connections database i = some c ∧
    s.server = ((c.task.withStorage (r.deployment.objects database).sql).mapStorage
      SqlStorage.rows).view

namespace Shows

variable [TokenClaimsCodec] {site : Site} {database : DatabaseId} {i : ι} {r r' : Remote C ι}
  {s : Session C}

theorem looks (h : Shows site database i r s) : Looks database r s := by
  obtain ⟨c, -, hserver⟩ := h.server
  refine ⟨h.client, h.toServer, h.toClient, h.clientSent, ?_⟩
  rw [Session.pages, hserver]
  rfl

/-- What happens to the client and to the frames in flight is seen as it is. -/
theorem moved (h : Shows site database i r s) (client : C)
    (toServer toClient clientSent : List SyncMessage) :
    Shows site database i { r with client, toServer, toClient, clientSent }
      { s with client, toServer, toClient, clientSent } :=
  ⟨rfl, rfl, rfl, rfl, h.inv, h.order, h.server⟩

variable [DecidableEq ι] [ScanOrder] [Argon2] [Blake3]

/-- The connection's turn is the server's. -/
theorem served (h : Shows site database i r s) (nowMs : Int64) (event : WebsocketEvent) :
    Option.Rel (Shows site database i) (r.serverStep site database i nowMs event)
      (if s.server.running then some (s.serverStep nowMs event) else none) := by
  obtain ⟨client, server, toServer, toClient, clientSent⟩ := s
  obtain ⟨rfl, rfl, rfl, rfl, hinv, horder, c, hi, rfl⟩ := h
  show Option.Rel _ _ (if c.task.running = true then _ else _)
  rw [serverStep, hi, Option.bind_some]
  cases hrunning : c.task.running with
  | false =>
    have hnone : Deployment.step site (.frame database i nowMs event) r.deployment = none := by
      simp only [Deployment.step, hi, hrunning]
      rfl
    rw [hnone]
    exact .none
  | true =>
    obtain ⟨d', c', hstep, hi', htask⟩ := Deployment.step_frame site hi hrunning nowMs event
    obtain ⟨hview, horder'⟩ := SqlStorage.view_step (c.task.withStorage _) horder nowMs event
    rw [← htask] at hview horder'
    rw [hstep, Option.bind_some, hi', Option.map_some, if_pos rfl]
    refine .some ⟨rfl, rfl, ?_, rfl, Deployment.inv_step hinv hstep, horder', c', hi', hview⟩
    simp only [Session.serverStep, hview]
    rfl

/-- The two systems take the labels of the session together. -/
theorem together [Peer C] (h : Shows site database i r s) (label : Session.Label) :
    Option.Rel (Shows site database i) (r.sessionStep site database i label) (s.step label) := by
  have hshown := h
  obtain ⟨client, server, toServer, toClient, clientSent⟩ := s
  obtain ⟨rfl, rfl, rfl, rfl, -, -, c, hi, hserver⟩ := hshown
  match label with
  | .client => exact Lockstep.rel_map fun ⟨client, frames⟩ => h.moved client _ _ _
  | .deliver =>
    simp only [sessionStep, Session.step]
    cases r.toClient with
    | nil => exact .none
    | cons msg toClient => exact Lockstep.rel_map fun client => h.moved client _ _ _
  | .serve nowMs =>
    simp only [sessionStep, Session.step]
    cases r.toServer with
    | nil => exact .none
    | cons msg toServer =>
      exact (h.moved r.client toServer r.toClient r.clientSent).served nowMs (.binary (.ok msg))
  | .serverClosed ended =>
    obtain rfl : server = _ := hserver
    simp only [sessionStep, Session.step, hi]
    show Option.Rel _ _ (if r.toClient = [] ∧ c.task.running = false then _ else none)
    split
    · exact Lockstep.rel_map fun client => h.moved client _ _ _
    · exact .none
  | .clientClosed nowMs =>
    have hserved := h.served nowMs .close
    simp only [sessionStep, Session.step]
    cases Peer.isOver r.client with
    | false => exact .none
    | true => simpa using hserved
  | .fault incoming =>
    simp only [sessionStep, Session.step]
    split
    · exact Lockstep.rel_map fun client => h.moved client _ _ _
    · exact .none
  | .lost =>
    simp only [sessionStep, Session.step]
    split
    · exact .none
    · exact .some (h.moved (Peer.lose r.client) _ _ _)

/-- What the others do does not show. -/
theorem unseen [Peer C] (h : Shows site database i r s) {turn : Deployment.Turn ι}
    (hapart : turn.Apart database i)
    (hstep : r.step site database i (.other turn) = some r') : Shows site database i r' s := by
  obtain ⟨d', hturn, rfl⟩ := Option.map_eq_some_iff.mp hstep
  obtain ⟨c, hi, hserver⟩ := h.server
  obtain ⟨hi', horder, hpages⟩ := Deployment.apart_step h.inv hi h.order hapart hturn
  refine ⟨h.client, h.toServer, h.toClient, h.clientSent, Deployment.inv_step h.inv hturn, horder,
    c, hi', ?_⟩
  rw [hserver]
  exact congrArg (fun pages : Pages => SessionTask.mk (c.task.world.withStorage pages)
    c.task.running c.task.closed) hpages.symm

theorem lockstep [Peer C] (site : Site) (database : DatabaseId) (i : ι) :
    Lockstep (Remote.step site database i) (Session.step (C := C)) Label.shown
      (fun label => ∀ turn, label = .other turn → turn.Apart database i)
      (Shows site database i) where
  both := by
    intro label label' r s hlabel h
    cases label with
    | session label =>
      obtain rfl := Option.some.inj hlabel
      exact h.together label
    | other turn => cases hlabel
  alone := by
    intro label r r' s hlabel hapart h hstep
    cases label with
    | session label => cases hlabel
    | other turn => exact h.unseen (hapart turn rfl) hstep

/-- Every run of the whole is one of the session, less what is done for others. -/
theorem run [Peer C] {labels : List (Label ι)} (h : Shows site database i r s)
    (hapart : ∀ turn, .other turn ∈ labels → turn.Apart database i)
    (hrun : Machine.run (Remote.step site database i) labels r = some r') :
    ∃ s', Machine.run Session.step (labels.filterMap Label.shown) s = some s' ∧
      Shows site database i r' s' :=
  (lockstep site database i).run_shown (fun _ hmem turn heq => hapart turn (heq ▸ hmem)) hrun h

/-- The whole can go on in every way the session can. -/
theorem lift [Peer C] {labels : List Session.Label} {s' : Session C}
    (h : Shows site database i r s) (hrun : Machine.run Session.step labels s = some s') :
    ∃ r', Machine.run (Remote.step site database i) (labels.map .session) r = some r' ∧
      Shows site database i r' s' :=
  (lockstep site database i).run_lift shown_session hrun h

variable {d : Deployment ι} {moment : Moment} {req : HttpRequest} {direction : Direction}

/-- A client that is let in begins the session over the pages of the database. -/
theorem start (hinv : Inv site d) (hquiet : Quiet (d.objects database).sql)
    (hupgrade : Worker.Upgrade site moment req database direction fun _ => false)
    (hfree : d.connections database i = none) (client : C) :
    ∃ d₀, Deployment.step site (.request i moment req) d = some d₀ ∧
      Shows site database i { client, deployment := d₀ }
        (.start client direction (PageStore.pages (d.objects database).sql)) := by
  obtain ⟨d₀, c, hstep, hi, horder, hrows, htask⟩ :=
    Deployment.step_upgrade hinv hquiet hupgrade hfree
  refine ⟨d₀, hstep, rfl, rfl, rfl, rfl, Deployment.inv_step hinv hstep, horder, c, hi, ?_⟩
  have hpages : PageStore.pages (d₀.objects database).sql =
      PageStore.pages (d.objects database).sql := congrArg SqlSyncStorage.pages hrows
  rw [htask, ← hpages]
  rfl

end Shows

variable [DecidableEq ι] [TokenClaimsCodec] [ScanOrder] [Argon2] [Blake3]
  {d : Deployment ι} {database : DatabaseId} {i : ι} {moment : Moment} {req : HttpRequest}
  {direction : Direction}

/-- Whatever the deployment has been through and whatever it does for others meanwhile, a
client that is let in takes part in the session of two parties over the pages of the
database, and that session can go on in every way it could without the others. -/
theorem remote_session [Peer C] (site : Site) (faults : DatabaseId → Nat → Option String)
    {turns : List (Deployment.Turn ι)}
    (hrun : Machine.run (Deployment.step site) turns (Deployment.new site faults) = some d)
    (hquiet : Quiet (d.objects database).sql)
    (hupgrade : Worker.Upgrade site moment req database direction fun _ => false)
    (hfree : d.connections database i = none) (client : C) :
    ∃ d₀, Deployment.step site (.request i moment req) d = some d₀ ∧
      ∀ labels r, (∀ turn, .other turn ∈ labels → turn.Apart database i) →
        Machine.run (step site database i) labels { client, deployment := d₀ } = some r →
        ∃ s, Machine.run Session.step (labels.filterMap Label.shown)
            (.start client direction (PageStore.pages (d.objects database).sql)) = some s ∧
          Looks database r s ∧
          ∀ more t, Machine.run Session.step more s = some t →
            ∃ r', Machine.run (step site database i) (more.map .session) r = some r' ∧
              Looks database r' t := by
  obtain ⟨d₀, hstep, hstart⟩ :=
    Shows.start (Deployment.inv_of_run site faults hrun) hquiet hupgrade hfree client
  refine ⟨d₀, hstep, fun labels r hapart hlabels => ?_⟩
  obtain ⟨s, hsession, hshows⟩ := hstart.run hapart hlabels
  refine ⟨s, hsession, hshows.looks, fun more t hmore => ?_⟩
  obtain ⟨r', hrun', hshows'⟩ := hshows.lift hmore
  exact ⟨r', hrun', hshows'.looks⟩

/-- A client that pushes to a deployment leaves, wherever it is cut off, its pages up to one
of them over those the database had, and all of them when it completes. Undisturbed, it can
be brought to its end, whatever the deployment does for others meanwhile. -/
theorem remote_push (site : Site) (faults : DatabaseId → Nat → Option String)
    {turns : List (Deployment.Turn ι)}
    (hrun : Machine.run (Deployment.step site) turns (Deployment.new site faults) = some d)
    (hquiet : Quiet (d.objects database).sql)
    (hupgrade : Worker.Upgrade site moment req database .push fun _ => false)
    (hfree : d.connections database i = none) (db : Database)
    (hinj : Set.InjOn pageHash
      (PushSession.Involved db (PageStore.pages (d.objects database).sql))) :
    let before := (PageStore.pages (d.objects database).sql).bytes
    ∃ d₀, Deployment.step site (.request i moment req) d = some d₀ ∧
      ∀ labels r, (∀ turn, .other turn ∈ labels → turn.Apart database i) →
        Machine.run (step site database i) labels
          { client := PushClient.new db, deployment := d₀ } = some r →
        let after := (PageStore.pages (r.deployment.objects database).sql).bytes
        (∃ k, after = (db.take k).table.overlay before) ∧
        (∀ pagesTransferred bytesTransferred,
          r.client.phase = .finished pagesTransferred bytesTransferred →
            after = db.table.overlay before) ∧
        ((∀ label, .session label ∈ labels → label.Undisturbed) →
          ∃ (more : List Session.Label) (r' : Remote PushClient ι),
            Machine.run (step site database i) (more.map .session) r = some r' ∧
            ∃ pagesTransferred bytesTransferred,
              r'.client.phase = .finished pagesTransferred bytesTransferred) := by
  intro before
  have hhashed := Deployment.hashed_of_run site faults hrun database
  obtain ⟨d₀, hstep, hstart⟩ := Shows.start (Deployment.inv_of_run site faults hrun) hquiet
    hupgrade hfree (PushClient.new db)
  refine ⟨d₀, hstep, fun labels r hapart hlabels => ?_⟩
  obtain ⟨s, hsession, hshows⟩ := hstart.run hapart hlabels
  have hlooks := hshows.looks
  rw [← hlooks.client, ← hlooks.pages]
  refine ⟨(PushSession.bytes_of_run hhashed hinj hsession).1,
    fun _ _ hphase => PushSession.bytes_of_finished hhashed hinj hsession hphase,
    fun hundisturbed => ?_⟩
  obtain ⟨more, t, -, hmore, hfinished⟩ := PushSession.can_finish db _
    (fun label hmem => hundisturbed label (mem_shown.mp hmem)) hsession
  obtain ⟨r', hrun', hshows'⟩ := hshows.lift hmore
  refine ⟨more, r', hrun', ?_⟩
  rwa [← hshows'.looks.client]

omit [DecidableEq ι] [TokenClaimsCodec] [ScanOrder] [Argon2] [Blake3]

theorem remote_session_sample :
    letI := TokenClaimsCodec.protobuf
    letI := ScanOrder.oldestFirst
    letI := Argon2.readable
    letI := Blake3.onSamples
    ∃ (d₀ : Deployment Nat) (r : Remote PushClient Nat),
      Machine.run (step Deployment.sampleSite ⟨"d_1"⟩ 0) (PushSession.samplePush.map .session)
        { client := .new PushSession.sampleDatabase, deployment := d₀ } = some r ∧
      r.client.phase = .finished 2 2 := by
  let _ := TokenClaimsCodec.protobuf
  let _ := ScanOrder.oldestFirst
  let _ := Argon2.readable
  let _ := Blake3.onSamples
  have hrun : Machine.run (Deployment.step Deployment.sampleSite) ([] : List (Deployment.Turn Nat))
      (.new Deployment.sampleSite fun _ _ => none) =
        some (.new Deployment.sampleSite fun _ _ => none) := rfl
  obtain ⟨d₀, -, hsession⟩ := remote_session Deployment.sampleSite (fun _ _ => none) hrun
    (fun _ _ => rfl) Deployment.sample_upgrade (i := 0) rfl
    (PushClient.new PushSession.sampleDatabase)
  obtain ⟨s, hs, -, hmore⟩ := hsession [] _ nofun rfl
  obtain rfl := Option.some.inj hs
  obtain ⟨t, ht, hphase, -⟩ := PushSession.samplePush_finishes
  obtain ⟨r, hr, hlooks⟩ := hmore _ t ht
  exact ⟨d₀, r, hr, hlooks.client ▸ hphase⟩

theorem remote_push_sample :
    letI := TokenClaimsCodec.protobuf
    letI := ScanOrder.oldestFirst
    letI := Argon2.readable
    letI := Blake3.onSamples
    ∃ (d₀ : Deployment Nat) (labels : List (Label Nat)) (r : Remote PushClient Nat),
      Machine.run (step Deployment.sampleSite ⟨"d_1"⟩ 0) labels
        { client := .new PushSession.sampleDatabase, deployment := d₀ } = some r ∧
      ∃ pagesTransferred bytesTransferred,
        r.client.phase = .finished pagesTransferred bytesTransferred := by
  let _ := TokenClaimsCodec.protobuf
  let _ := ScanOrder.oldestFirst
  let _ := Argon2.readable
  let _ := Blake3.onSamples
  have hrun : Machine.run (Deployment.step Deployment.sampleSite) ([] : List (Deployment.Turn Nat))
      (.new Deployment.sampleSite fun _ _ => none) =
        some (.new Deployment.sampleSite fun _ _ => none) := rfl
  obtain ⟨d₀, -, hpush⟩ := remote_push Deployment.sampleSite (fun _ _ => none) hrun
    (fun _ _ => rfl) Deployment.sample_upgrade (i := 0) rfl PushSession.sampleDatabase
    PushSession.sampleDatabase_injOn
  obtain ⟨-, -, hends⟩ := hpush [] _ nofun rfl
  obtain ⟨more, r, hr, hfinished⟩ := hends nofun
  exact ⟨d₀, more.map .session, r, hr, hfinished⟩

end Remote

end EdgeReplica
