-- SUMMARY: The sessions of one durable object, interleaved over its store, and the schedules under which they are serializable.
import EdgeReplica.Lib.Serial
import EdgeReplica.Services.Footprint
import EdgeReplica.Sync.PushReplica

/-!
# Concurrent sessions

Every WebSocket that a durable object accepts gets a task of its own over the one
store of the object. Nothing keeps two sessions apart: their calls of `apply`
interleave as their frames arrive. They then do what some serial order of them
does as long as their accesses to pages have no cycle of conflicts.
-/

namespace EdgeReplica

open Effect (final)
open Session (Label)

/-! ## Clients of either direction -/

inductive SyncClient where
  | push (c : PushClient)
  | pull (c : PullClient)

namespace SyncClient

/-- The client has received `SyncComplete`. -/
def finished : SyncClient → Bool
  | .push c => match c.phase with
    | .finished .. => true
    | _ => false
  | .pull c => match c.phase with
    | .finished .. => true
    | _ => false

instance [Blake3] [Sqlite] : Peer SyncClient where
  advance
    | .push c => c.advance.map fun (c, frames) => (.push c, frames)
    | .pull c => c.advance.map fun (c, frames) => (.pull c, frames)
  receive
    | .push c, incoming => (c.receive incoming).map .push
    | .pull c, incoming => (c.receive incoming).map .pull
  expects
    | .push c => c.expects
    | .pull c => c.expects
  lose
    | .push c => .push (Peer.lose c)
    | .pull c => .pull (Peer.lose c)
  isOver
    | .push c => c.isOver
    | .pull c => c.isOver

end SyncClient

/-- A session whose client is seen as one of either direction. -/
def Session.ofPush (s : Session PushClient) : Session SyncClient :=
  { s with client := .push s.client }

theorem Session.step_ofPush [Blake3] [Sqlite] (label : Label) (s : Session PushClient) :
    s.ofPush.step label = (s.step label).map Session.ofPush := by
  have hreceive (incoming : Incoming) : Peer.receive (SyncClient.push s.client) incoming =
      (Peer.receive s.client incoming).map .push := rfl
  have hadvance : Peer.advance (SyncClient.push s.client) =
      (Peer.advance s.client).map fun (c, frames) => (.push c, frames) := rfl
  match label with
  | .client =>
    simp only [step, ofPush, hadvance, Option.map_map]
    rfl
  | .deliver =>
    simp only [step, ofPush]
    cases s.toClient with
    | nil => rfl
    | cons msg toClient =>
      simp only [hreceive, Option.map_map]
      rfl
  | .serve nowMs =>
    simp only [step, ofPush]
    cases s.toServer with
    | nil => rfl
    | cons msg toServer =>
      simp only [apply_ite (Option.map ofPush)]
      rfl
  | .serverClosed ended =>
    simp only [step, ofPush, hreceive, apply_ite (Option.map ofPush), Option.map_map]
    rfl
  | .clientClosed nowMs =>
    simp only [step, ofPush, apply_ite (Option.map ofPush)]
    rfl
  | .fault incoming =>
    simp only [step, ofPush, hreceive, apply_ite (Option.map ofPush), Option.map_map]
    rfl
  | .lost =>
    simp only [step, ofPush, apply_ite (Option.map ofPush)]
    rfl

/-! ## A session over another store -/

namespace SessionTask

open SyncFsm (Near apply_twin)

variable [Blake3]

/-- Over two stores that agree on the pages it may touch, a turn does the same. -/
theorem step_near {cells : Set UInt32} {task task' : SessionTask InMemorySyncStorage}
    (h : Near cells task.world task'.world) (hrunning : task'.running = task.running)
    (hclosed : task'.closed = task.closed) (nowMs : Int64) {msg : SyncMessage}
    (hcells : (task.world.fsm.access msg).reads ⊆ cells) :
    let next := task.step nowMs (.binary (.ok msg))
    let next' := task'.step nowMs (.binary (.ok msg))
    Near cells next.world next'.world ∧ next'.running = next.running ∧
      next'.closed = next.closed := by
  have halike := apply_twin nowMs msg h hcells
  have hnear := halike.final
  have hfailed : sendFailed task'.world (final ((SyncFsm.apply nowMs msg).run task'.world)) =
      sendFailed task.world (final ((SyncFsm.apply nowMs msg).run task.world)) := by
    rw [sendFailed, sendFailed, h.history_eq, hnear.history_eq]
  simp only [step, hfailed, halike.fault]
  split
  · exact ⟨hnear, rfl, hclosed⟩
  · split
    · rw [hnear.fsm_eq]
      split
      · exact ⟨hnear, rfl, rfl⟩
      · exact ⟨hnear, hrunning, hclosed⟩
    · exact ⟨hnear.hand _, rfl, rfl⟩

end SessionTask

namespace Session

variable {C : Type}

/-- How a step touches the store. -/
def access (label : Label) (s : Session C) : Access :=
  match label, s.toServer with
  | .serve _, msg :: _ => s.server.world.fsm.access msg
  | _, _ => .none

/-- The page entries of the frames that the client has read. -/
def delivered (s : Session C) : Set PageDataEntry :=
  { entry | ∃ msg ∈ s.server.sent.take (s.server.sent.length - s.toClient.length),
    entry ∈ msg.entries }

@[simp] theorem pages_withPages (s : Session C) (pages : Pages) :
    (s.withPages pages).pages = pages :=
  rfl

@[simp] theorem withPages_toServer (s : Session C) (pages : Pages) :
    (s.withPages pages).toServer = s.toServer := rfl

@[simp] theorem withPages_toClient (s : Session C) (pages : Pages) :
    (s.withPages pages).toClient = s.toClient := rfl

@[simp] theorem access_withPages (label : Label) (s : Session C) (pages : Pages) :
    (s.withPages pages).access label = s.access label := rfl

variable [Blake3]

/-- The session after a turn of the server, over the store `pages` instead. -/
theorem serverStep_near {cells : Set UInt32} (s : Session C) {pages : Pages} (nowMs : Int64)
    (event : WebsocketEvent)
    (h : SyncFsm.Near cells (s.server.step nowMs event).world
        ((s.withPages pages).server.step nowMs event).world ∧
      ((s.withPages pages).server.step nowMs event).running = (s.server.step nowMs event).running ∧
      ((s.withPages pages).server.step nowMs event).closed = (s.server.step nowMs event).closed) :
    ∃ pages',
      (s.withPages pages).serverStep nowMs event = (s.serverStep nowMs event).withPages pages' ∧
      ∀ p ∈ cells, pages'[p]? = (s.serverStep nowMs event).pages[p]? := by
  obtain ⟨hnear, hrunning, hclosed⟩ := h
  refine ⟨((s.withPages pages).server.step nowMs event).world.storage, ?_, hnear.agree⟩
  have hserver : (s.withPages pages).server.step nowMs event =
      { s.server.step nowMs event with
        world := { (s.server.step nowMs event).world with
          storage := ((s.withPages pages).server.step nowMs event).world.storage } } := by
    generalize (s.withPages pages).server.step nowMs event = task' at hnear hrunning hclosed
    obtain ⟨world', running', closed'⟩ := task'
    obtain rfl : running' = _ := hrunning
    obtain rfl : closed' = _ := hclosed
    exact congrArg (SessionTask.mk · _ _) hnear.same
  unfold serverStep
  rw [hserver]
  rfl

variable [Peer C]

/-- A step passes the store by, or it is a turn of the server. -/
theorem step_cases {label : Label} {s s₁ : Session C} (hstep : s.step label = some s₁) :
    ((∀ pages, (s.withPages pages).step label = some (s₁.withPages pages)) ∧ s₁.pages = s.pages) ∨
    (∃ nowMs msg toServer, label = .serve nowMs ∧ s.toServer = msg :: toServer ∧
      s.server.running = true ∧
      s₁ = { s with toServer }.serverStep nowMs (.binary (.ok msg))) ∨
    (∃ nowMs, label = .clientClosed nowMs ∧
      (Peer.isOver s.client = true ∧ s.server.running = true) ∧
      s₁ = s.serverStep nowMs .close) := by
  match label with
  | .client =>
    obtain ⟨⟨client, frames⟩, hadv, rfl⟩ := Option.map_eq_some_iff.mp hstep
    exact .inl ⟨fun _ => Option.map_eq_some_iff.mpr ⟨_, hadv, rfl⟩, rfl⟩
  | .deliver =>
    simp only [step] at hstep ⊢
    split at hstep
    · simp at hstep
    · next msg toClient hqueue =>
      obtain ⟨client, hrecv, rfl⟩ := Option.map_eq_some_iff.mp hstep
      refine .inl ⟨fun pages => ?_, rfl⟩
      rw [withPages_toClient, hqueue]
      exact Option.map_eq_some_iff.mpr ⟨_, hrecv, rfl⟩
  | .serve nowMs =>
    simp only [step] at hstep
    split at hstep
    · simp at hstep
    · next msg toServer hqueue =>
      split at hstep
      · next hrunning =>
        obtain rfl : _ = s₁ := by simpa using hstep
        exact .inr (.inl ⟨nowMs, msg, toServer, rfl, hqueue, hrunning, rfl⟩)
      · simp at hstep
  | .serverClosed ended =>
    simp only [step] at hstep ⊢
    split at hstep
    · next hclosed =>
      obtain ⟨client, hrecv, rfl⟩ := Option.map_eq_some_iff.mp hstep
      exact .inl ⟨fun _ => (if_pos hclosed).trans (Option.map_eq_some_iff.mpr ⟨_, hrecv, rfl⟩), rfl⟩
    · simp at hstep
  | .clientClosed nowMs =>
    simp only [step] at hstep
    split at hstep
    · next hover =>
      obtain rfl : _ = s₁ := by simpa using hstep
      exact .inr (.inr ⟨nowMs, rfl, hover, rfl⟩)
    · simp at hstep
  | .fault incoming =>
    simp only [step] at hstep ⊢
    split at hstep
    · next hfault =>
      obtain ⟨client, hrecv, rfl⟩ := Option.map_eq_some_iff.mp hstep
      exact .inl ⟨fun _ => (if_pos hfault).trans (Option.map_eq_some_iff.mpr ⟨_, hrecv, rfl⟩), rfl⟩
    · simp at hstep
  | .lost =>
    simp only [step] at hstep ⊢
    split at hstep
    · simp at hstep
    · next hover =>
      obtain rfl : _ = s₁ := by simpa using hstep
      exact .inl ⟨fun pages => if_neg hover, rfl⟩

/-- Over another store that agrees on the pages it may touch, a step does the same. -/
theorem step_near {cells : Set UInt32} {label : Label} {s s₁ : Session C} {pages : Pages}
    (h : ∀ p ∈ cells, pages[p]? = s.pages[p]?) (hcells : (s.access label).reads ⊆ cells)
    (hstep : s.step label = some s₁) :
    ∃ pages', (s.withPages pages).step label = some (s₁.withPages pages') ∧
      ∀ p ∈ cells, pages'[p]? = s₁.pages[p]? := by
  have hnear : SyncFsm.Near cells s.server.world (s.withPages pages).server.world := ⟨rfl, h⟩
  rcases step_cases hstep with ⟨hpass, hsame⟩ | ⟨nowMs, msg, toServer, rfl, hqueue, hrunning, rfl⟩ |
    ⟨nowMs, rfl, hover, rfl⟩
  · exact ⟨pages, hpass pages, fun p hp => (h p hp).trans (by rw [hsame])⟩
  · have hreads : (s.server.world.fsm.access msg).reads ⊆ cells := by
      simpa only [access, hqueue] using hcells
    obtain ⟨pages', hnext, hagree⟩ := serverStep_near { s with toServer } nowMs _
      (SessionTask.step_near hnear rfl rfl nowMs hreads)
    refine ⟨pages', ?_, hagree⟩
    rw [← hnext, step, withPages_toServer, hqueue]
    exact if_pos hrunning
  · obtain ⟨pages', hnext, hagree⟩ := serverStep_near s nowMs .close
      ⟨(SyncFsm.twin_clientClosed _ _ hnear).final, rfl, rfl⟩
    refine ⟨pages', ?_, hagree⟩
    rw [← hnext, step]
    exact if_pos hover

/-- A step leaves the pages it does not write as they were. -/
theorem step_outside {label : Label} {s s₁ : Session C} (hstep : s.step label = some s₁)
    {p : UInt32} (hp : p ∉ (s.access label).writes) : s₁.pages[p]? = s.pages[p]? := by
  rcases step_cases hstep with ⟨-, hsame⟩ | ⟨nowMs, msg, toServer, rfl, hqueue, -, rfl⟩ |
    ⟨nowMs, rfl, -, rfl⟩
  · rw [hsame]
  · obtain ⟨-, written, hinitial, htable⟩ := s.server.step_writes nowMs (.binary (.ok msg))
    have hstore : ({ s with toServer }.serverStep nowMs (.binary (.ok msg))).pages =
        s.pages.replay written := htable
    have hmem : p ∉ msg.entries.map PageDataEntry.pageNo := by
      rw [← SyncFsm.written_access s.server.world.fsm msg]
      simp only [access, hqueue] at hp
      exact hp
    rw [hstore]
    exact s.pages.getElem?_replay_of_notMem fun hin => hmem ((hinitial.map _).subset hin)
  · obtain ⟨-, written, hinitial, htable⟩ := s.server.step_writes nowMs .close
    obtain rfl := List.prefix_nil.mp hinitial
    exact congrArg (fun pages : Pages => pages[p]?) htable

end Session

/-! ## The sessions of one durable object -/

/-- What a session is to do. -/
inductive Job where
  | push (db : Database)
  | pull (db : Database)

namespace Job

def client : Job → SyncClient
  | .push db => .push (.new db)
  | .pull db => .pull (.new db)

def direction : Job → Direction
  | .push _ => .push
  | .pull _ => .pull

def start (job : Job) (pages : Pages) : Session SyncClient :=
  .start job.client job.direction pages

end Job

namespace DurableObject

variable [Blake3] [Sqlite] {ι : Type}

/-- The sessions take turns over the one store of their object; between its turns
a session has no store of its own. -/
def sessions : Serial.System Label (Session SyncClient) Pages Access UInt32 (Option Page) where
  step label s pages := ((s.withPages pages).step label).map fun s => (s.withPages ∅, s.pages)
  cell pages p := pages[p]?
  cell_injective _ _ h := Std.ExtTreeMap.ext_getElem? fun p => congrFun h p
  access := Session.access
  reads := Access.reads
  writes := Access.writes
  outside := by
    intro label s s' r t h p hp
    obtain ⟨s₁, hstep, heq⟩ := Option.map_eq_some_iff.mp h
    obtain ⟨-, rfl⟩ := Prod.mk.inj heq
    exact Session.step_outside hstep hp
  inside := by
    intro label s s' r t h r' hr'
    obtain ⟨s₁, hstep, heq⟩ := Option.map_eq_some_iff.mp h
    obtain ⟨rfl, rfl⟩ := Prod.mk.inj heq
    have hcells : ∀ p ∈ (s.access label).reads ∪ (s.access label).writes,
        r'[p]? = (s.withPages r).pages[p]? := fun p hp => hr' p hp
    obtain ⟨t', hstep', hagree⟩ := Session.step_near hcells Set.subset_union_left hstep
    exact ⟨t', Option.map_eq_some_iff.mpr ⟨_, hstep', rfl⟩, fun p hp => hagree p (.inr hp)⟩

/-- The object over the store `pages`, with a session begun for each job. -/
def start (jobs : ι → Job) (pages : Pages) : Serial.Conf ι (Session SyncClient) Pages where
  parts i := (jobs i).start ∅
  shared := pages

/-- The jobs run one after the other, undisturbed, each over the store that the one
before it left. Every client receives `SyncComplete`, and those that pull are
delivered what `delivered` says. -/
inductive SerialOrder (jobs : ι → Job) (delivered : ι → Set PageDataEntry) :
    List ι → Pages → Pages → Prop
  | nil (pages : Pages) : SerialOrder jobs delivered [] pages pages
  | cons {i : ι} {order : List ι} {labels : List Label} {pages pages' : Pages}
      {s : Session SyncClient} (hlabels : ∀ label ∈ labels, label.Undisturbed)
      (hrun : Machine.run Session.step labels ((jobs i).start pages) = some s)
      (hfinished : s.client.finished = true)
      (hdelivered : ∀ db, jobs i = .pull db → s.delivered = delivered i)
      (hrest : SerialOrder jobs delivered order s.pages pages') :
      SerialOrder jobs delivered (i :: order) pages pages'

/-- Some serial order of all the jobs leaves the store of `c`, and delivers what
the sessions in `c` were delivered. -/
def Serializable (jobs : ι → Job) (pages : Pages)
    (c : Serial.Conf ι (Session SyncClient) Pages) : Prop :=
  ∃ order : List ι, order.Nodup ∧ (∀ i, i ∈ order) ∧
    SerialOrder jobs (fun i => (c.parts i).delivered) order pages c.shared

/-! ## Serializable schedules -/

/-- A run of a session on its own is a run over the store it starts on. -/
theorem run_of_solo {labels : List Label} {s t : Session SyncClient} {pages pages' : Pages}
    (h : Machine.run sessions.solo labels (s.withPages ∅, pages) = some (t, pages')) :
    ∃ s', Machine.run Session.step labels (s.withPages pages) = some s' ∧
      s'.withPages ∅ = t ∧ s'.pages = pages' := by
  have hmap : Machine.run sessions.solo labels (s.withPages ∅, pages) =
      (Machine.run Session.step labels (s.withPages pages)).map fun s => (s.withPages ∅, s.pages) :=
    Machine.run_map (f := fun s : Session SyncClient => (s.withPages ∅, s.pages))
      (fun _ _ => rfl) labels (s.withPages pages)
  obtain ⟨s', hrun, heq⟩ := Option.map_eq_some_iff.mp (hmap.symm.trans h)
  obtain ⟨hsession, hstore⟩ := Prod.mk.inj heq
  exact ⟨s', hrun, hsession, hstore⟩

theorem SerialOrder.of_serialRun {jobs : ι → Job} {final : ι → Session SyncClient}
    (hfinished : ∀ i, (final i).client.finished = true) {order : List ι} {pages pages' : Pages}
    (h : sessions.SerialRun Label.Undisturbed (fun i => (jobs i).start ∅) final order pages
      pages') :
    SerialOrder jobs (fun i => (final i).delivered) order pages pages' := by
  induction h with
  | nil pages => exact .nil pages
  | @cons i order labels pages pages₁ pages₂ hlabels hsolo _ ih =>
    obtain ⟨s, hrun, hsame, rfl⟩ := run_of_solo (s := (jobs i).start ∅) hsolo
    have hdone := hfinished i
    rw [← hsame] at hdone
    exact .cons hlabels hrun hdone (fun _ _ => by rw [← hsame]; rfl) ih

/-- Sessions whose accesses to pages have no cycle of conflicts are serializable. -/
theorem serializable_of_acyclic [Fintype ι] [DecidableEq ι] (jobs : ι → Job) (pages : Pages)
    {labels : List (ι × Label)} (hlabels : ∀ label ∈ labels, label.2.Undisturbed)
    {c : Serial.Conf ι (Session SyncClient) Pages}
    (hrun : Machine.run sessions.turn labels (start jobs pages) = some c)
    (hfinished : ∀ i, (c.parts i).client.finished = true)
    (hacyclic : sessions.Acyclic (sessions.trace labels (start jobs pages))) :
    Serializable jobs pages c := by
  obtain ⟨order, hnodup, hall, hserial⟩ :=
    Serial.System.serial_of_acyclic Label.Undisturbed hlabels hrun hacyclic
  exact ⟨order, hnodup, hall, .of_serialRun hfinished hserial⟩

/-- A push of a new first page, and a pull of the two pages there were. -/
def sampleJobs : Fin 2 → Job
  | 0 => .push ⟨[Sqlite.firstPage 2 6 2 1, Sqlite.freePage], by simp⟩
  | 1 => .pull Sqlite.onePage

/-- The store of a database of two pages. -/
def sampleStore : Pages :=
  ((∅ : Pages).write ⟨1, Sqlite.firstPage 2 5 2 1⟩).write ⟨2, Sqlite.freePage⟩

/-- The push begins first, but writes when the pull has read what it needs. -/
def sampleSchedule : List (Fin 2 × Label) :=
  [(0, .client), (1, .client), (0, .serve 0), (1, .serve 0), (0, .deliver), (1, .deliver),
    (0, .client), (1, .client), (0, .client), (0, .client), (0, .client), (0, .client),
    (0, .serve 0), (0, .serve 0), (1, .serve 0), (1, .client), (0, .serve 0), (0, .deliver),
    (0, .client), (1, .serve 0), (1, .deliver), (1, .deliver), (1, .deliver), (0, .serve 0),
    (0, .deliver)]

/-- Turns that write nothing do not conflict. -/
theorem not_conflict {a b : Access} (ha : a.written = []) (hb : b.written = []) :
    ¬ sessions.Conflict a b := by
  rintro ⟨p, ⟨hp, -⟩ | ⟨-, hp⟩⟩
  · have hmem : p ∈ a.written := hp
    simp [ha] at hmem
  · have hmem : p ∈ b.written := hp
    simp [hb] at hmem

omit [Blake3] [Sqlite] in
theorem serializable_of_acyclic_sample :
    letI := Blake3.onPages
    letI := Sqlite.dbpage
    ∃ c, Machine.run sessions.turn sampleSchedule (start sampleJobs sampleStore) = some c ∧
      Serializable sampleJobs sampleStore c := by
  let _ := Blake3.onPages
  let _ := Sqlite.dbpage
  have hrun : (Machine.run sessions.turn sampleSchedule (start sampleJobs sampleStore)).map
      (fun c => ((c.parts 0).client.finished, (c.parts 1).client.finished)) =
      some (true, true) := by
    decide +kernel
  obtain ⟨c, hc, hfinished⟩ := Option.map_eq_some_iff.mp hrun
  have htrace : (sessions.trace sampleSchedule (start sampleJobs sampleStore)).map
      (fun turn => (turn.1, turn.2.written)) =
        [(0, []), (1, []), (0, []), (1, []), (0, []), (1, []), (0, []), (1, []), (0, []), (0, []),
          (0, []), (0, []), (0, []), (0, []), (1, []), (1, []), (0, []), (0, []), (0, []), (1, []),
          (1, []), (1, []), (1, []), (0, [1]), (0, [])] := by decide +kernel
  have hpull : ((sessions.trace sampleSchedule (start sampleJobs sampleStore)).map
      fun turn => (turn.1, turn.2.written)).Pairwise fun a b =>
        b.1 < a.1 ∨ a.1 = b.1 ∨ (a.2 = [] ∧ b.2 = []) := by
    rw [htrace]
    decide
  refine ⟨c, hc, serializable_of_acyclic sampleJobs sampleStore (by decide) hc ?_
    (Serial.System.acyclic_of_rank (fun i => 1 - i.val) ?_)⟩
  · rw [Fin.forall_fin_two]
    exact Prod.mk.inj hfinished
  · refine (List.pairwise_map.mp hpull).imp fun {a b} h => ?_
    rcases h with hlt | heq | ⟨ha, hb⟩
    · have hlt : b.1 < a.1 := hlt
      exact .inl (by omega)
    · exact .inr (.inl heq)
    · exact .inr (.inr (not_conflict ha hb))

/-! ## A schedule that no order of the sessions explains -/

/-- The store after an undisturbed push carries its digests. -/
theorem hash_of_push {db : Database} {pages : Pages} {labels : List Label}
    (hlabels : ∀ label ∈ labels, label.Undisturbed) {s : Session SyncClient}
    (hrun : Machine.run Session.step labels ((Job.push db).start pages) = some s)
    (hfinished : s.client.finished = true) {p : UInt32} (hp : p ∈ db.pageNumbers) :
    (s.pages[p]?).map Page.hash = some (pageHash (db.bytes p)) := by
  have hmap := Machine.run_map Session.step_ofPush labels (.start (.new db) .push pages)
  obtain ⟨push, hpush, rfl⟩ := Option.map_eq_some_iff.mp (hmap.symm.trans hrun)
  have hagrees := (PushSession.agrees_start db pages).run hlabels hpush
  cases hphase : push.client.phase with
  | finished pagesTransferred bytesTransferred =>
    exact PushSession.hash_of_finished hagrees hphase hp
  | _ => simp [Session.ofPush, SyncClient.finished, hphase] at hfinished

/-- What holds of the store after each of the jobs holds at the end. -/
theorem SerialOrder.last {jobs : ι → Job} {delivered : ι → Set PageDataEntry} {order : List ι}
    {pages pages' : Pages} (h : SerialOrder jobs delivered order pages pages') (hne : order ≠ []) :
    ∃ i before labels s, (∀ label ∈ labels, label.Undisturbed) ∧
      Machine.run Session.step labels ((jobs i).start before) = some s ∧ s.client.finished = true ∧
      s.pages = pages' := by
  induction h with
  | nil => exact absurd rfl hne
  | @cons i order labels pages pages' s hlabels hrun hfinished _ hrest ih =>
    cases order with
    | nil =>
      cases hrest
      exact ⟨i, pages, labels, s, hlabels, hrun, hfinished, rfl⟩
    | cons j order => exact ih (by simp)

/-- Two databases of two pages. -/
def rivals : Fin 2 → Database
  | 0 => ⟨[[1], [1]], by simp⟩
  | 1 => ⟨[[2], [2]], by simp⟩

/-- A push of two pages up to the point where the server takes up their bytes. -/
def opening : List Label :=
  [.client, .serve 0, .deliver, .client, .client, .client, .client, .client, .serve 0, .serve 0,
    .serve 0, .deliver, .client, .deliver, .client]

/-- Both clients were asked for both pages; then the second one's bytes arrive
between those of the first. -/
def rivalSchedule : List (Fin 2 × Label) :=
  opening.map (0, ·) ++ opening.map (1, ·) ++
    [(0, .serve 0), (1, .serve 0), (1, .serve 0), (0, .serve 0), (0, .deliver), (1, .deliver)]

omit [Blake3] [Sqlite] in
/-- Two pushes that interleave leave a page of each. -/
theorem sessions_not_serializable :
    letI := Blake3.onSamples
    letI := Sqlite.dbpage
    ¬ ∀ (n : Nat) (jobs : Fin n → Job) (pages : Pages) (labels : List (Fin n × Label))
        (c : Serial.Conf (Fin n) (Session SyncClient) Pages),
      (∀ label ∈ labels, label.2.Undisturbed) →
      Machine.run sessions.turn labels (start jobs pages) = some c →
      (∀ i, (c.parts i).client.finished = true) → Serializable jobs pages c := by
  let _ := Blake3.onSamples
  let _ := Sqlite.dbpage
  intro h
  let jobs : Fin 2 → Job := fun i => .push (rivals i)
  have hrun : (Machine.run sessions.turn rivalSchedule (start jobs ∅)).map
      (fun c => ((c.parts 0).client.finished, (c.parts 1).client.finished, c.shared)) =
        some (true, true, ((∅ : Pages).write ⟨1, [2]⟩).write ⟨2, [1]⟩) := by decide +kernel
  obtain ⟨c, hc, heq⟩ := Option.map_eq_some_iff.mp hrun
  obtain ⟨hfirst, hsecond, hstore⟩ : _ ∧ _ ∧ c.shared = _ := by simpa only [Prod.mk.injEq] using heq
  obtain ⟨order, -, hall, hserial⟩ := h 2 jobs ∅ rivalSchedule c (by decide) hc
    (Fin.forall_fin_two.mpr ⟨hfirst, hsecond⟩)
  obtain ⟨i, before, labels, s, hlabels, hlast, hfinished, hpages⟩ :=
    hserial.last (List.ne_nil_of_mem (hall 0))
  -- The last of the two would have left its own bytes at both pages.
  have hpage (p : UInt32) (hp : p ∈ (rivals i).pageNumbers) :
      (c.shared[p]?).map Page.hash = some (pageHash ((rivals i).bytes p)) :=
    hpages ▸ hash_of_push hlabels hlast hfinished hp
  rw [hstore] at hpage
  match i with
  | 0 => exact absurd (hpage 1 (by decide)) (by decide +kernel)
  | 1 => exact absurd (hpage 2 (by decide)) (by decide +kernel)

end DurableObject

end EdgeReplica
