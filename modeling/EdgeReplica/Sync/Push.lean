-- SUMMARY: The push session as two parties: what each has sent and received, at every point of every interleaving.
import Mathlib.Algebra.Ring.Nat
import EdgeReplica.Sync.Script

/-!
# Push sessions

What an undisturbed push session says on the wire does not depend on the
schedule: the frames either party has sent are always a prefix of one fixed
sequence. The invariant says where in the two sequences the parties stand, and
with it everything about their states.
-/

namespace EdgeReplica

open Session (hello reply hashOf)

/-- The entry that carries page `p` of the database. -/
def Database.entry (db : Database) (p : UInt32) : PageDataEntry := ⟨p, db.bytes p⟩

/-- The number of bytes in the pages of a list. -/
def Database.size (db : Database) (ps : List UInt32) : Nat :=
  (ps.map fun p => (db.bytes p).length).sum

namespace PushSession

variable [Blake3] (db : Database) (pages : Pages)

/-! ## The frames of a session -/

/-- The stored digest of page `p` is not the client's. -/
def mismatched (p : UInt32) : Bool :=
  decide ((pages[p]?).map Page.hash ≠ some (pageHash (db.bytes p)))

/-- The pages the server asks for. -/
def needed : List UInt32 := db.pageNumbers.filter (mismatched db pages)

def dataOf (p : UInt32) : SyncMessage := .pageData p (db.bytes p)

def completion : SyncMessage :=
  .syncComplete (UInt64.ofNat (needed db pages).length)
    (UInt64.ofNat (db.size (needed db pages)))

/-- Everything the client sends. -/
def clientFrames : List SyncMessage :=
  hello db :: (db.pageNumbers.map (hashOf db) ++ .complete :: (needed db pages).map (dataOf db))

/-- Everything the server sends. -/
def serverFrames : List SyncMessage :=
  reply pages :: ((needed db pages).map .requestPage ++ [completion db pages])

/-! ## Where the server stands -/

/-- The server has compared the hashes of `ks`. -/
structure ServerHashing (ks : List UInt32) (task : SessionTask InMemorySyncStorage) : Prop where
  running : task.running = true
  closed : task.closed = none
  sink : task.world.sink = fun _ => none
  storage : task.world.storage = pages
  fsm : task.world.fsm =
    { direction := .push
      sawHello := true
      pendingRequests := (ks.filter (mismatched db pages)).toFinset
      clientSeen := ks.toFinset
      serverMaxPage := pages.keys.getLast?.getD 0 }
  sent : task.sent = reply pages :: (ks.filter (mismatched db pages)).map .requestPage

/-- The machine after the hash phase, before the gate is tried. -/
def servingFsm (ds rest : List UInt32) : SyncFsm where
  direction := .push
  sawHello := true
  completedHashPhase := true
  pendingRequests := rest.toFinset
  clientSeen := db.pageNumbers.toFinset
  serverMaxPage := pages.keys.getLast?.getD 0
  pagesTransferred := UInt64.ofNat ds.length
  bytesTransferred := UInt64.ofNat (db.size ds)

/-- The server has written the pages `ds` and awaits the pages `rest`. -/
structure ServerServing (ds rest : List UInt32) (task : SessionTask InMemorySyncStorage) :
    Prop where
  running : task.running = !rest.isEmpty
  closed : task.closed = if rest = [] then some (1000, "sync complete") else none
  sink : task.world.sink = fun _ => none
  storage : task.world.storage = pages.replay (ds.map db.entry)
  fsm : task.world.fsm = { servingFsm db pages ds rest with emittedComplete := rest.isEmpty }
  sent : task.sent = reply pages :: ((needed db pages).map .requestPage ++
    if rest = [] then [completion db pages] else [])

/-- The server has taken up the frames `consumed` and sent the frames `emitted`. -/
inductive ServerAt : List SyncMessage → List SyncMessage → SessionTask InMemorySyncStorage → Prop
  | fresh : ServerAt [] [] (.spawn .push pages fun _ => false)
  | hashing {ks rest : List UInt32} {task : SessionTask InMemorySyncStorage}
      (hsplit : db.pageNumbers = ks ++ rest) (h : ServerHashing db pages ks task) :
      ServerAt (hello db :: ks.map (hashOf db))
        (reply pages :: (ks.filter (mismatched db pages)).map .requestPage) task
  | serving {ds rest : List UInt32} {task : SessionTask InMemorySyncStorage}
      (hsplit : needed db pages = ds ++ rest) (h : ServerServing db pages ds rest task) :
      ServerAt (hello db :: (db.pageNumbers.map (hashOf db) ++ .complete :: ds.map (dataOf db)))
        (reply pages :: ((needed db pages).map .requestPage ++
          if rest = [] then [completion db pages] else [])) task

variable {db pages} {consumed emitted : List SyncMessage} {task : SessionTask InMemorySyncStorage}

theorem ServerAt.sent (h : ServerAt db pages consumed emitted task) : task.sent = emitted := by
  cases h with
  | fresh => rfl
  | hashing _ h => exact h.sent
  | serving _ h => exact h.sent

theorem ServerAt.emitted_isPrefix (h : ServerAt db pages consumed emitted task) :
    emitted <+: serverFrames db pages := by
  cases h with
  | fresh => exact List.nil_prefix
  | @hashing ks rest _ hsplit _ =>
    have hneeded : needed db pages =
        ks.filter (mismatched db pages) ++ rest.filter (mismatched db pages) := by
      rw [needed, hsplit, List.filter_append]
    refine List.prefix_cons_inj _ |>.mpr ?_
    rw [hneeded, List.map_append, List.append_assoc]
    exact List.prefix_append _ _
  | serving hsplit _ =>
    refine List.prefix_cons_inj _ |>.mpr ((List.prefix_append_right_inj _).mpr ?_)
    split
    · exact List.prefix_refl _
    · exact List.nil_prefix

/-- Once it sent everything, the server has taken up everything and has closed. -/
theorem ServerAt.complete (h : ServerAt db pages consumed emitted task)
    (hall : emitted = serverFrames db pages) :
    consumed = clientFrames db pages ∧
      ServerServing db pages (needed db pages) [] task := by
  have hmem : completion db pages ∈ emitted := by simp [hall, serverFrames]
  cases h with
  | fresh => simp at hmem
  | hashing hsplit _ => simp [completion, reply] at hmem
  | @serving ds rest _ hsplit h =>
    cases rest with
    | nil =>
      obtain rfl : needed db pages = ds := by simpa using hsplit
      exact ⟨rfl, h⟩
    | cons p rest => simp [completion, reply] at hmem

/-- A server that does not run any more has sent everything. -/
theorem ServerAt.of_stopped (h : ServerAt db pages consumed emitted task)
    (hstop : task.running = false) : emitted = serverFrames db pages := by
  cases h with
  | fresh => simp [SessionTask.spawn] at hstop
  | hashing _ h => simp [h.running] at hstop
  | @serving ds rest _ hsplit h =>
    cases rest with
    | nil => rfl
    | cons p rest => simp [h.running] at hstop

/-! ## The server's turns -/

theorem serverHello (nowMs : Int64) :
    ServerHashing db pages []
      ((SessionTask.spawn .push pages fun _ => false).step nowMs (.binary (.ok (hello db)))) := by
  have hrun := SyncFsm.run_apply_hello (w := (SessionTask.spawn .push pages fun _ => false).world)
    rfl rfl nowMs DEFAULT_PAGE_SIZE db.maxPage
  rw [hello, SessionTask.step_of_ok _ hrun rfl (by simp [SessionTask.refusal, SessionTask.spawn,
    SessionTask.socket])]
  exact ⟨rfl, rfl, rfl, rfl, rfl, rfl⟩

theorem ServerHashing.takeHash {ks : List UInt32} (h : ServerHashing db pages ks task)
    (nowMs : Int64) (p : UInt32) :
    ServerHashing db pages (ks ++ [p]) (task.step nowMs (.binary (.ok (hashOf db p)))) := by
  have hsaw : task.world.fsm.sawHello = true := by rw [h.fsm]
  have hdir : task.world.fsm.direction = .push := by rw [h.fsm]
  have hsent : sentBy task.world.history = _ := h.sent
  have hrun := SyncFsm.run_apply_pageHash hsaw nowMs p (pageHash (db.bytes p))
  rw [SyncFsm.run_handlePageHash_push _ _ _ hdir, h.storage] at hrun
  cases hmis : mismatched db pages p with
  | false =>
    have heq : (pages[p]?).map Page.hash = some (pageHash (db.bytes p)) := by
      simpa [mismatched] using hmis
    rw [if_pos heq] at hrun
    rw [hashOf, SessionTask.step_of_ok [] hrun (by simp) (by simp),
      if_neg (by simp [SyncFsm.done, SyncFsm.claim, h.fsm])]
    refine ⟨h.running, h.closed, h.sink, h.storage, ?_, ?_⟩
    · simp [SyncFsm.claim, h.fsm, List.filter_append, hmis]
    · simpa [List.filter_append, hmis] using hsent
  | true =>
    have hne : ¬ (pages[p]?).map Page.hash = some (pageHash (db.bytes p)) := by
      simpa [mismatched] using hmis
    rw [if_neg hne, SyncFsm.run_emit_reliable (by exact h.sink)] at hrun
    rw [hashOf, SessionTask.step_of_ok _ hrun rfl (by simp [SessionTask.refusal, h.sink]),
      if_neg (by simp [SyncFsm.done, SyncFsm.claim, SyncFsm.await, h.fsm])]
    refine ⟨h.running, h.closed, h.sink, h.storage, ?_, ?_⟩
    · simp [SyncFsm.claim, SyncFsm.await, h.fsm, List.filter_append, hmis]
    · simp [hsent, h.sink, List.filter_append, hmis]

/-- A turn that ends at the gate: the machine passes it if it awaits no page. -/
theorem ServerServing.of_gate {ds rest : List UInt32} {nowMs : Int64} {msg : SyncMessage}
    {w : World InMemorySyncStorage} (events : List Event)
    (hsplit : needed db pages = ds ++ rest) (htask : task.running = true ∧ task.closed = none)
    (hsent : task.sent = reply pages :: (needed db pages).map .requestPage)
    (hrun : (SyncFsm.apply nowMs msg).run task.world = .ok () (SyncFsm.passGate w))
    (hsink : w.sink = fun _ => none) (hstorage : w.storage = pages.replay (ds.map db.entry))
    (hfsm : w.fsm = servingFsm db pages ds rest)
    (hhist : w.history = task.world.history ++ events)
    (hquiet : ∀ e ∈ events, SessionTask.refusal e = false) (hevents : sentBy events = []) :
    ServerServing db pages ds rest (task.step nowMs (.binary (.ok msg))) := by
  have hold : sentBy task.world.history = reply pages :: (needed db pages).map .requestPage := hsent
  have hgate : w.fsm.GateOpen ↔ rest = [] := by
    simp [SyncFsm.GateOpen, hfsm, servingFsm]
  cases rest with
  | nil =>
    obtain rfl : needed db pages = ds := by simpa using hsplit
    rw [SyncFsm.passGate, if_pos (hgate.mpr rfl)] at hrun
    rw [SessionTask.step_of_ok (events ++
      [.handed (.syncComplete w.fsm.pagesTransferred w.fsm.bytesTransferred) none]) hrun
      (by simp [hhist, hsink]) ?_, if_pos (by rfl)]
    · refine ⟨rfl, rfl, hsink, hstorage, ?_, ?_⟩
      · simp [hfsm, servingFsm]
      · simp [hhist, hsink, hold, hevents, hfsm, servingFsm, completion]
    · intro e he
      rcases List.mem_append.mp he with he | he
      · exact hquiet e he
      · obtain rfl := List.mem_singleton.mp he
        rfl
  | cons p rest =>
    rw [SyncFsm.passGate, if_neg (by simp [hgate])] at hrun
    rw [SessionTask.step_of_ok _ hrun hhist hquiet,
      if_neg (by simp [SyncFsm.done, hfsm, servingFsm])]
    refine ⟨htask.1, htask.2, hsink, hstorage, hfsm, ?_⟩
    simp [hhist, hold, hevents]

theorem ServerHashing.takeComplete (h : ServerHashing db pages db.pageNumbers task)
    (nowMs : Int64) :
    ServerServing db pages [] (needed db pages) (task.step nowMs (.binary (.ok .complete))) := by
  have hsaw : task.world.fsm.sawHello = true := by rw [h.fsm]
  have hdir : task.world.fsm.direction = .push := by rw [h.fsm]
  refine ServerServing.of_gate (w := SyncFsm.completing task.world) [.complete] rfl
    ⟨h.running, h.closed⟩ h.sent (SyncFsm.run_apply_complete_push h.sink hsaw hdir nowMs) h.sink
    h.storage ?_ rfl (by simp [SessionTask.refusal]) rfl
  simp [SyncFsm.completing, h.fsm, servingFsm, needed, Database.size]

theorem ServerServing.takeData {p : UInt32} {ds rest : List UInt32}
    (h : ServerServing db pages ds (p :: rest) task) (hsplit : needed db pages = ds ++ p :: rest)
    (nowMs : Int64) :
    ServerServing db pages (ds ++ [p]) rest (task.step nowMs (.binary (.ok (dataOf db p)))) := by
  have hsaw : task.world.fsm.sawHello = true := by rw [h.fsm]; rfl
  have hnodup : (needed db pages).Nodup := db.pageNumbers_nodup.filter _
  have hp : p ∉ rest := by
    rw [hsplit] at hnodup
    exact (List.nodup_cons.mp (List.nodup_append.mp hnodup).2.1).1
  have hrun := SyncFsm.run_apply_pageData h.sink hsaw nowMs (db.entry p)
  refine ServerServing.of_gate (w := SyncFsm.taken (db.entry p) task.world) _
    (by simpa using hsplit) ⟨h.running, h.closed⟩ (by simpa using h.sent) hrun h.sink ?_ ?_ rfl
    (by simp [SessionTask.refusal]) rfl
  · simp [h.storage, Pages.replay_append, Pages.replay_cons]
  · simp [SyncFsm.taken, SyncFsm.count, h.fsm, servingFsm, Database.size, hp, Database.entry]

/-- The server's next turn, when the frames it has taken up and the next one are
what the client sends. -/
theorem ServerAt.step {msg : SyncMessage} (h : ServerAt db pages consumed emitted task)
    (hmsg : consumed ++ [msg] <+: clientFrames db pages) (nowMs : Int64) :
    ∃ more, ServerAt db pages (consumed ++ [msg]) (emitted ++ more)
      (task.step nowMs (.binary (.ok msg))) := by
  cases h with
  | fresh =>
    obtain rfl : msg = hello db := by simpa [clientFrames] using hmsg
    exact ⟨[reply pages], .hashing (List.nil_append _).symm (serverHello nowMs)⟩
  | @hashing ks rest _ hsplit h =>
    have hnext : [msg] <+: rest.map (hashOf db) ++
        .complete :: (needed db pages).map (dataOf db) := by
      simpa [clientFrames, hsplit, List.prefix_append_right_inj] using hmsg
    cases rest with
    | nil =>
      obtain rfl : msg = .complete := by simpa using hnext
      obtain rfl : ks = db.pageNumbers := by simpa using hsplit.symm
      refine ⟨if needed db pages = [] then [completion db pages] else [], ?_⟩
      have hnew := ServerAt.serving (List.nil_append _).symm (h.takeComplete nowMs)
      simpa [needed] using hnew
    | cons p rest =>
      obtain rfl : msg = hashOf db p := by simpa using hnext
      refine ⟨([p].filter (mismatched db pages)).map .requestPage, ?_⟩
      have hnew := ServerAt.hashing (by simpa using hsplit) (h.takeHash nowMs p)
      simpa only [List.map_append, List.filter_append, List.cons_append, List.map_cons,
        List.map_nil] using hnew
  | @serving ds rest _ hsplit h =>
    have hnext : [msg] <+: rest.map (dataOf db) := by
      simpa [clientFrames, hsplit, List.prefix_append_right_inj] using hmsg
    cases rest with
    | nil => simp at hnext
    | cons p rest =>
      obtain rfl : msg = dataOf db p := by simpa using hnext
      refine ⟨if rest = [] then [completion db pages] else [], ?_⟩
      have hnew := ServerAt.serving (by simpa using hsplit) (h.takeData hsplit nowMs)
      simpa using hnew

/-! ## Where the client stands -/

/-- The client has sent the frames `sent` and received the frames `received`. -/
inductive ClientAt (db : Database) (pages : Pages) :
    List SyncMessage → List SyncMessage → PushClient → Prop
  | start : ClientAt db pages [] [] (.new db)
  | awaitReply : ClientAt db pages [hello db] [] { PushClient.new db with phase := .awaitReply }
  | hashing {ks rest rs more : List UInt32} {phase : PushPhase}
      (hsplit : db.pageNumbers = ks ++ rest) (hneeded : needed db pages = rs ++ more)
      (hphase : phase = .hashing ∨ phase = .draining) :
      ClientAt db pages (hello db :: ks.map (hashOf db)) (reply pages :: rs.map .requestPage)
        ⟨.after db ks.length, rs, phase⟩
  | serving {ds pending more : List UInt32} (hneeded : needed db pages = ds ++ pending ++ more) :
      ClientAt db pages
        (hello db :: (db.pageNumbers.map (hashOf db) ++ .complete :: ds.map (dataOf db)))
        (reply pages :: (ds ++ pending).map .requestPage)
        ⟨.after db db.pageNumbers.length, pending, .serving⟩
  | finished :
      ClientAt db pages (clientFrames db pages) (serverFrames db pages)
        ⟨.after db db.pageNumbers.length, [], .finished (UInt64.ofNat (needed db pages).length)
          (UInt64.ofNat (db.size (needed db pages)))⟩

variable {sent received : List SyncMessage} {client : PushClient}

theorem ClientAt.sent_isPrefix (h : ClientAt db pages sent received client) :
    sent <+: clientFrames db pages := by
  cases h with
  | start => exact List.nil_prefix
  | awaitReply => exact List.prefix_append [hello db] _
  | hashing hsplit _ _ =>
    refine List.prefix_cons_inj _ |>.mpr ?_
    rw [hsplit, List.map_append, List.append_assoc]
    exact List.prefix_append _ _
  | serving hneeded =>
    refine List.prefix_cons_inj _ |>.mpr ((List.prefix_append_right_inj _).mpr ?_)
    refine List.prefix_cons_inj _ |>.mpr ?_
    rw [hneeded, List.append_assoc, List.map_append]
    exact List.prefix_append _ _
  | finished => exact List.prefix_refl _

/-- What the client does on its own is to send the next of its frames. -/
theorem ClientAt.advance {client' : PushClient} {frames : List SyncMessage}
    (h : ClientAt db pages sent received client)
    (hadv : client.advance = some (client', frames)) :
    ClientAt db pages (sent ++ frames) received client' := by
  cases h with
  | start =>
    obtain ⟨rfl, rfl⟩ : _ ∧ _ := by simpa [PushClient.advance, PushClient.new] using hadv
    exact .awaitReply
  | awaitReply => simp [PushClient.advance] at hadv
  | @hashing ks rest rs more phase hsplit hneeded hphase =>
    rcases hphase with rfl | rfl
    · cases rest with
      | nil =>
        obtain rfl : ks = db.pageNumbers := by simpa using hsplit.symm
        simp only [PushClient.advance, PageReader.nextHash_done] at hadv
        obtain ⟨rfl, rfl⟩ : _ ∧ _ := by simpa using hadv
        exact @ClientAt.serving _ db pages [] rs more hneeded
      | cons p rest =>
        simp only [PushClient.advance, PageReader.nextHash_more hsplit] at hadv
        obtain ⟨rfl, rfl⟩ : _ ∧ _ := by simpa using hadv
        have hnew := @ClientAt.hashing _ db pages (ks ++ [p]) rest rs more .draining
          (by simpa using hsplit) hneeded (.inr rfl)
        simpa [hashOf] using hnew
    · obtain ⟨rfl, rfl⟩ : _ ∧ _ := by simpa [PushClient.advance] using hadv
      rw [List.append_nil]
      exact .hashing hsplit hneeded (.inl rfl)
  | @serving ds pending more hneeded =>
    cases pending with
    | nil => simp [PushClient.advance] at hadv
    | cons p pending =>
      have hmem : p ∈ db.pageNumbers := by
        have hp : p ∈ needed db pages := by simp [hneeded]
        exact (List.mem_filter.mp hp).1
      simp only [PushClient.advance, PageReader.readPage_of_mem hmem] at hadv
      obtain ⟨rfl, rfl⟩ : _ ∧ _ := by simpa using hadv
      have hnew := @ClientAt.serving _ db pages (ds ++ [p]) pending more (by simpa using hneeded)
      simpa [dataOf] using hnew
  | finished => simp [PushClient.advance] at hadv

/-- The next frame of the server is one the client waits for. -/
theorem ClientAt.receive {client' : PushClient} {msg : SyncMessage}
    (h : ClientAt db pages sent received client)
    (hmsg : received ++ [msg] <+: serverFrames db pages)
    (hlast : received ++ [msg] = serverFrames db pages → sent = clientFrames db pages)
    (hrecv : client.receive (.binary (.ok msg)) = some client') :
    ClientAt db pages sent (received ++ [msg]) client' := by
  cases h with
  | start => simp [PushClient.receive, PushClient.new] at hrecv
  | awaitReply =>
    obtain rfl : msg = reply pages := by simpa [serverFrames] using hmsg
    obtain rfl : _ = client' := by
      simpa [PushClient.receive, readReply, recv, reply, Except.bind, checkReply] using hrecv
    exact @ClientAt.hashing _ db pages [] _ [] _ _ rfl rfl (.inl rfl)
  | @hashing ks rest rs more phase hsplit hneeded hphase =>
    rcases hphase with rfl | rfl
    · simp [PushClient.receive] at hrecv
    · have hnext : [msg] <+: more.map .requestPage ++ [completion db pages] := by
        simpa [serverFrames, hneeded, List.prefix_append_right_inj] using hmsg
      cases more with
      | nil =>
        -- The server completes only after the client's `Complete`.
        obtain rfl : msg = completion db pages := by simpa using hnext
        have hall := hlast (by simp [serverFrames, hneeded])
        have hmem : SyncMessage.complete ∈ hello db :: ks.map (hashOf db) := by
          simp [hall, clientFrames]
        simp [hello, hashOf] at hmem
      | cons p more =>
        obtain rfl : msg = .requestPage p := by simpa using hnext
        obtain rfl : _ = client' := by simpa [PushClient.receive, PushClient.drainReady] using hrecv
        have hnew := @ClientAt.hashing _ db pages ks rest (rs ++ [p]) more .draining hsplit
          (by simpa using hneeded) (.inr rfl)
        simpa using hnew
  | @serving ds pending more hneeded =>
    cases pending with
    | cons p pending => simp [PushClient.receive] at hrecv
    | nil =>
      have hnext : [msg] <+: more.map .requestPage ++ [completion db pages] := by
        simpa [serverFrames, hneeded, List.prefix_append_right_inj] using hmsg
      cases more with
      | nil =>
        obtain rfl : msg = completion db pages := by simpa using hnext
        obtain rfl : _ = client' := by
          simpa [PushClient.receive, recv, PushClient.drain, completion] using hrecv
        have hds : ds = needed db pages := by simpa using hneeded.symm
        subst hds
        simpa [clientFrames, serverFrames] using @ClientAt.finished _ db pages
      | cons p more =>
        obtain rfl : msg = .requestPage p := by simpa using hnext
        obtain rfl : _ = client' := by
          simpa [PushClient.receive, recv, PushClient.drain] using hrecv
        have hnew := @ClientAt.serving _ db pages ds [p] more (by simpa using hneeded)
        simpa using hnew
  | finished => simp [PushClient.receive] at hrecv

/-- A client that has received all the server sends has finished. -/
theorem ClientAt.finished_of_received (h : ClientAt db pages sent received client)
    (hall : received = serverFrames db pages) :
    client.phase = .finished (UInt64.ofNat (needed db pages).length)
      (UInt64.ofNat (db.size (needed db pages))) := by
  have hmem : completion db pages ∈ received := by simp [hall, serverFrames]
  cases h with
  | start => simp at hmem
  | awaitReply => simp at hmem
  | hashing _ _ _ => simp [completion, reply] at hmem
  | serving _ => simp [completion, reply] at hmem
  | finished => rfl

/-- A client that has returned has received all the server sends. -/
theorem ClientAt.received_of_over (h : ClientAt db pages sent received client)
    (hover : client.isOver = true) : received = serverFrames db pages := by
  cases h with
  | start => simp [PushClient.isOver, PushClient.new] at hover
  | awaitReply => simp [PushClient.isOver] at hover
  | hashing _ _ hphase => rcases hphase with rfl | rfl <;> simp [PushClient.isOver] at hover
  | serving _ => simp [PushClient.isOver] at hover
  | finished => rfl

theorem ClientAt.not_failed (h : ClientAt db pages sent received client) (error : ClientError) :
    client.phase ≠ .failed error := by
  cases h with
  | hashing _ _ hphase => rcases hphase with rfl | rfl <;> simp
  | _ => simp [PushClient.new]

/-- The script of a push of `db` over the store `pages`. -/
def script (db : Database) (pages : Pages) : Script PushClient where
  clientFrames := clientFrames db pages
  serverFrames := serverFrames db pages
  ServerAt := ServerAt db pages
  ClientAt := ClientAt db pages
  Refused _ := False
  server_sent h := h.sent
  server_prefix h := h.emitted_isPrefix
  server_complete h hall := ⟨(h.complete hall).1, (h.complete hall).2.running⟩
  server_stopped h hstop := h.of_stopped hstop
  server_step h hmsg nowMs := h.step hmsg nowMs
  client_prefix h := h.sent_isPrefix
  client_advance h hadv := .inl (h.advance hadv)
  client_receive h hmsg hlast hrecv := .inl (h.receive hmsg hlast hrecv)
  client_over h hover := h.received_of_over hover
  client_done h hall incoming := by
    simp [Peer.receive, PushClient.receive, h.finished_of_received hall]

/-- A push only reads its file. -/
instance : (script db pages).Steady where
  never _ := not_false

theorem agrees_start (db : Database) (pages : Pages) :
    (script db pages).Agrees (.start (.new db) .push pages) :=
  ⟨[], [], .fresh, .start, rfl⟩

end PushSession

end EdgeReplica
