-- SUMMARY: Sessions that follow a script: what both parties say is fixed, and only the schedule is free.
import EdgeReplica.Sync.Session

/-!
# Scripts

An honest session is deterministic on the wire: each party sends a prefix of one
fixed sequence of frames, whatever the schedule. A `Script` states the two
sequences, and where each party stands after a prefix of them. From what one turn
of one party does it follows that an undisturbed session agrees with the script
until its own system refuses the client something. A disturbed one follows the
script as far as the server goes.
-/

namespace EdgeReplica

/-- The script of the sessions of one client and one store. -/
structure Script (C : Type) [Peer C] [Blake3] where
  /-- Everything the client sends. -/
  clientFrames : List SyncMessage
  /-- Everything the server sends. -/
  serverFrames : List SyncMessage
  /-- The server has taken up the frames `consumed` and sent the frames `emitted`. -/
  ServerAt (consumed emitted : List SyncMessage) (task : SessionTask InMemorySyncStorage) : Prop
  /-- The client has sent the frames `sent` and received the frames `received`. -/
  ClientAt (sent received : List SyncMessage) (client : C) : Prop
  /-- The client has failed because its own system refused it something. -/
  Refused (client : C) : Prop
  server_sent {consumed emitted task} (h : ServerAt consumed emitted task) : task.sent = emitted
  server_prefix {consumed emitted task} (h : ServerAt consumed emitted task) :
    emitted <+: serverFrames
  server_complete {consumed emitted task} (h : ServerAt consumed emitted task)
    (hall : emitted = serverFrames) : consumed = clientFrames ∧ task.running = false
  server_stopped {consumed emitted task} (h : ServerAt consumed emitted task)
    (hstop : task.running = false) : emitted = serverFrames
  server_step {consumed emitted task} {msg : SyncMessage} (h : ServerAt consumed emitted task)
    (hmsg : consumed ++ [msg] <+: clientFrames) (nowMs : Int64) :
    ∃ more, ServerAt (consumed ++ [msg]) (emitted ++ more) (task.step nowMs (.binary (.ok msg)))
  client_prefix {sent received client} (h : ClientAt sent received client) : sent <+: clientFrames
  client_advance {sent received client client' frames} (h : ClientAt sent received client)
    (hadv : Peer.advance client = some (client', frames)) :
    ClientAt (sent ++ frames) received client' ∨
      Refused client' ∧ sent ++ frames <+: clientFrames
  /-- The server says its last word only after the client has said its own. -/
  client_receive {sent received client client'} {msg : SyncMessage}
    (h : ClientAt sent received client) (hmsg : received ++ [msg] <+: serverFrames)
    (hlast : received ++ [msg] = serverFrames → sent = clientFrames)
    (hrecv : Peer.receive client (.binary (.ok msg)) = some client') :
    ClientAt sent (received ++ [msg]) client' ∨ Refused client'
  client_over {sent received client} (h : ClientAt sent received client)
    (hover : Peer.isOver client = true) : received = serverFrames
  client_done {sent received client} (h : ClientAt sent received client)
    (hall : received = serverFrames) (incoming : Incoming) : Peer.receive client incoming = none

namespace Script

open Session (Label)

variable {C : Type} [Peer C] [Blake3]

/-- The queues hold what one party has sent and the other has not taken up. -/
def Agrees (script : Script C) (s : Session C) : Prop :=
  ∃ consumed received, script.ServerAt consumed (received ++ s.toClient) s.server ∧
    script.ClientAt s.clientSent received s.client ∧ s.clientSent = consumed ++ s.toServer

/-- The client was refused something, and the server goes on with what it was sent. -/
def Broken (script : Script C) (s : Session C) : Prop :=
  script.Refused s.client ∧ ∃ consumed emitted, script.ServerAt consumed emitted s.server ∧
    consumed ++ s.toServer <+: script.clientFrames

/-- The client's system refuses it nothing. -/
class Steady (script : Script C) : Prop where
  never (client : C) : ¬ script.Refused client

variable {script : Script C} {s s' : Session C}

/-- What the client says, whether it is refused something or not. -/
theorem advance_isPrefix {sent received frames : List SyncMessage} {client client' : C}
    (h : script.ClientAt sent received client)
    (hadv : Peer.advance client = some (client', frames)) :
    sent ++ frames <+: script.clientFrames := by
  rcases script.client_advance h hadv with hnew | ⟨-, hsent⟩
  · exact script.client_prefix hnew
  · exact hsent

/-- A server that has sent everything was sent everything. -/
theorem sent_of_complete {consumed rest emitted : List SyncMessage}
    {task : SessionTask InMemorySyncStorage} (h : script.ServerAt consumed emitted task)
    (hinitial : consumed ++ rest <+: script.clientFrames) (hall : emitted = script.serverFrames) :
    consumed ++ rest = script.clientFrames := by
  obtain ⟨rfl, -⟩ := script.server_complete h hall
  exact hinitial.eq_of_length_le (by simp)

theorem Agrees.deliver {msg : SyncMessage} {toClient : List SyncMessage} {client : C}
    (h : script.Agrees s) (hqueue : s.toClient = msg :: toClient)
    (hrecv : Peer.receive s.client (.binary (.ok msg)) = some client) :
    script.Agrees { s with client, toClient } ∨ script.Broken { s with client, toClient } := by
  obtain ⟨consumed, received, hserver, hclient, hsent⟩ := h
  rw [hqueue] at hserver
  have hemitted : received ++ [msg] ++ toClient <+: script.serverFrames := by
    simpa using script.server_prefix hserver
  have hlast : received ++ [msg] = script.serverFrames → s.clientSent = script.clientFrames := by
    intro hall
    have hnil : toClient = [] := by
      have hlen := hemitted.length_le
      rw [hall, List.length_append] at hlen
      exact List.length_eq_zero_iff.mp (by omega)
    rw [hsent]
    refine sent_of_complete hserver (hsent ▸ script.client_prefix hclient) ?_
    rw [hnil, hall]
  rcases script.client_receive hclient ((List.prefix_append _ toClient).trans hemitted) hlast hrecv
    with hnew | hrefused
  · exact .inl ⟨consumed, received ++ [msg], by simpa using hserver, hnew, hsent⟩
  · exact .inr ⟨hrefused, consumed, _, hserver, hsent ▸ script.client_prefix hclient⟩

theorem Agrees.serve {msg : SyncMessage} {toServer : List SyncMessage} (h : script.Agrees s)
    (hqueue : s.toServer = msg :: toServer) (nowMs : Int64) :
    script.Agrees ({ s with toServer }.serverStep nowMs (.binary (.ok msg))) := by
  obtain ⟨consumed, received, hserver, hclient, hsent⟩ := h
  rw [hqueue] at hsent
  have hinitial : consumed ++ [msg] <+: script.clientFrames := by
    refine (List.prefix_append (consumed ++ [msg]) toServer).trans ?_
    simpa [← hsent] using script.client_prefix hclient
  obtain ⟨more, hnew⟩ := script.server_step hserver hinitial nowMs
  refine ⟨consumed ++ [msg], received, ?_, hclient,
    hsent.trans (List.append_cons consumed msg toServer)⟩
  have hmore : (s.server.step nowMs (.binary (.ok msg))).sent.drop s.server.sent.length = more := by
    rw [script.server_sent hnew, script.server_sent hserver, List.drop_left]
  show script.ServerAt _ (received ++ (s.toClient ++
    (s.server.step nowMs (.binary (.ok msg))).sent.drop s.server.sent.length)) _
  rwa [hmore, ← List.append_assoc]

/-- A step of either party keeps the session on the script, unless the client is refused
something. -/
theorem Agrees.step_cases {label : Label} (h : script.Agrees s) (hlabel : label.Undisturbed)
    (hstep : s.step label = some s') : script.Agrees s' ∨ script.Broken s' := by
  match label with
  | .client =>
    obtain ⟨consumed, received, hserver, hclient, hsent⟩ := h
    obtain ⟨⟨client, frames⟩, hadv, rfl⟩ := Option.map_eq_some_iff.mp hstep
    rcases script.client_advance hclient hadv with hnew | ⟨hrefused, hframes⟩
    · exact .inl ⟨consumed, received, hserver, hnew, by simp [hsent]⟩
    · exact .inr ⟨hrefused, consumed, _, hserver, by simpa [hsent] using hframes⟩
  | .deliver =>
    simp only [Session.step] at hstep
    split at hstep
    · simp at hstep
    · next msg toClient hqueue =>
      obtain ⟨client, hrecv, rfl⟩ := Option.map_eq_some_iff.mp hstep
      exact h.deliver hqueue hrecv
  | .serve nowMs =>
    simp only [Session.step] at hstep
    split at hstep
    · simp at hstep
    · next msg toServer hqueue =>
      split at hstep
      · obtain rfl : _ = s' := by simpa using hstep
        exact .inl (h.serve hqueue nowMs)
      · simp at hstep
  | .serverClosed ended =>
    -- The server closes after its last frame, and then the client reads no more.
    obtain ⟨consumed, received, hserver, hclient, -⟩ := h
    simp only [Session.step] at hstep
    split at hstep
    · next hend =>
      have hall := script.server_stopped hserver hend.2
      rw [hend.1, List.append_nil] at hall
      simp [script.client_done hclient hall] at hstep
    · simp at hstep
  | .clientClosed nowMs =>
    -- The client returns after the server's last frame, and then the server has closed.
    obtain ⟨consumed, received, hserver, hclient, -⟩ := h
    simp only [Session.step] at hstep
    split at hstep
    · next hend =>
      have hall : received ++ s.toClient = script.serverFrames :=
        (script.server_prefix hserver).eq_of_length_le (by
          simp [script.client_over hclient hend.1])
      have hrun := (script.server_complete hserver hall).2
      simp [hend.2] at hrun
    · simp at hstep

theorem Agrees.step [script.Steady] {label : Label} (h : script.Agrees s)
    (hlabel : label.Undisturbed) (hstep : s.step label = some s') : script.Agrees s' :=
  (h.step_cases hlabel hstep).resolve_right fun hbroken => Steady.never s'.client hbroken.1

theorem Agrees.run [script.Steady] {labels : List Label} (h : script.Agrees s)
    (hlabels : ∀ label ∈ labels, label.Undisturbed)
    (hrun : Machine.run Session.step labels s = some s') : script.Agrees s' :=
  Machine.run_keeps hrun h fun label hlabel _ _ hstep h => h.step (hlabels label hlabel) hstep

/-- When the client has returned, both parties have said everything. -/
theorem Agrees.of_over (h : script.Agrees s) (hover : Peer.isOver s.client = true) :
    script.ServerAt script.clientFrames script.serverFrames s.server ∧
      script.ClientAt script.clientFrames script.serverFrames s.client ∧
      s.clientSent = script.clientFrames := by
  obtain ⟨consumed, received, hserver, hclient, hsent⟩ := h
  obtain rfl := script.client_over hclient hover
  have hall : script.serverFrames ++ s.toClient = script.serverFrames :=
    (script.server_prefix hserver).eq_of_length_le (by simp)
  obtain ⟨rfl, -⟩ := script.server_complete hserver hall
  have hsent' : s.clientSent = script.clientFrames := by
    rw [hsent]
    exact sent_of_complete hserver (hsent ▸ script.client_prefix hclient) hall
  rw [hall] at hserver
  rw [hsent'] at hclient
  exact ⟨hserver, hclient, hsent'⟩

/-! ## Clients that fail -/

/-- What it is for a client to have failed. -/
structure Failing (script : Script C) where
  Failed : C → Prop
  refused {c} (h : script.Refused c) : Failed c
  stopped {c} (h : Failed c) : Peer.isOver c = true
  advance {c} (h : Failed c) : Peer.advance c = none
  receive {c} (h : Failed c) (incoming : Incoming) : Peer.receive c incoming = none
  /-- What the client does not wait for is ignored, or it fails. -/
  fault {c c'} {incoming : Incoming} (hfault : Session.isFault c incoming = true)
    (hrecv : Peer.receive c incoming = some c') : c' = c ∨ Failed c'
  lose {c} (h : Peer.isOver c = false) : Failed (Peer.lose c)

variable {failing : script.Failing}

/-- A client that has failed takes no further step. -/
theorem Failing.client_eq (failing : script.Failing) {label : Label}
    (hfailed : failing.Failed s.client) (hstep : s.step label = some s') :
    s'.client = s.client := by
  rcases Session.client_step hstep with heq | ⟨frames, hadv⟩ | ⟨incoming, hrecv⟩ | ⟨hover, -⟩
  · exact heq
  · simp [failing.advance hfailed] at hadv
  · simp [failing.receive hfailed] at hrecv
  · simp [failing.stopped hfailed] at hover

/-- An undisturbed session agrees with the script, or its client was refused something. -/
theorem Agrees.run_cases (failing : script.Failing) {labels : List Label} (h : script.Agrees s)
    (hlabels : ∀ label ∈ labels, label.Undisturbed)
    (hrun : Machine.run Session.step labels s = some s') :
    script.Agrees s' ∨ script.Refused s'.client := by
  refine Machine.run_keeps (I := fun s => script.Agrees s ∨ script.Refused s.client) hrun
    (.inl h) fun label hlabel s s' hstep h => ?_
  rcases h with h | hrefused
  · exact (h.step_cases (hlabels label hlabel) hstep).imp_right And.left
  · exact .inr (by rwa [failing.client_eq (failing.refused hrefused) hstep])

/-- Where a session stands on any connection: on the script, or its client has failed
and the server goes on with what it was sent, until it reads the end. -/
inductive Follows (script : Script C) (failing : script.Failing) (s : Session C) : Prop
  | agrees (h : script.Agrees s)
  | failed {consumed emitted : List SyncMessage} {task : SessionTask InMemorySyncStorage}
      (hfailed : failing.Failed s.client) (hserver : script.ServerAt consumed emitted task)
      (hsent : consumed ++ s.toServer <+: script.clientFrames)
      (hstorage : s.pages = task.world.storage) (hemitted : s.server.sent = emitted)
      (hclosed : s.server.closed = task.closed)
      (htask : s.server = task ∨ s.server.running = false)

/-- What the server holds, has sent and closed with is that of a server on the script. -/
theorem Follows.server (h : script.Follows failing s) :
    ∃ consumed emitted task, script.ServerAt consumed emitted task ∧
      s.pages = task.world.storage ∧ s.server.sent = emitted ∧ s.server.closed = task.closed := by
  cases h with
  | agrees h =>
    obtain ⟨consumed, received, hserver, -, -⟩ := h
    exact ⟨consumed, _, s.server, hserver, rfl, script.server_sent hserver, rfl⟩
  | failed _ hserver _ hstorage hemitted hclosed _ =>
    exact ⟨_, _, _, hserver, hstorage, hemitted, hclosed⟩

theorem Follows.agrees_of_not_failed (h : script.Follows failing s)
    (hok : ¬ failing.Failed s.client) : script.Agrees s := by
  cases h with
  | agrees h => exact h
  | failed hfailed _ _ _ _ _ _ => exact absurd hfailed hok

/-- The client fails, and nothing else happens. -/
theorem Agrees.fails {client : C} (h : script.Agrees s) (hfailed : failing.Failed client) :
    script.Follows failing { s with client } := by
  obtain ⟨consumed, received, hserver, hclient, hsent⟩ := h
  exact .failed hfailed hserver (hsent ▸ script.client_prefix hclient) rfl
    (script.server_sent hserver) rfl (.inl rfl)

theorem Broken.follows (h : script.Broken s) : script.Follows failing s := by
  obtain ⟨hrefused, consumed, emitted, hserver, hsent⟩ := h
  exact .failed (failing.refused hrefused) hserver hsent rfl (script.server_sent hserver) rfl
    (.inl rfl)

theorem Agrees.follows {label : Label} (h : script.Agrees s) (hstep : s.step label = some s') :
    script.Follows failing s' := by
  by_cases hlabel : label.Undisturbed
  · rcases h.step_cases hlabel hstep with h | h
    · exact .agrees h
    · exact h.follows
  match label with
  | .fault incoming =>
    simp only [Session.step] at hstep
    split at hstep
    · next hfault =>
      obtain ⟨client, hrecv, rfl⟩ := Option.map_eq_some_iff.mp hstep
      rcases failing.fault hfault hrecv with rfl | hfailed
      · exact .agrees h
      · exact h.fails hfailed
    · simp at hstep
  | .lost =>
    simp only [Session.step] at hstep
    split at hstep
    · simp at hstep
    · next hover =>
      obtain rfl := Option.some.inj hstep
      exact h.fails (failing.lose (by simpa using hover))
  | .client | .deliver | .serve _ | .serverClosed _ | .clientClosed _ => exact absurd trivial hlabel

/-- Reading the end of the connection leaves the store as it is. -/
theorem storage_close (task : SessionTask InMemorySyncStorage) (nowMs : Int64) :
    (task.step nowMs .close).world.storage = task.world.storage := by
  show (Effect.final (SyncFsm.clientClosed.run task.world)).storage = _
  rw [SyncFsm.run_clientClosed, Effect.final_ok]
  split <;> rfl

/-- What is said to a connection that has ended is dropped. -/
theorem sent_close (task : SessionTask InMemorySyncStorage) (nowMs : Int64) :
    (task.step nowMs .close).sent = task.sent := by
  show sentBy (Effect.final (SyncFsm.clientClosed.run task.world)).history = _
  rw [SyncFsm.run_clientClosed, Effect.final_ok]
  split
  · show sentBy (task.world.history ++ [.dropped _]) = sentBy task.world.history
    simp
  · rfl

theorem Follows.step {label : Label} (h : script.Follows failing s)
    (hstep : s.step label = some s') : script.Follows failing s' := by
  cases h with
  | agrees h => exact h.follows hstep
  | @failed consumed emitted task hfailed hserver hsent hstorage hemitted hclosed htask =>
    match label with
    | .client => simp [Session.step, failing.advance hfailed] at hstep
    | .deliver =>
      simp only [Session.step, failing.receive hfailed, Option.map_none] at hstep
      split at hstep <;> simp at hstep
    | .serve nowMs =>
      simp only [Session.step] at hstep
      split at hstep
      · simp at hstep
      · next msg toServer hqueue =>
        split at hstep
        · next hrun =>
          obtain rfl := Option.some.inj hstep
          obtain rfl : s.server = task := htask.resolve_right (by simp [hrun])
          rw [hqueue] at hsent
          have hmsg : consumed ++ [msg] <+: script.clientFrames :=
            (List.prefix_append (consumed ++ [msg]) toServer).trans (by simpa using hsent)
          obtain ⟨more, hnew⟩ := script.server_step hserver hmsg nowMs
          have hrest : consumed ++ [msg] ++ toServer <+: script.clientFrames := by simpa using hsent
          exact .failed hfailed hnew hrest rfl (script.server_sent hnew) rfl (.inl rfl)
        · simp at hstep
    | .serverClosed ended =>
      simp [Session.step, failing.receive hfailed] at hstep
    | .clientClosed nowMs =>
      simp only [Session.step] at hstep
      split at hstep
      · next hend =>
        obtain rfl := Option.some.inj hstep
        obtain rfl : s.server = task := htask.resolve_right (by simp [hend.2])
        exact .failed hfailed hserver hsent (storage_close s.server nowMs)
          ((sent_close s.server nowMs).trans hemitted) hclosed (.inr rfl)
      · simp at hstep
    | .fault incoming =>
      simp [Session.step, failing.receive hfailed] at hstep
    | .lost => simp [Session.step, failing.stopped hfailed] at hstep

theorem Follows.run {labels : List Label} (h : script.Follows failing s)
    (hrun : Machine.run Session.step labels s = some s') : script.Follows failing s' :=
  Machine.run_keeps hrun h fun _ _ _ _ hstep h => h.step hstep

end Script

namespace Session

variable {C : Type} [Peer C] [Blake3] {s : Session C}

/-! ## Enabled steps -/

/-- Some step is enabled. -/
def Enabled (s : Session C) : Prop := ∃ label s', Label.Undisturbed label ∧ s.step label = some s'

theorem enabled_client {client : C} {frames : List SyncMessage}
    (hadv : Peer.advance s.client = some (client, frames)) : s.Enabled := by
  refine ⟨.client, { s with
    client
    toServer := s.toServer ++ frames
    clientSent := s.clientSent ++ frames }, trivial, ?_⟩
  simp only [step, hadv, Option.map_some]

theorem enabled_deliver {msg : SyncMessage} {toClient : List SyncMessage} {client : C}
    (hqueue : s.toClient = msg :: toClient)
    (hrecv : Peer.receive s.client (.binary (.ok msg)) = some client) : s.Enabled := by
  refine ⟨.deliver, { s with client, toClient }, trivial, ?_⟩
  simp only [step, hqueue, hrecv, Option.map_some]

theorem enabled_serve {msg : SyncMessage} {toServer : List SyncMessage}
    (hqueue : s.toServer = msg :: toServer) (hrun : s.server.running = true) : s.Enabled :=
  ⟨.serve 0, _, trivial, by simp only [step, hqueue, hrun, if_true]; rfl⟩

end Session

end EdgeReplica
