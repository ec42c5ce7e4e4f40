-- SUMMARY: One sync session: a client and its server task, joined by two queues of frames.
import EdgeReplica.Client.SyncWs
import EdgeReplica.Lib.Machine
import EdgeReplica.Services.InMemoryRuns
import EdgeReplica.Worker.DoSyncWs

/-!
# A session of two parties

The client and the server task run on their own and meet only in two queues of
frames. The labels of the system are the steps either party can take; a run is
any interleaving of them.
-/

namespace EdgeReplica

open Effect (fault)

/-! ## The system -/

structure Session (C : Type) where
  client : C
  server : SessionTask InMemorySyncStorage
  toServer : List SyncMessage := []
  toClient : List SyncMessage := []
  /-- Everything the client sent so far. -/
  clientSent : List SyncMessage := []

namespace Session

/-! ## Frames of either kind of session -/

def hello (db : Database) : SyncMessage := .hello HANDSHAKE_VERSION DEFAULT_PAGE_SIZE db.maxPage

def reply (pages : Pages) : SyncMessage :=
  .helloReply HANDSHAKE_VERSION DEFAULT_PAGE_SIZE (pages.keys.getLast?.getD 0)

def hashOf [Blake3] (db : Database) (p : UInt32) : SyncMessage :=
  .pageHash p (pageHash (db.bytes p))

/-! ## Labels and steps -/

inductive Label where
  /-- The client goes on without reading its socket. -/
  | client
  /-- The client reads the next frame of the server. -/
  | deliver
  /-- The server takes up the next frame of the client. -/
  | serve (nowMs : Int64)
  /-- The client reads the end of a connection that the server closed. -/
  | serverClosed (ended : Bool)
  /-- The server reads the end of a connection whose client is gone; frames that
  were still in flight may be lost. -/
  | clientClosed (nowMs : Int64)
  /-- The client reads something other than a frame it is waiting for. -/
  | fault (incoming : Incoming)
  /-- The connection is lost under the client. -/
  | lost

/-- The labels of an undisturbed session. -/
def Label.Undisturbed : Label → Prop
  | .fault _ | .lost => False
  | _ => True

instance : DecidablePred Label.Undisturbed
  | .fault _ | .lost => isFalse not_false
  | .client | .deliver | .serve _ | .serverClosed _ | .clientClosed _ => isTrue trivial

/-- The session as the client and the server task begin it, over a reliable
connection. -/
def start {C : Type} (client : C) (direction : Direction) (pages : Pages) : Session C where
  client := client
  server := .spawn direction pages fun _ => false

variable {C : Type}

def pages (s : Session C) : Pages := s.server.world.storage

/-- The session over another state of the store. -/
def withPages (s : Session C) (pages : Pages) : Session C :=
  { s with server := { s.server with world := { s.server.world with storage := pages } } }

/-- What the client does not wait for: no frame at all, or none it expects. -/
def isFault [Peer C] (client : C) : Incoming → Bool
  | .ping => false
  | .binary (.ok msg) => !Peer.expects client msg
  | _ => true

variable [Blake3]

/-- The server takes one turn; what it sends is appended to the client's queue. -/
def serverStep (s : Session C) (nowMs : Int64) (event : WebsocketEvent) : Session C :=
  let server := s.server.step nowMs event
  { s with server, toClient := s.toClient ++ server.sent.drop s.server.sent.length }

def step [Peer C] (label : Label) (s : Session C) : Option (Session C) :=
  match label with
  | .client =>
    (Peer.advance s.client).map fun (client, frames) =>
      { s with
        client
        toServer := s.toServer ++ frames
        clientSent := s.clientSent ++ frames }
  | .deliver =>
    match s.toClient with
    | [] => none
    | msg :: toClient =>
      (Peer.receive s.client (.binary (.ok msg))).map fun client => { s with client, toClient }
  | .serve nowMs =>
    match s.toServer with
    | [] => none
    | msg :: toServer =>
      if s.server.running then some ({ s with toServer }.serverStep nowMs (.binary (.ok msg)))
      else none
  | .serverClosed ended =>
    if s.toClient = [] ∧ s.server.running = false then
      (Peer.receive s.client (if ended then .ended else .close s.server.closed)).map
        fun client => { s with client }
    else none
  | .clientClosed nowMs =>
    if Peer.isOver s.client ∧ s.server.running then
      some (s.serverStep nowMs .close)
    else none
  | .fault incoming =>
    if isFault s.client incoming then
      (Peer.receive s.client incoming).map fun client => { s with client }
    else none
  | .lost => if Peer.isOver s.client then none else some { s with client := Peer.lose s.client }

/-- What a label does to the client. -/
theorem client_step [Peer C] {label : Label} {s s' : Session C} (hstep : s.step label = some s') :
    s'.client = s.client ∨ (∃ frames, Peer.advance s.client = some (s'.client, frames)) ∨
      (∃ incoming, Peer.receive s.client incoming = some s'.client) ∨
      (Peer.isOver s.client = false ∧ s'.client = Peer.lose s.client) := by
  match label with
  | .client =>
    obtain ⟨⟨client, frames⟩, hadv, rfl⟩ := Option.map_eq_some_iff.mp hstep
    exact .inr (.inl ⟨frames, hadv⟩)
  | .deliver =>
    simp only [step] at hstep
    split at hstep
    · simp at hstep
    · obtain ⟨client, hrecv, rfl⟩ := Option.map_eq_some_iff.mp hstep
      exact .inr (.inr (.inl ⟨_, hrecv⟩))
  | .serve nowMs =>
    simp only [step] at hstep
    split at hstep
    · simp at hstep
    · split at hstep
      · obtain rfl : _ = s' := by simpa using hstep
        exact .inl rfl
      · simp at hstep
  | .serverClosed ended =>
    simp only [step] at hstep
    split at hstep
    · obtain ⟨client, hrecv, rfl⟩ := Option.map_eq_some_iff.mp hstep
      exact .inr (.inr (.inl ⟨_, hrecv⟩))
    · simp at hstep
  | .clientClosed nowMs =>
    simp only [step] at hstep
    split at hstep
    · obtain rfl : _ = s' := by simpa using hstep
      exact .inl rfl
    · simp at hstep
  | .fault incoming =>
    simp only [step] at hstep
    split at hstep
    · obtain ⟨client, hrecv, rfl⟩ := Option.map_eq_some_iff.mp hstep
      exact .inr (.inr (.inl ⟨_, hrecv⟩))
    · simp at hstep
  | .lost =>
    simp only [step] at hstep
    split at hstep
    · simp at hstep
    · next hover =>
      obtain rfl : _ = s' := by simpa using hstep
      exact .inr (.inr (.inr ⟨by simpa using hover, rfl⟩))

end Session

end EdgeReplica
