-- SUMMARY: The sync state machine: its fields, its handlers, and the record of what it does.
import Mathlib.Data.Finset.Basic
import Mathlib.Data.Finset.Insert
import EdgeReplica.Domain.Enums
import EdgeReplica.Services.SyncStorage

/-!
# Sync FSM

The per-connection state machine a sync session drives against its storage. The
direction is set at construction from the verified sync token. Every handler is
a computation over a `World`: the fields of the machine, its storage, the sink
that takes the outbound frames, and a record of what has happened. The state a
failing handler leaves behind is the state the next call starts in.
-/

namespace EdgeReplica

/-- The fields of one session's state machine. -/
structure SyncFsm where
  direction : Direction
  sawHello : Bool := false
  completedHashPhase : Bool := false
  pendingRequests : Finset UInt32 := ∅
  /-- Page numbers the client claims to have. -/
  clientSeen : Finset UInt32 := ∅
  /-- The storage's `max_page()`, cached at the handshake. -/
  serverMaxPage : UInt32 := 0
  pagesTransferred : UInt64 := 0
  bytesTransferred : UInt64 := 0
  emittedComplete : Bool := false
deriving DecidableEq

/-- What a session does, in the order it does it. No handler reads this record;
it is what the properties of a run speak about. -/
inductive Event where
  /-- A frame was handed to the sink, which answered with an error or took it. -/
  | handed (msg : SyncMessage) (answer : Option String)
  /-- A frame was handed to the callback of a closed transport, which drops it. -/
  | dropped (msg : SyncMessage)
  /-- The client's `Complete` was taken up. -/
  | complete
  /-- The bytes of a page were taken up. -/
  | pageData (pageNo : UInt32) (data : Bytes)
  /-- A page was written to the storage. -/
  | stored (pageNo : UInt32) (page : Page)
deriving DecidableEq, Repr

/-- Everything a session reads and changes. -/
structure World (σ : Type) where
  storage : σ
  fsm : SyncFsm
  /-- The error the sink answers its `k`-th frame with, if it refuses it. -/
  sink : Nat → Option String
  calls : Nat := 0
  history : List Event := []

namespace World

variable {σ : Type}

def setFsm (w : World σ) (f : SyncFsm → SyncFsm) : World σ := { w with fsm := f w.fsm }

def record (w : World σ) (e : Event) : World σ := { w with history := w.history ++ [e] }

/-- The world after the sink was handed `msg` and gave its answer. -/
def hand (w : World σ) (msg : SyncMessage) : World σ :=
  { w with
    calls := w.calls + 1
    history := w.history ++ [.handed msg (w.sink w.calls)] }

/-- The world with another storage, possibly of another type. -/
def withStorage {τ : Type} (w : World σ) (storage : τ) : World τ :=
  ⟨storage, w.fsm, w.sink, w.calls, w.history⟩

section

variable (w : World σ) (f : SyncFsm → SyncFsm) (e : Event) (msg : SyncMessage)

@[simp] theorem setFsm_fsm : (w.setFsm f).fsm = f w.fsm := rfl
@[simp] theorem setFsm_storage : (w.setFsm f).storage = w.storage := rfl
@[simp] theorem setFsm_sink : (w.setFsm f).sink = w.sink := rfl
@[simp] theorem setFsm_calls : (w.setFsm f).calls = w.calls := rfl
@[simp] theorem setFsm_history : (w.setFsm f).history = w.history := rfl
@[simp] theorem record_fsm : (w.record e).fsm = w.fsm := rfl
@[simp] theorem record_storage : (w.record e).storage = w.storage := rfl
@[simp] theorem record_sink : (w.record e).sink = w.sink := rfl
@[simp] theorem record_calls : (w.record e).calls = w.calls := rfl
@[simp] theorem record_history : (w.record e).history = w.history ++ [e] := rfl
@[simp] theorem hand_fsm : (w.hand msg).fsm = w.fsm := rfl
@[simp] theorem hand_storage : (w.hand msg).storage = w.storage := rfl
@[simp] theorem hand_sink : (w.hand msg).sink = w.sink := rfl
@[simp] theorem hand_calls : (w.hand msg).calls = w.calls + 1 := rfl
@[simp] theorem hand_history :
    (w.hand msg).history = w.history ++ [.handed msg (w.sink w.calls)] := rfl

@[simp] theorem withStorage_fsm {τ : Type} (t : τ) : (w.withStorage t).fsm = w.fsm := rfl
@[simp] theorem withStorage_storage {τ : Type} (t : τ) : (w.withStorage t).storage = t := rfl
@[simp] theorem withStorage_sink {τ : Type} (t : τ) : (w.withStorage t).sink = w.sink := rfl
@[simp] theorem withStorage_calls {τ : Type} (t : τ) : (w.withStorage t).calls = w.calls := rfl
@[simp] theorem withStorage_history {τ : Type} (t : τ) :
    (w.withStorage t).history = w.history := rfl

end

end World

/-- A handler of the machine: it may fail with a message. -/
abbrev FsmM (σ : Type) := EStateM String (World σ)

namespace SyncFsm

variable {σ : Type}

/-- `SyncFsm::new`. -/
def new (direction : Direction) : SyncFsm := { direction }

/-- True once the machine has emitted `SyncComplete`. -/
def done (f : SyncFsm) : Bool := f.emittedComplete

/-- Count one page of `len` bytes as transferred. -/
def count (f : SyncFsm) (len : Nat) : SyncFsm :=
  { f with
    pagesTransferred := f.pagesTransferred + 1
    bytesTransferred := f.bytesTransferred + UInt64.ofNat len }

section

variable (f : SyncFsm) (len : Nat)

@[simp] theorem count_direction : (f.count len).direction = f.direction := rfl
@[simp] theorem count_sawHello : (f.count len).sawHello = f.sawHello := rfl
@[simp] theorem count_completedHashPhase :
    (f.count len).completedHashPhase = f.completedHashPhase := rfl
@[simp] theorem count_pendingRequests : (f.count len).pendingRequests = f.pendingRequests := rfl
@[simp] theorem count_clientSeen : (f.count len).clientSeen = f.clientSeen := rfl
@[simp] theorem count_serverMaxPage : (f.count len).serverMaxPage = f.serverMaxPage := rfl
@[simp] theorem count_emittedComplete : (f.count len).emittedComplete = f.emittedComplete := rfl

end

def modifyFsm (f : SyncFsm → SyncFsm) : FsmM σ Unit := modify fun w => w.setFsm f

def record (e : Event) : FsmM σ Unit := modify fun w => w.record e

/-- A storage call, its error turned to text: `.map_err(|e| e.to_string())`. -/
def onStorage {α : Type} (m : StoreM σ α) : FsmM σ α := fun w =>
  match m.run w.storage with
  | .ok a storage => .ok a { w with storage }
  | .error e storage => .error e.toString { w with storage }

/-- Hand one frame to the sink. -/
def emit (msg : SyncMessage) : FsmM σ Unit := fun w =>
  match w.sink w.calls with
  | none => .ok () (w.hand msg)
  | some e => .error e (w.hand msg)

/-- The callback of a closed transport: `&mut |_| Ok(())`. -/
def drop (msg : SyncMessage) : FsmM σ Unit := record (.dropped msg)

/-- The single emission gate. It emits `SyncComplete` only if the machine has not
done so, the client has finished its hash phase, and no page bytes are awaited. -/
def maybeEmitComplete (emit : SyncMessage → FsmM σ Unit) : FsmM σ Unit := do
  let f := (← get).fsm
  if f.emittedComplete ∨ ¬ f.completedHashPhase ∨ f.pendingRequests ≠ ∅ then
    return ()
  emit (.syncComplete f.pagesTransferred f.bytesTransferred)
  modifyFsm fun f => { f with emittedComplete := true }

/-- Called when the client side of the WebSocket closes. -/
def clientClosed : FsmM σ Unit := fun w =>
  if w.fsm.sawHello ∧ w.fsm.pendingRequests = ∅ then
    .ok () (Effect.final ((maybeEmitComplete drop).run w))
  else
    .ok () w

variable [SyncStorage σ]

def handleHello (protocolVersion pageSize : UInt32) : FsmM σ Unit := do
  if protocolVersion ≠ HANDSHAKE_VERSION then
    throw s!"protocol_version mismatch: server={HANDSHAKE_VERSION}, client={protocolVersion}"
  modifyFsm fun f => { f with sawHello := true }
  let max ← onStorage SyncStorage.maxPage
  modifyFsm fun f => { f with serverMaxPage := max }
  emit (.helloReply HANDSHAKE_VERSION pageSize max)

def handlePageHash (pageNo : UInt32) (hash : Bytes) : FsmM σ Unit := do
  modifyFsm fun f => { f with clientSeen := insert pageNo f.clientSeen }
  let stored ← onStorage (SyncStorage.getPageHash pageNo)
  if stored = some hash then
    return ()
  match (← get).fsm.direction with
  | .push =>
    modifyFsm fun f => { f with pendingRequests := insert pageNo f.pendingRequests }
    emit (.requestPage pageNo)
  | .pull =>
    match ← onStorage (SyncStorage.getPage pageNo) with
    | some data =>
      modifyFsm fun f => f.count data.length
      emit (.pageData pageNo data)
    | none => return ()

def handlePageHashBatch [Blake3] (startPage endPage : UInt32) (clientCombined : Bytes) :
    FsmM σ Unit := do
  modifyFsm fun f => { f with clientSeen := f.clientSeen ∪ (pageRange startPage endPage).toFinset }
  let stored ← onStorage (SyncStorage.combinedHash startPage endPage)
  if stored = clientCombined then
    return ()
  emit (.hashMismatchBatch (pageRange startPage endPage))

def handlePageData [Blake3] (nowMs : Int64) (pageNo : UInt32) (data : Bytes) : FsmM σ Unit := do
  record (.pageData pageNo data)
  modifyFsm fun f => { f with pendingRequests := f.pendingRequests.erase pageNo }
  let hash := pageHash data
  onStorage (SyncStorage.putPage pageNo data hash nowMs)
  record (.stored pageNo ⟨data, hash⟩)
  modifyFsm fun f => f.count data.length
  maybeEmitComplete emit

/-- The callback of the walk in `handleComplete`. It runs on the world without
its storage, and on the slot that carries a send failure past the walk, whose
errors are `StoreError`s. -/
def sendUnclaimed (pageNo : UInt32) (data : Bytes) :
    EStateM StoreError (World Unit × Option String) Unit := fun s =>
  let (w, emitErr) := s
  if pageNo ∈ w.fsm.clientSeen then
    .ok () (w, emitErr)
  else
    match (emit (.pageData pageNo data)).run (w.setFsm fun f => f.count data.length) with
    | .ok () w => .ok () (w, emitErr)
    | .error e w => .error (.backend "emit aborted") (w, some e)

/-- Pull only: stream every page the client did not claim. -/
def streamUnclaimed : FsmM σ Unit := fun w =>
  let start : σ × (World Unit × Option String) := (w.storage, (w.withStorage (), none))
  let result := (SyncStorage.iterPagesInRange 1 w.fsm.serverMaxPage sendUnclaimed).run start
  let (storage, (w, emitErr)) := Effect.final result
  match emitErr with
  | some e => .error e (w.withStorage storage)
  | none =>
    match Effect.fault result with
    | some e => .error e.toString (w.withStorage storage)
    | none => .ok () (w.withStorage storage)

def handleComplete : FsmM σ Unit := do
  record .complete
  modifyFsm fun f => { f with completedHashPhase := true }
  let f := (← get).fsm
  if f.direction = .pull ∧ 0 < f.serverMaxPage then
    streamUnclaimed
  maybeEmitComplete emit

/-- Drive one inbound message through the machine. `nowMs` is what the clock
reads during the call. -/
def apply [Blake3] (nowMs : Int64) (msg : SyncMessage) : FsmM σ Unit := do
  if (← get).fsm.sawHello then
    match msg with
    | .hello .. => throw "Hello may only be sent once"
    | .pageHash pageNo hash => handlePageHash pageNo hash
    | .pageHashBatch startPage endPage combinedHash =>
      handlePageHashBatch startPage endPage combinedHash
    | .pageData pageNo data => handlePageData nowMs pageNo data
    | .pageDataBatch pages =>
      forM pages fun entry => handlePageData nowMs entry.pageNo entry.data
    | .complete => handleComplete
    | .helloReply .. | .requestPage .. | .requestPages .. | .hashMismatch ..
    | .hashMismatchBatch .. | .syncComplete .. | .error .. =>
      throw "client may not send server-originated message"
  else
    match msg with
    | .hello protocolVersion pageSize _ => handleHello protocolVersion pageSize
    | _ => throw "first message must be Hello"

end SyncFsm

end EdgeReplica
