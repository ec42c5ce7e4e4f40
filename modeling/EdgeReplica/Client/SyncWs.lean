-- SUMMARY: The sync client: push and pull as machines that advance on their own or on what the socket yields.
import EdgeReplica.Client.PageWriter

/-!
# Sync client

`push` and `pull` run over one WebSocket. A machine here is the function between
two of its points of suspension: `advance` is what it does without reading the
socket, `receive` what it does with the next thing it reads.
-/

namespace EdgeReplica

/-- What the socket yields. A binary frame comes as `decode_frame` reads it. -/
inductive Incoming where
  | binary (frame : Except FrameError SyncMessage)
  | text (content : String)
  | ping
  | close (frame : Option (UInt16 × String))
  | error
  | ended

/-- `recv`: the message that was read, unless it is one to be ignored. -/
def recv : Incoming → Option (Except ClientError SyncMessage)
  | .binary (.ok msg) => some (.ok msg)
  | .binary (.error _) => some (.error .decode)
  | .text content => some (.error (.text content))
  | .ping => none
  | .close frame => some (.error (.closedByServer frame))
  | .error => some (.error .read)
  | .ended => some (.error .ended)

def DEFAULT_PAGE_SIZE : UInt32 := 4096

/-- The first frame of `handshake`. -/
def helloOf (reader : PageReader) : SyncMessage :=
  .hello HANDSHAKE_VERSION DEFAULT_PAGE_SIZE reader.maxPage

/-- The check of `handshake` on the server's answer. -/
def checkReply : SyncMessage → Except ClientError Unit
  | .helloReply version _ _ =>
    if version = HANDSHAKE_VERSION then .ok () else .error (.versionMismatch version)
  | .error message => .error (.server message)
  | other => .error (.expectedHelloReply other)

/-- The end of `handshake`: read the server's answer and check it. -/
def readReply (incoming : Incoming) : Option (Except ClientError Unit) :=
  (recv incoming).map fun msg => msg.bind checkReply

/-- What a machine of the client can do. -/
class Peer (C : Type) where
  /-- What it does without reading the socket, and the frames it sends. -/
  advance : C → Option (C × List SyncMessage)
  /-- What it does with the next thing the socket yields, if it is reading. -/
  receive : C → Incoming → Option C
  /-- The messages it is waiting for. -/
  expects : C → SyncMessage → Bool
  /-- Its sends fail: the connection is lost. -/
  lose : C → C
  /-- It has returned. -/
  isOver : C → Bool

/-! ## Push -/

inductive PushPhase where
  | hello
  | awaitReply
  | hashing
  | draining
  | serving
  | finished (pagesTransferred bytesTransferred : UInt64)
  | failed (error : ClientError)
deriving DecidableEq, Repr

structure PushClient where
  reader : PageReader
  pending : List UInt32
  phase : PushPhase

namespace PushClient

def new (db : Database) : PushClient where
  reader := .openDb db
  pending := []
  phase := .hello

def fail (c : PushClient) (error : ClientError) : PushClient := { c with phase := .failed error }

def advance [Blake3] (c : PushClient) : Option (PushClient × List SyncMessage) :=
  match c.phase with
  | .hello => some ({ c with phase := .awaitReply }, [helloOf c.reader])
  | .hashing =>
    match c.reader.nextHash with
    | .ok (some (pageNo, hash), reader) =>
      some ({ c with reader, phase := .draining }, [.pageHash pageNo hash])
    | .ok (none, reader) => some ({ c with reader, phase := .serving }, [.complete])
    | .error e => some (c.fail e, [])
  | .draining =>
    -- Nothing more is ready on the socket.
    some ({ c with phase := .hashing }, [])
  | .serving =>
    match c.pending with
    | [] => none
    | pageNo :: pending =>
      match c.reader.readPage pageNo with
      | .ok data => some ({ c with pending }, [.pageData pageNo data])
      | .error e => some (c.fail e, [])
  | .awaitReply | .finished .. | .failed _ => none

/-- One turn of `drain_ready`. -/
def drainReady (c : PushClient) : Incoming → PushClient
  | .binary (.ok (.requestPage pageNo)) => { c with pending := c.pending ++ [pageNo] }
  | .binary (.ok (.requestPages pageNumbers)) => { c with pending := c.pending ++ pageNumbers }
  | .binary (.ok (.error message)) => c.fail (.server message)
  | .binary (.ok other) => c.fail (.midHash other)
  | .binary (.error _) => c.fail .decode
  | .error => c.fail .read
  | .ended => c.fail .endedHashing
  | .text _ | .ping | .close _ => c

/-- One turn of the loop after the hash phase, with nothing left to serve. -/
def drain (c : PushClient) : SyncMessage → PushClient
  | .requestPage pageNo => { c with pending := c.pending ++ [pageNo] }
  | .requestPages pageNumbers => { c with pending := c.pending ++ pageNumbers }
  | .syncComplete pages bytes => { c with phase := .finished pages bytes }
  | .error message => c.fail (.server message)
  | other => c.fail (.duringPush other)

def receive (c : PushClient) (incoming : Incoming) : Option PushClient :=
  match c.phase with
  | .awaitReply =>
    match readReply incoming with
    | none => some c
    | some (.error e) => some (c.fail e)
    | some (.ok ()) => some { c with phase := .hashing }
  | .draining => some (c.drainReady incoming)
  | .serving =>
    if c.pending ≠ [] then none
    else
      match recv incoming with
      | none => some c
      | some (.error e) => some (c.fail e)
      | some (.ok msg) => some (c.drain msg)
  | .hello | .hashing | .finished .. | .failed _ => none

def expects (c : PushClient) (msg : SyncMessage) : Bool :=
  match c.phase, msg with
  | .awaitReply, .helloReply version _ _ => version = HANDSHAKE_VERSION
  | .draining, .requestPage _ | .draining, .requestPages _ => true
  | .serving, .requestPage _ | .serving, .requestPages _ | .serving, .syncComplete .. => true
  | _, _ => false

def isOver (c : PushClient) : Bool :=
  match c.phase with
  | .finished .. | .failed _ => true
  | _ => false

instance [Blake3] : Peer PushClient where
  advance := advance
  receive := receive
  expects := expects
  lose c := if c.isOver then c else c.fail .send
  isOver := isOver

end PushClient

/-! ## Pull -/

inductive PullPhase where
  | hello
  | awaitReply
  | hashing
  | receiving
  | finished (pagesTransferred bytesTransferred : UInt64)
  | failed (error : ClientError)
deriving DecidableEq, Repr

structure PullClient where
  reader : PageReader
  /-- Before the hash phase is over no transaction is open on the file. -/
  writer : PageWriter
  pagesWritten : UInt64
  phase : PullPhase

namespace PullClient

def new (db : Database) : PullClient where
  reader := .openDb db
  writer := ⟨db, [], false⟩
  pagesWritten := 0
  phase := .hello

/-- What others see of the file. -/
def file (c : PullClient) : Database := c.writer.file

/-- The function returns, and its writer is dropped. -/
def fail (c : PullClient) (error : ClientError) : PullClient :=
  { c with writer := c.writer.drop, phase := .failed error }

variable [Sqlite]

def advance [Blake3] (c : PullClient) : Option (PullClient × List SyncMessage) :=
  match c.phase with
  | .hello => some ({ c with phase := .awaitReply }, [helloOf c.reader])
  | .hashing =>
    match c.reader.nextHash with
    | .ok (some (pageNo, hash), reader) => some ({ c with reader }, [.pageHash pageNo hash])
    | .ok (none, reader) =>
      match PageWriter.openDb c.file with
      | .ok writer => some ({ c with reader, writer, phase := .receiving }, [.complete])
      | .error e => some (c.fail e, [.complete])
    | .error e => some (c.fail e, [])
  | .awaitReply | .receiving | .finished .. | .failed _ => none

/-- Write one received page. -/
def write (c : PullClient) (entry : PageDataEntry) : Except ClientError PullClient :=
  (c.writer.write entry.pageNo entry.data).map fun writer =>
    { c with writer, pagesWritten := c.pagesWritten + 1 }

/-- One turn of the receiving loop. -/
def take (c : PullClient) : SyncMessage → Except ClientError PullClient
  | .pageData pageNo data => c.write ⟨pageNo, data⟩
  | .pageDataBatch pages => pages.foldlM write c
  | .syncComplete pages bytes =>
    c.writer.commit.map fun writer => { c with writer, phase := .finished pages bytes }
  | .error message => .error (.server message)
  | other => .error (.duringPull other)

/-- What a turn came to: an error is returned. -/
def settle (c : PullClient) : Except ClientError PullClient → PullClient
  | .ok c' => c'
  | .error e => c.fail e

def receive (c : PullClient) (incoming : Incoming) : Option PullClient :=
  match c.phase with
  | .awaitReply =>
    match readReply incoming with
    | none => some c
    | some (.error e) => some (c.fail e)
    | some (.ok ()) => some { c with phase := .hashing }
  | .receiving =>
    match recv incoming with
    | none => some c
    | some (.error e) => some (c.fail e)
    | some (.ok msg) => some (c.settle (c.take msg))
  | .hello | .hashing | .finished .. | .failed _ => none

def expects (c : PullClient) (msg : SyncMessage) : Bool :=
  match c.phase, msg with
  | .awaitReply, .helloReply version _ _ => version = HANDSHAKE_VERSION
  | .receiving, .pageData .. | .receiving, .pageDataBatch _ | .receiving, .syncComplete .. => true
  | _, _ => false

def isOver (c : PullClient) : Bool :=
  match c.phase with
  | .finished .. | .failed _ => true
  | _ => false

instance [Blake3] : Peer PullClient where
  advance := advance
  receive := receive
  expects := expects
  lose c := if c.isOver then c else c.fail .send
  isOver := isOver

end PullClient

end EdgeReplica
