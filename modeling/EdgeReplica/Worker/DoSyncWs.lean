-- SUMMARY: The task that drives one session's state machine over its WebSocket, and what a session leaves in the page store.
import EdgeReplica.Services.SyncFsmActs

/-!
# The session task

`handle_upgrade` spawns one task for each accepted WebSocket. It decodes each
inbound frame, runs the state machine on it, ships the outbound frames inline,
and stops at the first failure or when the machine is done. The socket may refuse
any frame.
-/

namespace EdgeReplica

open Effect (final fault)

/-- What the stream of WebSocket events yields. A binary frame comes as
`decode_frame` reads it. -/
inductive WebsocketEvent where
  | binary (frame : Except FrameError SyncMessage)
  | text
  | close
  | error
deriving Repr

/-- The task: the world of its machine, whether it still runs, and the code and
reason it closed the socket with. -/
structure SessionTask (σ : Type) where
  world : World σ
  running : Bool := true
  closed : Option (UInt16 × String) := none

/-! ## Frames that were sent -/

/-- The frames the sink took, in order. -/
def sentBy (history : List Event) : List SyncMessage :=
  history.filterMap fun
    | .handed msg none => some msg
    | _ => none

@[simp] theorem sentBy_append (h₁ h₂ : List Event) : sentBy (h₁ ++ h₂) = sentBy h₁ ++ sentBy h₂ :=
  List.filterMap_append

@[simp] theorem sentBy_nil : sentBy [] = [] := rfl

@[simp] theorem sentBy_handed (msg : SyncMessage) (history : List Event) :
    sentBy (.handed msg none :: history) = msg :: sentBy history := rfl

theorem sentBy_hand_reliable {σ : Type} {w : World σ} (hsink : w.sink = fun _ => none)
    (msg : SyncMessage) : sentBy (w.hand msg).history = sentBy w.history ++ [msg] := by
  rw [World.hand_history, sentBy_append, hsink]
  rfl

@[simp] theorem sentBy_dropped (msg : SyncMessage) (history : List Event) :
    sentBy (.dropped msg :: history) = sentBy history := rfl

@[simp] theorem sentBy_complete (history : List Event) :
    sentBy (.complete :: history) = sentBy history := rfl

@[simp] theorem sentBy_pageData (p : UInt32) (data : Bytes) (history : List Event) :
    sentBy (.pageData p data :: history) = sentBy history := rfl

@[simp] theorem sentBy_stored (p : UInt32) (page : Page) (history : List Event) :
    sentBy (.stored p page :: history) = sentBy history := rfl

namespace SessionTask

variable {σ : Type}

def sent (task : SessionTask σ) : List SyncMessage := sentBy task.world.history

@[simp] theorem sent_mk (world : World σ) (running : Bool) (closed : Option (UInt16 × String)) :
    (SessionTask.mk world running closed).sent = sentBy world.history := rfl

/-- What the task's callback answers the machine with, when `refuses k` says
whether the socket refuses the `k`-th frame. -/
def socket (refuses : Nat → Bool) (k : Nat) : Option String :=
  if refuses k then some "ws send" else none

/-- The event is a frame that the socket refused. -/
def refusal : Event → Bool
  | .handed _ (some _) => true
  | _ => false

/-- A send of the last call failed: the flag that the callback sets. -/
def sendFailed (before after : World σ) : Bool :=
  (after.history.drop before.history.length).any refusal

/-- `send_error`: the answer of the socket is ignored. -/
def sendError (w : World σ) (message : String) : World σ := w.hand (.error message)

variable [SyncStorage σ] [Blake3]

/-- One turn of the event loop. -/
def step (task : SessionTask σ) (nowMs : Int64) : WebsocketEvent → SessionTask σ
  | .text =>
    { world := sendError task.world "expected binary frame"
      running := false
      closed := some (1003, "text frames not supported") }
  | .binary (.error e) =>
    { world := sendError task.world s!"decode: {e.toString}"
      running := false
      closed := some (1002, "protocol error") }
  | .binary (.ok msg) =>
    let result := (SyncFsm.apply nowMs msg).run task.world
    let w := final result
    if sendFailed task.world w then { task with world := w, running := false }
    else
      match fault result with
      | none =>
        if w.fsm.done then
          { world := w, running := false, closed := some (1000, "sync complete") }
        else { task with world := w }
      | some e =>
        { world := sendError w e, running := false, closed := some (1011, "server error") }
  | .close => { task with world := final (SyncFsm.clientClosed.run task.world), running := false }
  | .error => { task with running := false }

/-- The event loop over the events that reach the socket, each with what the
clock reads then. -/
def run (task : SessionTask σ) : List (Int64 × WebsocketEvent) → SessionTask σ
  | [] => task
  | (nowMs, event) :: events => if task.running then (task.step nowMs event).run events else task

/-- The task `handle_upgrade` spawns. -/
def spawn (direction : Direction) (storage : σ) (refuses : Nat → Bool) : SessionTask σ where
  world := { storage, fsm := .new direction, sink := socket refuses }

/-! ## Turns that succeed -/

/-- A call that returns, with no frame refused, ends the task only if the machine
is done. -/
theorem step_of_ok {task : SessionTask σ} {nowMs : Int64} {msg : SyncMessage} {w : World σ}
    (events : List Event) (hrun : (SyncFsm.apply nowMs msg).run task.world = .ok () w)
    (hhist : w.history = task.world.history ++ events) (hsent : ∀ e ∈ events, refusal e = false) :
    task.step nowMs (.binary (.ok msg)) =
      if w.fsm.done then { world := w, running := false, closed := some (1000, "sync complete") }
      else { task with world := w } := by
  have hfailed : sendFailed task.world w = false := by
    rw [sendFailed, hhist, List.drop_left, List.any_eq_false]
    exact fun e he => by simp [hsent e he]
  simp only [step, hrun, Effect.final_ok, Effect.fault_ok, hfailed]
  rfl

end SessionTask

end EdgeReplica
