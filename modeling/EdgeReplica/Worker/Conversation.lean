-- SUMMARY: The frames a session sends: which sequences of frames leave the task, over any events that reach it.
import EdgeReplica.Worker.DoSyncWs

/-!
# The conversation of a session

The task stops between calls of the machine, while one call may send many frames.
`Talking` and `Over` say what the frames sent so far look like while the machine
waits for more and once it has emitted `SyncComplete`; every handler takes a
machine that talks to one that talks or is over, and fails only while it talks.
-/

namespace EdgeReplica

open Effect (Outcome Spec Succeeds final)

/-! ## The language -/

/-- A frame that may stand between the reply to `Hello` and the end. -/
def SyncMessage.InBody (direction : Direction) : SyncMessage → Prop
  | .hashMismatchBatch _ => True
  | .requestPage _ => direction = .push
  | .pageData .. => direction = .pull
  | _ => False

/-- A frame that ends a conversation. -/
def SyncMessage.Ends : SyncMessage → Prop
  | .syncComplete .. | .error _ => True
  | _ => False

/-- The reply to `Hello`, and frames of the body after it. -/
def Replied (direction : Direction) (frames : List SyncMessage) : Prop :=
  ∃ version pageSize maxPage body, frames = .helloReply version pageSize maxPage :: body ∧
    ∀ msg ∈ body, msg.InBody direction

/-- The sequences of frames that a session may send. -/
inductive Conversation (direction : Direction) : List SyncMessage → Prop
  | nothing : Conversation direction []
  | refused (message : String) : Conversation direction [.error message]
  | replied {frames : List SyncMessage} (h : Replied direction frames) :
      Conversation direction frames
  | ended {frames : List SyncMessage} {last : SyncMessage} (h : Replied direction frames)
      (hlast : last.Ends) : Conversation direction (frames ++ [last])

def SyncMessage.isHelloReply : SyncMessage → Bool
  | .helloReply .. => true
  | _ => false

theorem SyncMessage.InBody.not_ends {direction : Direction} {msg : SyncMessage}
    (h : msg.InBody direction) : ¬ msg.Ends := by
  intro hends
  cases msg <;> simp [InBody, Ends] at h hends

theorem Replied.not_ends {direction : Direction} {frames : List SyncMessage}
    (h : Replied direction frames) : ∀ msg ∈ frames, ¬ msg.Ends := by
  obtain ⟨version, pageSize, maxPage, body, rfl, hbody⟩ := h
  intro msg hmsg
  rcases List.mem_cons.mp hmsg with rfl | hmem
  · exact id
  · exact (hbody msg hmem).not_ends

namespace Conversation

variable {direction : Direction} {frames : List SyncMessage}

theorem mem_tail (h : Conversation direction frames) :
    ∀ msg ∈ frames.tail, msg.InBody direction ∨ msg.Ends := by
  cases h with
  | nothing | refused message => nofun
  | replied h =>
    obtain ⟨version, pageSize, maxPage, body, rfl, hbody⟩ := h
    exact fun msg hmsg => .inl (hbody msg hmsg)
  | ended h hlast =>
    obtain ⟨version, pageSize, maxPage, body, rfl, hbody⟩ := h
    intro msg hmsg
    rcases List.mem_append.mp hmsg with hmem | hmem
    · exact .inl (hbody msg hmem)
    · obtain rfl := List.mem_singleton.mp hmem
      exact .inr hlast

theorem mem_cases (h : Conversation direction frames) {msg : SyncMessage} (hmsg : msg ∈ frames) :
    msg.isHelloReply = true ∨ msg.InBody direction ∨ msg.Ends := by
  have htail := h.mem_tail
  rcases frames with _ | ⟨first, rest⟩
  · cases hmsg
  · rcases List.mem_cons.mp hmsg with rfl | hmem
    · generalize hframes : msg :: rest = frames at h
      cases h with
      | nothing => cases hframes
      | refused message =>
        cases hframes
        exact .inr (.inr trivial)
      | replied h | ended h _ =>
        obtain ⟨version, pageSize, maxPage, body, rfl, -⟩ := h
        cases hframes
        exact .inl rfl
    · exact .inr (htail msg hmem)

/-- A push sends no page bytes. -/
theorem entries_of_push (h : Conversation .push frames) : ∀ msg ∈ frames, msg.entries = [] := by
  intro msg hmsg
  rcases h.mem_cases hmsg with hreply | hbody | hends
  · cases msg <;> first | rfl | simp [SyncMessage.isHelloReply] at hreply
  · cases msg <;> first | rfl | simp [SyncMessage.InBody] at hbody
  · cases msg <;> first | rfl | exact hends.elim

/-- A pull asks for no page. -/
theorem requests_of_pull (h : Conversation .pull frames) :
    ∀ msg ∈ frames, ∀ p, msg.requests p = false := by
  intro msg hmsg p
  rcases h.mem_cases hmsg with hreply | hbody | hends
  · cases msg <;> first | rfl | simp [SyncMessage.isHelloReply] at hreply
  · cases msg <;> first | rfl | simp [SyncMessage.InBody] at hbody
  · cases msg <;> first | rfl | exact hends.elim

theorem replies_once (h : Conversation direction frames) :
    frames.countP SyncMessage.isHelloReply ≤ 1 := by
  have htail := h.mem_tail
  rcases frames with _ | ⟨first, rest⟩
  · exact Nat.zero_le 1
  · have hrest : rest.countP SyncMessage.isHelloReply = 0 := by
      rw [List.countP_eq_zero]
      intro msg hmsg
      have hcases := htail msg hmsg
      cases msg <;>
        simp [SyncMessage.isHelloReply, SyncMessage.InBody, SyncMessage.Ends] at hcases ⊢
    rw [List.countP_cons, hrest]
    split <;> decide

/-- Nothing follows a frame that ends the conversation. -/
theorem eq_nil_of_ends (h : Conversation direction frames) {before after : List SyncMessage}
    {last : SyncMessage} (heq : frames = before ++ last :: after) (hlast : last.Ends) :
    after = [] := by
  cases h with
  | nothing => simp at heq
  | refused message =>
    rcases before with _ | ⟨first, before⟩
    · exact (List.cons.inj heq).2.symm
    · simp at heq
  | replied h => exact absurd hlast (h.not_ends last (by rw [heq]; simp))
  | @ended frames msg h hmsg =>
    rcases List.eq_nil_or_concat after with rfl | ⟨after, tail, rfl⟩
    · rfl
    · have heq' : frames ++ [msg] = (before ++ last :: after) ++ [tail] := by simpa using heq
      obtain ⟨rfl, -⟩ := List.append_inj' heq' rfl
      exact absurd hlast (h.not_ends last (by simp))

end Conversation

/-! ## Storages that do not fail -/

/-- A storage whose calls succeed. -/
class ReliableStorage (σ : Type) extends SyncStorage σ where
  getPageHash_succeeds (p : UInt32) : Succeeds (getPageHash p)
  getPage_succeeds (p : UInt32) : Succeeds (getPage p)
  putPage_succeeds (p : UInt32) (data hash : Bytes) (nowMs : Int64) :
    Succeeds (putPage p data hash nowMs)
  maxPage_succeeds : Succeeds maxPage

instance : ReliableStorage InMemorySyncStorage where
  getPageHash_succeeds _ _ := rfl
  getPage_succeeds _ _ := rfl
  putPage_succeeds _ _ _ _ _ := rfl
  maxPage_succeeds _ := rfl

namespace SyncFsm

variable {σ : Type}

/-! ## What a machine has sent -/

/-- The machine has not taken up `Hello`. -/
structure Greeting (direction : Direction) (w : World σ) : Prop where
  sawHello : w.fsm.sawHello = false
  dir : w.fsm.direction = direction
  emittedComplete : w.fsm.emittedComplete = false
  sent : sentBy w.history = []

/-- The machine takes frames and has not emitted `SyncComplete`. -/
structure Talking (direction : Direction) (w : World σ) : Prop where
  sawHello : w.fsm.sawHello = true
  dir : w.fsm.direction = direction
  emittedComplete : w.fsm.emittedComplete = false
  sent : Replied direction (sentBy w.history)

/-- The machine has emitted `SyncComplete`, and nothing since. -/
structure Over (direction : Direction) (w : World σ) : Prop where
  emittedComplete : w.fsm.emittedComplete = true
  sent : ∃ frames pages bytes, Replied direction frames ∧
    sentBy w.history = frames ++ [.syncComplete pages bytes]

variable {direction : Direction}

/-- Neither the record nor the fields that `Talking` reads have changed. -/
theorem Talking.frame {w w' : World σ} (h : Talking direction w)
    (hsent : sentBy w'.history = sentBy w.history) (hsaw : w'.fsm.sawHello = w.fsm.sawHello)
    (hdir : w'.fsm.direction = w.fsm.direction)
    (hemit : w'.fsm.emittedComplete = w.fsm.emittedComplete) : Talking direction w' where
  sawHello := hsaw.trans h.sawHello
  dir := hdir.trans h.dir
  emittedComplete := hemit.trans h.emittedComplete
  sent := hsent ▸ h.sent

theorem Over.frame {w w' : World σ} (h : Over direction w)
    (hsent : sentBy w'.history = sentBy w.history)
    (hemit : w'.fsm.emittedComplete = w.fsm.emittedComplete) : Over direction w' where
  emittedComplete := hemit.trans h.emittedComplete
  sent := hsent ▸ h.sent

theorem sentBy_hand (w : World σ) (msg : SyncMessage) :
    sentBy (w.hand msg).history =
      sentBy w.history ++ if w.sink w.calls = none then [msg] else [] := by
  rw [World.hand_history, sentBy_append]
  cases w.sink w.calls <;> rfl

/-- A frame of the body keeps the machine talking, whether the sink takes it or not. -/
theorem Talking.hand {w : World σ} (h : Talking direction w) {msg : SyncMessage}
    (hmsg : msg.InBody direction) : Talking direction (w.hand msg) where
  sawHello := h.sawHello
  dir := h.dir
  emittedComplete := h.emittedComplete
  sent := by
    obtain ⟨version, pageSize, maxPage, body, hsent, hbody⟩ := h.sent
    rw [sentBy_hand, hsent]
    split
    · refine ⟨version, pageSize, maxPage, body ++ [msg], rfl, fun m hm => ?_⟩
      rcases List.mem_append.mp hm with hold | hnew
      · exact hbody m hold
      · rwa [List.mem_singleton.mp hnew]
    · exact ⟨version, pageSize, maxPage, body, List.append_nil _, hbody⟩

/-! ## What the handlers send -/

theorem spec_emit (msg : SyncMessage) (hmsg : msg.InBody direction) :
    Spec (Talking direction) (emit msg : FsmM σ Unit) (fun _ => Talking direction)
      (fun _ => Talking direction) := by
  intro w h
  rw [run_emit]
  cases w.sink w.calls <;> exact h.hand hmsg

theorem spec_onStorage {α : Type} {I : World σ → Prop} {E : String → World σ → Prop}
    {m : StoreM σ α} (hm : Succeeds m) (hI : ∀ w t, I w → I (w.withStorage t)) :
    Spec I (onStorage m) (fun _ => I) E := by
  intro w h
  have hok := hm w.storage
  rw [run_onStorage]
  cases hr : m.run w.storage with
  | ok a s => exact hI w s h
  | error e s => rw [hr] at hok; simp at hok

/-- The machine talks, or it is over. -/
def Going (direction : Direction) (w : World σ) : Prop := Talking direction w ∨ Over direction w

theorem spec_maybeEmitComplete :
    Spec (Going direction) (maybeEmitComplete emit : FsmM σ Unit) (fun _ => Going direction)
      (fun _ => Talking direction) := by
  intro w h
  rw [run_maybeEmitComplete]
  by_cases hgate : w.fsm.GateOpen
  · have htalk : Talking direction w := by
      rcases h with h | h
      · exact h
      · exact absurd h.emittedComplete (by simp [hgate.1])
    have hsent := sentBy_hand w (.syncComplete w.fsm.pagesTransferred w.fsm.bytesTransferred)
    simp only [hgate, if_true, EStateM.run_bind, run_emit]
    cases hans : w.sink w.calls with
    | none =>
      rw [hans, if_pos rfl] at hsent
      exact .inr ⟨rfl, sentBy w.history, _, _, htalk.sent, hsent⟩
    | some e =>
      rw [hans, if_neg (by simp), List.append_nil] at hsent
      exact htalk.frame hsent rfl rfl rfl
  · simp only [hgate, if_false]
    exact h

/-- Changing other fields keeps the machine talking. -/
theorem spec_modifyFsm {f : SyncFsm → SyncFsm} {E : String → World σ → Prop}
    (hf : ∀ s, (f s).sawHello = s.sawHello ∧ (f s).direction = s.direction ∧
      (f s).emittedComplete = s.emittedComplete := by exact fun _ => ⟨rfl, rfl, rfl⟩) :
    Spec (Talking direction) (modifyFsm f : FsmM σ Unit) (fun _ => Talking direction) E := by
  intro w h
  obtain ⟨hsaw, hdir, hemit⟩ := hf w.fsm
  exact h.frame rfl hsaw hdir hemit

theorem spec_read {α : Type} {m : StoreM σ α} (hm : Succeeds m) {E : String → World σ → Prop} :
    Spec (Talking direction) (onStorage m) (fun _ => Talking direction) E :=
  spec_onStorage hm fun _ _ h => h.frame rfl rfl rfl rfl

/-- Count a page and send it. -/
theorem spec_sendPage (pageNo : UInt32) (data : Bytes) :
    Spec (Talking .pull)
      (do modifyFsm fun f => f.count data.length
          emit (.pageData pageNo data) : FsmM σ Unit)
      (fun _ => Talking .pull) (fun _ => Talking .pull) :=
  Spec.bind spec_modifyFsm fun _ => spec_emit (.pageData pageNo data) rfl

variable [ReliableStorage σ]

theorem handlePageHash_sends (pageNo : UInt32) (hash : Bytes) :
    Spec (Talking direction) (handlePageHash pageNo hash : FsmM σ Unit)
      (fun _ => Talking direction) (fun _ => Talking direction) := by
  unfold handlePageHash
  refine Spec.bind spec_modifyFsm fun _ => ?_
  refine Spec.bind (spec_read (ReliableStorage.getPageHash_succeeds pageNo)) fun stored => ?_
  split
  · exact Spec.pure fun _ h => h
  · refine Spec.get_bind fun w h => ?_
    cases hdir : w.fsm.direction with
    | push =>
      obtain rfl : direction = .push := h.dir.symm.trans hdir
      exact Spec.bind spec_modifyFsm (fun _ => spec_emit (.requestPage pageNo) rfl) w h
    | pull =>
      obtain rfl : direction = .pull := h.dir.symm.trans hdir
      refine Spec.bind (spec_read (ReliableStorage.getPage_succeeds pageNo)) (fun found => ?_) w h
      split
      · exact spec_sendPage pageNo _
      · exact Spec.pure fun _ h => h

/-- A chain of hash reads succeeds. -/
theorem combinedHash_succeeds [Blake3] (startPage endPage : UInt32) :
    Succeeds (SyncStorage.combinedHash startPage endPage : StoreM σ Bytes) := by
  unfold SyncStorage.combinedHash
  refine Succeeds.bind ?_ fun _ => Succeeds.pure _
  generalize pageRange startPage endPage = pages
  generalize ([] : Bytes) = hasher
  induction pages generalizing hasher with
  | nil => exact Succeeds.pure _
  | cons p pages ih =>
    rw [List.foldlM_cons]
    refine Succeeds.bind ?_ fun hasher' => ih hasher'
    refine Succeeds.bind (ReliableStorage.getPageHash_succeeds p) fun stored => ?_
    cases stored <;> exact Succeeds.pure _

theorem handlePageHashBatch_sends [Blake3] (startPage endPage : UInt32) (clientCombined : Bytes) :
    Spec (Talking direction) (handlePageHashBatch startPage endPage clientCombined : FsmM σ Unit)
      (fun _ => Talking direction) (fun _ => Talking direction) := by
  unfold handlePageHashBatch
  refine Spec.bind spec_modifyFsm fun _ => ?_
  refine Spec.bind (spec_read (combinedHash_succeeds startPage endPage)) fun stored => ?_
  split
  · exact Spec.pure fun _ h => h
  · exact spec_emit _ trivial

/-- Taking up page bytes sends nothing before the gate. -/
theorem handlePageData_sends [Blake3] (nowMs : Int64) (pageNo : UInt32) (data : Bytes) :
    Spec (Going direction) (handlePageData nowMs pageNo data : FsmM σ Unit)
      (fun _ => Going direction) (fun _ => Talking direction) := by
  have hframe : ∀ (w w' : World σ), Going direction w → sentBy w'.history = sentBy w.history →
      w'.fsm.sawHello = w.fsm.sawHello → w'.fsm.direction = w.fsm.direction →
      w'.fsm.emittedComplete = w.fsm.emittedComplete → Going direction w' := by
    intro w w' h hsent hsaw hdir hemit
    rcases h with h | h
    · exact .inl (h.frame hsent hsaw hdir hemit)
    · exact .inr (h.frame hsent hemit)
  have hrecord : ∀ e : Event, sentBy [e] = [] → Spec (Going direction) (record e : FsmM σ Unit)
      (fun _ => Going direction) (fun _ => Talking direction) := by
    intro e he w h
    exact hframe w (w.record e) h (by rw [World.record_history, sentBy_append, he,
      List.append_nil]) rfl rfl rfl
  unfold handlePageData
  refine Spec.bind (hrecord _ rfl) fun _ => ?_
  refine Spec.bind (Q := fun _ => Going direction) (fun w h => ?_) fun _ => ?_
  · exact hframe w _ h rfl rfl rfl rfl
  refine Spec.bind (Q := fun _ => Going direction) ?_ fun _ => ?_
  · exact spec_onStorage (ReliableStorage.putPage_succeeds pageNo data (pageHash data) nowMs)
      fun w t h => hframe w _ h rfl rfl rfl rfl
  refine Spec.bind (hrecord _ rfl) fun _ => ?_
  refine Spec.bind (Q := fun _ => Going direction) (fun w h => ?_) fun _ => ?_
  · exact hframe w _ h rfl rfl rfl rfl
  · exact spec_maybeEmitComplete

theorem streamUnclaimed_sends :
    Spec (Talking .pull) (streamUnclaimed : FsmM σ Unit) (fun _ => Talking .pull)
      (fun _ => Talking .pull) := by
  intro w h
  rw [run_streamUnclaimed]
  refine Spec.forM (I := Talking .pull) (E := fun _ => Talking .pull) (fun pageNo => ?_) w h
  unfold streamPage
  refine Spec.bind (spec_read (ReliableStorage.getPage_succeeds pageNo)) fun found => ?_
  split
  · next data =>
    refine Spec.get_bind fun w h => ?_
    split
    · exact h
    · exact spec_sendPage pageNo data w h
  · exact Spec.pure fun _ h => h

theorem handleComplete_sends :
    Spec (Talking direction) (handleComplete : FsmM σ Unit) (fun _ => Going direction)
      (fun _ => Talking direction) := by
  have hgate : Spec (Talking direction) (maybeEmitComplete emit : FsmM σ Unit)
      (fun _ => Going direction) (fun _ => Talking direction) :=
    fun w h => spec_maybeEmitComplete w (.inl h)
  unfold handleComplete
  refine Spec.bind (Q := fun _ => Talking direction) (fun w h => ?_) fun _ => ?_
  · exact h.frame (by rw [World.record_history, sentBy_append]; simp) rfl rfl rfl
  refine Spec.bind spec_modifyFsm fun _ => ?_
  refine Spec.get_bind fun w h => ?_
  dsimp only
  split
  · next hwalk =>
    obtain rfl : direction = .pull := h.dir.symm.trans hwalk.1
    exact Spec.bind streamUnclaimed_sends (fun _ => hgate) w h
  · exact hgate w h

variable [Blake3]

/-- What a call sends to a client that was greeted. -/
theorem apply_sends (nowMs : Int64) (msg : SyncMessage) :
    Spec (Talking direction) (apply nowMs msg : FsmM σ Unit) (fun _ => Going direction)
      (fun _ => Talking direction) := by
  have hgo : ∀ {m : FsmM σ Unit}, Spec (Talking direction) m (fun _ => Talking direction)
      (fun _ => Talking direction) → Spec (Talking direction) m (fun _ => Going direction)
      (fun _ => Talking direction) := by
    intro m hm w h
    have := hm w h
    cases hr : m.run w with
    | ok a w' => rw [hr] at this; exact .inl this
    | error e w' => rw [hr] at this; exact this
  unfold apply
  refine Spec.get_bind fun w h => ?_
  rw [if_pos h.sawHello]
  revert w h
  show Spec (Talking direction) _ _ _
  split
  case h_2 pageNo hash => exact hgo (handlePageHash_sends pageNo hash)
  case h_3 s e ch => exact hgo (handlePageHashBatch_sends s e ch)
  case h_4 pageNo data => exact fun w h => handlePageData_sends nowMs pageNo data w (.inl h)
  case h_5 pages =>
    have hloop := Spec.forM (l := pages) (I := Going direction) (E := fun _ => Talking direction)
      fun entry => handlePageData_sends (σ := σ) nowMs entry.pageNo entry.data
    exact fun w h => hloop w (.inl h)
  case h_6 => exact handleComplete_sends
  all_goals exact Spec.throw fun _ h => h

/-- The first call greets the client, or sends nothing. -/
theorem apply_greets (nowMs : Int64) (msg : SyncMessage) :
    Spec (Greeting direction) (apply nowMs msg : FsmM σ Unit) (fun _ => Talking direction)
      (fun _ w => sentBy w.history = []) := by
  unfold apply
  refine Spec.get_bind fun w h => ?_
  rw [if_neg (by simp [h.sawHello])]
  revert w h
  show Spec (Greeting direction) _ _ _
  split
  · next version pageSize clientMax =>
    unfold handleHello
    split
    · exact Spec.throw fun _ h => h.sent
    · -- From here on only the reply is missing.
      let Q : World σ → Prop := fun w => w.fsm.sawHello = true ∧ w.fsm.direction = direction ∧
        w.fsm.emittedComplete = false ∧ sentBy w.history = []
      refine Spec.bind (Q := fun _ => Q) (fun w h => ⟨rfl, h.dir, h.emittedComplete, h.sent⟩)
        fun _ => ?_
      refine Spec.bind (Q := fun _ => Q) ?_ fun max => ?_
      · exact spec_onStorage ReliableStorage.maxPage_succeeds fun w t h => h
      refine Spec.bind (Q := fun _ => Q) (fun w h => h) fun _ => ?_
      rintro w ⟨hsaw, hdir, hemit, hsent⟩
      have hhand := sentBy_hand w (.helloReply HANDSHAKE_VERSION pageSize max)
      rw [run_emit]
      cases hans : w.sink w.calls with
      | none =>
        rw [hans, hsent, if_pos rfl] at hhand
        exact ⟨hsaw, hdir, hemit, _, _, _, [], hhand, nofun⟩
      | some e =>
        rw [hans, hsent, if_neg (by simp)] at hhand
        exact hhand
  · exact Spec.throw fun _ h => h.sent

end SyncFsm

/-! ## Runs of the task -/

namespace SessionTask

open SyncFsm (Greeting Talking Over Going sentBy_hand apply_sends apply_greets)

variable {σ : Type} {direction : Direction}

/-- The conversation has not ended. -/
def Unended (direction : Direction) (frames : List SyncMessage) : Prop :=
  frames = [] ∨ Replied direction frames

theorem Unended.conversation {frames : List SyncMessage} (h : Unended direction frames) :
    Conversation direction frames := by
  rcases h with rfl | h
  · exact .nothing
  · exact .replied h

/-- An error that is sent ends the conversation. -/
theorem Unended.sendError {w : World σ} (h : Unended direction (sentBy w.history))
    (message : String) : Conversation direction (sentBy (sendError w message).history) := by
  rw [SessionTask.sendError, sentBy_hand]
  split
  · rcases h with hnone | h
    · rw [hnone]
      exact .refused message
    · exact .ended h trivial
  · rw [List.append_nil]
    exact h.conversation

/-- What holds between the turns of the task. -/
structure Converses (direction : Direction) (task : SessionTask σ) : Prop where
  machine : task.running = true → Greeting direction task.world ∨ Talking direction task.world
  frames : Conversation direction task.sent

theorem Converses.of_stopped {task : SessionTask σ} (hstop : task.running = false)
    (hframes : Conversation direction task.sent) : Converses direction task :=
  ⟨fun hrun => by simp [hstop] at hrun, hframes⟩

theorem spawn_converses (storage : σ) (refuses : Nat → Bool) :
    Converses direction (spawn direction storage refuses) :=
  ⟨fun _ => .inl ⟨rfl, rfl, rfl, rfl⟩, .nothing⟩

variable [ReliableStorage σ] [Blake3]

/-- A call leaves the machine talking or over, and one that fails leaves the
conversation open. -/
theorem apply_outcome {w : World σ} (h : Greeting direction w ∨ Talking direction w)
    (nowMs : Int64) (msg : SyncMessage) :
    Outcome (fun _ => Going direction) (fun _ w => Unended direction (sentBy w.history))
      ((SyncFsm.apply nowMs msg).run w) := by
  rcases h with h | h
  · have hcall := apply_greets nowMs msg w h
    cases hr : (SyncFsm.apply nowMs msg).run w with
    | ok a w' => rw [hr] at hcall; exact .inl hcall
    | error e w' => rw [hr] at hcall; exact .inl hcall
  · have hcall := apply_sends nowMs msg w h
    cases hr : (SyncFsm.apply nowMs msg).run w with
    | ok a w' => rw [hr] at hcall; exact hcall
    | error e w' => rw [hr] at hcall; exact .inr hcall.sent

theorem step_converses {task : SessionTask σ} (hrun : task.running = true)
    (h : Converses direction task) (nowMs : Int64) (event : WebsocketEvent) :
    Converses direction (task.step nowMs event) := by
  have hmachine := h.machine hrun
  have hopen : Unended direction (sentBy task.world.history) := by
    rcases hmachine with hgreet | htalk
    · exact .inl hgreet.sent
    · exact .inr htalk.sent
  match event with
  | .text | .binary (.error e) => exact .of_stopped rfl (hopen.sendError _)
  | .error => exact .of_stopped rfl h.frames
  | .close =>
    refine .of_stopped rfl ?_
    show Conversation direction (sentBy (final (SyncFsm.clientClosed.run task.world)).history)
    rw [SyncFsm.run_clientClosed, Effect.final_ok]
    split
    · -- The frame goes to a callback that drops it.
      rw [World.setFsm_history, World.record_history, sentBy_append, sentBy_dropped, sentBy_nil,
        List.append_nil]
      exact h.frames
    · exact h.frames
  | .binary (.ok msg) =>
    have hcall := apply_outcome hmachine nowMs msg
    cases hr : (SyncFsm.apply nowMs msg).run task.world with
    | ok a w =>
      rw [hr] at hcall
      have hframes : Conversation direction (sentBy w.history) := by
        rcases hcall with htalk | hover
        · exact .replied htalk.sent
        · obtain ⟨frames, pages, bytes, hreplied, hsent⟩ := hover.sent
          rw [hsent]
          exact .ended hreplied trivial
      simp only [step, hr, Effect.final_ok, Effect.fault_ok]
      split
      · exact .of_stopped rfl hframes
      · split
        · exact .of_stopped rfl hframes
        · next hdone =>
          refine ⟨fun _ => .inr ?_, hframes⟩
          rcases hcall with htalk | hover
          · exact htalk
          · exact absurd hover.emittedComplete hdone
    | error e w =>
      rw [hr] at hcall
      simp only [step, hr, Effect.final_error, Effect.fault_error]
      split
      · exact .of_stopped rfl (Unended.conversation hcall)
      · exact .of_stopped rfl (Unended.sendError hcall e)

theorem run_converses {task : SessionTask σ} (h : Converses direction task)
    (events : List (Int64 × WebsocketEvent)) : Converses direction (task.run events) := by
  induction events generalizing task with
  | nil => exact h
  | cons event events ih =>
    rw [run]
    split
    · next hrun => exact ih (step_converses hrun h event.1 event.2)
    · exact h

/-- What a session sends, whatever reaches its task: nothing, a single error, or the
reply to `Hello`, frames of its direction and at most one frame that ends it. -/
theorem session_converses (direction : Direction) (storage : σ) (refuses : Nat → Bool)
    (events : List (Int64 × WebsocketEvent)) :
    let sent := ((spawn direction storage refuses).run events).sent
    Conversation direction sent ∧
      (direction = .push → ∀ msg ∈ sent, msg.entries = []) ∧
      (direction = .pull → ∀ msg ∈ sent, ∀ p, msg.requests p = false) ∧
      sent.countP SyncMessage.isHelloReply ≤ 1 ∧
      ∀ before last after, sent = before ++ last :: after → last.Ends → after = [] := by
  have h := (run_converses (spawn_converses storage refuses) events : Converses direction _).frames
  refine ⟨h, ?_, ?_, h.replies_once, fun before last after heq hlast => h.eq_nil_of_ends heq hlast⟩
  · rintro rfl
    exact h.entries_of_push
  · rintro rfl
    exact h.requests_of_pull

end SessionTask

end EdgeReplica
