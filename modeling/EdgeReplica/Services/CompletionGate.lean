-- SUMMARY: The completion gate: when `SyncComplete` may be emitted, over any sequence of calls with failures at any point.
import EdgeReplica.Services.SyncFsmActs

/-!
# The completion gate

Calls of the machine may come in any order, go on after an error and after
completion, and their storage calls and sends may fail at any point. `Gate` ties
the fields of the machine to the record of what it did; every act keeps it.
-/

namespace EdgeReplica

open Effect (final fault)

/-! ## The record -/

namespace Event

/-- The frame was handed to a callback: the session's sink or that of a closed
transport. -/
def Hands (msg : SyncMessage) : Event → Prop
  | handed m _ => m = msg
  | dropped m => m = msg
  | _ => False

/-- The callback took a `SyncComplete`. -/
def emitsComplete : Event → Bool
  | handed (.syncComplete ..) none => true
  | dropped (.syncComplete ..) => true
  | _ => false

end Event

/-- Page `p` was requested and its bytes were not taken up since. -/
def Outstanding (p : UInt32) (history : List Event) : Prop :=
  ∃ before answer since, history = before ++ .handed (.requestPage p) answer :: since ∧
    ∀ data, .pageData p data ∉ since

/-- Whenever a `SyncComplete` was handed to a callback, a `Complete` had been
taken up and no requested page was outstanding. -/
def Gated (history : List Event) : Prop :=
  ∀ before e after, history = before ++ e :: after →
    (∃ pages bytes, e.Hands (.syncComplete pages bytes)) →
      .complete ∈ before ∧ ∀ p, ¬ Outstanding p before

theorem outstanding_snoc {p : UInt32} {history : List Event} {e : Event}
    (h : Outstanding p (history ++ [e])) :
    (∃ answer, e = .handed (.requestPage p) answer) ∨
      (Outstanding p history ∧ ∀ data, e ≠ .pageData p data) := by
  obtain ⟨before, answer, since, heq, hsince⟩ := h
  rcases List.eq_nil_or_concat since with rfl | ⟨since', last, rfl⟩
  · obtain ⟨-, h⟩ := List.append_inj' heq rfl
    exact .inl ⟨answer, by simpa using h⟩
  · have heq' :
        history ++ [e] = (before ++ .handed (.requestPage p) answer :: since') ++ [last] := by
      simpa using heq
    obtain ⟨rfl, h⟩ := List.append_inj' heq' rfl
    obtain rfl : e = last := by simpa using h
    refine .inr ⟨⟨before, answer, since', rfl, fun data hmem => ?_⟩, fun data h => ?_⟩
    · exact hsince data (by simp [hmem])
    · exact hsince data (by simp [h])

theorem Gated.snoc {history : List Event} {e : Event} (h : Gated history)
    (he : (∃ pages bytes, e.Hands (.syncComplete pages bytes)) →
      .complete ∈ history ∧ ∀ p, ¬ Outstanding p history) : Gated (history ++ [e]) := by
  intro before x after heq hx
  rcases List.eq_nil_or_concat after with rfl | ⟨after', last, rfl⟩
  · obtain ⟨rfl, h'⟩ := List.append_inj' heq rfl
    obtain rfl : e = x := by simpa using h'
    exact he hx
  · have heq' : history ++ [e] = (before ++ x :: after') ++ [last] := by simpa using heq
    obtain ⟨rfl, -⟩ := List.append_inj' heq' rfl
    exact h before x after' rfl hx

namespace SyncFsm

variable {σ : Type}

/-! ## The invariant -/

/-- What ties the fields of the machine to what it did. -/
structure Gate (w : World σ) : Prop where
  gated : Gated w.history
  pending : ∀ p, Outstanding p w.history → p ∈ w.fsm.pendingRequests
  complete : w.fsm.completedHashPhase = true → .complete ∈ w.history
  emitted : w.history.countP Event.emitsComplete = w.fsm.emittedComplete.toNat

/-- An event that neither requests a page nor hands over a `SyncComplete`. -/
def Neutral (e : Event) : Prop :=
  (∀ p answer, e ≠ .handed (.requestPage p) answer) ∧
    (∀ pages bytes, ¬ e.Hands (.syncComplete pages bytes)) ∧ e.emitsComplete = false

/-- A neutral event keeps the invariant, as long as the machine goes on awaiting
every page whose bytes the event does not carry. -/
theorem Gate.record {w w' : World σ} {e : Event} (h : Gate w) (he : Neutral e)
    (hhist : w'.history = w.history ++ [e])
    (hpend : ∀ p ∈ w.fsm.pendingRequests, (∀ data, e ≠ .pageData p data) →
      p ∈ w'.fsm.pendingRequests)
    (hcomp : w'.fsm.completedHashPhase = true →
      w.fsm.completedHashPhase = true ∨ e = .complete)
    (hemit : w'.fsm.emittedComplete = w.fsm.emittedComplete) : Gate w' where
  gated := by
    rw [hhist]
    exact h.gated.snoc fun ⟨pages, bytes, hh⟩ => absurd hh (he.2.1 pages bytes)
  pending p hp := by
    rw [hhist] at hp
    rcases outstanding_snoc hp with ⟨answer, hreq⟩ | ⟨hold, hdata⟩
    · exact absurd hreq (he.1 p answer)
    · exact hpend p (h.pending p hold) hdata
  complete hc := by
    rw [hhist]
    rcases hcomp hc with hc | rfl
    · exact List.mem_append_left _ (h.complete hc)
    · exact List.mem_append_right _ List.mem_cons_self
  emitted := by
    rw [hhist, List.countP_append, h.emitted, hemit]
    simp [he.2.2]

/-- Changing neither the record nor the fields the invariant reads keeps it. -/
theorem Gate.frame {w w' : World σ} (h : Gate w) (hhist : w'.history = w.history)
    (hpend : w'.fsm.pendingRequests = w.fsm.pendingRequests)
    (hcomp : w'.fsm.completedHashPhase = w.fsm.completedHashPhase)
    (hemit : w'.fsm.emittedComplete = w.fsm.emittedComplete) : Gate w' where
  gated := hhist ▸ h.gated
  pending p hp := hpend ▸ h.pending p (hhist ▸ hp)
  complete hc := hhist ▸ h.complete (hcomp ▸ hc)
  emitted := by rw [hhist, hemit]; exact h.emitted

/-- Requesting a page that the machine now awaits keeps the invariant. -/
theorem Gate.request {w : World σ} (h : Gate w) (pageNo : UInt32) :
    Gate
      ((w.setFsm fun f => { f with pendingRequests := insert pageNo f.pendingRequests }).hand
        (.requestPage pageNo)) where
  gated := h.gated.snoc fun ⟨_, _, hh⟩ => by simp [Event.Hands] at hh
  pending p hp := by
    rcases outstanding_snoc hp with ⟨answer, hreq⟩ | ⟨hold, -⟩
    · obtain rfl : pageNo = p := by simpa using (Event.handed.inj hreq).1
      simp
    · simpa using .inr (h.pending p hold)
  complete hc := List.mem_append_left _ (h.complete hc)
  emitted := by
    simpa [List.countP_append, Event.emitsComplete] using h.emitted

/-- What the open gate says of the record. -/
theorem Gate.of_open {w : World σ} (h : Gate w) (hgate : w.fsm.GateOpen) :
    .complete ∈ w.history ∧ ∀ p, ¬ Outstanding p w.history := by
  refine ⟨h.complete hgate.2.1, fun p hp => ?_⟩
  simpa [hgate.2.2] using h.pending p hp

/-- Handing `SyncComplete` to a callback through the open gate keeps the
invariant, if the flag is set exactly when the callback takes the frame. -/
theorem Gate.finish {w w' : World σ} {e : Event} (h : Gate w) (hgate : w.fsm.GateOpen)
    (hhist : w'.history = w.history ++ [e]) (hpend : w'.fsm.pendingRequests = w.fsm.pendingRequests)
    (hcomp : w'.fsm.completedHashPhase = w.fsm.completedHashPhase)
    (hreq : ∀ p answer, e ≠ .handed (.requestPage p) answer)
    (hemit : w'.fsm.emittedComplete = e.emitsComplete) : Gate w' where
  gated := hhist ▸ h.gated.snoc fun _ => h.of_open hgate
  pending p hp := by
    rw [hhist] at hp
    rcases outstanding_snoc hp with ⟨answer, h'⟩ | ⟨hold, -⟩
    · exact absurd h' (hreq p answer)
    · exact hpend ▸ h.pending p hold
  complete hc := by
    rw [hhist]
    exact List.mem_append_left _ (h.complete (hcomp ▸ hc))
  emitted := by
    rw [hhist, List.countP_append, h.emitted, hgate.1, hemit]
    cases he : e.emitsComplete <;> simp [he]

theorem gate_clientClosed {w : World σ} (h : Gate w) : Gate (final (clientClosed.run w)) := by
  rw [run_clientClosed, Effect.final_ok]
  split
  · next hopen => exact h.finish hopen.2 rfl rfl rfl (by simp) rfl
  · exact h

/-- The world a machine starts in. -/
def start (direction : Direction) (storage : σ) (sink : Nat → Option String) : World σ :=
  { storage, sink, fsm := new direction }

theorem gate_start (direction : Direction) (storage : σ) (sink : Nat → Option String) :
    Gate (start direction storage sink) where
  gated before e after h _ := by simp [start] at h
  pending p hp := by
    obtain ⟨before, answer, since, h, -⟩ := hp
    simp [start] at h
  complete h := by simp [start, new] at h
  emitted := rfl

variable [SyncStorage σ] [Blake3]

theorem Act.gate {msg : SyncMessage} {w w' : World σ} (hact : Act msg w w') (h : Gate w) :
    Gate w' := by
  cases hact with
  | read _ => exact h.frame rfl rfl rfl rfl
  | hello _ => exact h.frame rfl rfl rfl rfl
  | greet _ _ =>
    exact h.record (by simp [Neutral, Event.Hands, Event.emitsComplete]) rfl
      (fun _ hp _ => hp) .inl rfl
  | claim pages _ => exact h.frame rfl rfl rfl rfl
  | request _ _ _ => exact h.request _
  | serve pageNo data _ _ =>
    exact h.record (by simp [Neutral, Event.Hands, Event.emitsComplete]) rfl
      (fun _ hp _ => hp) .inl rfl
  | mismatch _ _ =>
    exact h.record (by simp [Neutral, Event.Hands, Event.emitsComplete]) rfl
      (fun _ hp _ => hp) .inl rfl
  | @take _ data _ _ =>
    refine h.record (by simp [Neutral, Event.Hands, Event.emitsComplete]) rfl
      (fun p hp hne => Finset.mem_erase.mpr ⟨?_, hp⟩) .inl rfl
    rintro rfl
    exact hne data rfl
  | put _ _ =>
    exact h.record (by simp [Neutral, Event.Hands, Event.emitsComplete]) rfl
      (fun _ hp _ => hp) .inl rfl
  | putFailed _ => exact h.frame rfl rfl rfl rfl
  | complete _ _ =>
    exact h.record (by simp [Neutral, Event.Hands, Event.emitsComplete]) rfl
      (fun _ hp _ => hp) (fun _ => .inr rfl) rfl
  | finish hgate hans =>
    exact h.finish hgate rfl rfl rfl (by simp) (by simp [Event.emitsComplete, hans])
  | refused hgate hans =>
    refine h.finish hgate rfl rfl rfl (by simp) ?_
    cases hw : w.sink w.calls with
    | none => exact absurd hw hans
    | some e => simpa [Event.emitsComplete] using hgate.1

/-! ## Runs -/

/-- A call from outside the machine. -/
inductive Call where
  | apply (nowMs : Int64) (msg : SyncMessage)
  | clientClosed

def Call.run : Call → FsmM σ Unit
  | .apply nowMs msg => SyncFsm.apply nowMs msg
  | .clientClosed => SyncFsm.clientClosed

/-- Make the calls one after the other, whether they fail or not. -/
def runCalls (calls : List Call) (w : World σ) : World σ :=
  calls.foldl (fun w call => final (call.run.run w)) w

/-- No call of the run fails. -/
def Faultless : List Call → World σ → Prop
  | [], _ => True
  | call :: calls, w => fault (call.run.run w) = none ∧ Faultless calls (final (call.run.run w))

theorem Call.gate (call : Call) {w : World σ} (h : Gate w) : Gate (final (call.run.run w)) := by
  cases call with
  | apply nowMs msg => exact (apply_acts nowMs msg w).keeps (fun _ _ hact => hact.gate) h
  | clientClosed => exact gate_clientClosed h

theorem gate_runCalls (calls : List Call) {w : World σ} (h : Gate w) : Gate (runCalls calls w) := by
  induction calls generalizing w with
  | nil => exact h
  | cons call calls ih => exact ih (call.gate h)

/-! ## Runs without a failure

A call that returns leaves the gate shut: whoever opens it passes it. So between
calls there is nothing left for a closing client to emit. -/

def Shut (f : SyncFsm) : Prop := ¬ f.GateOpen

/-- From a machine with `P`, a run of `m` that returns leaves a machine with `Q`. -/
def Returns {α : Type} (P : SyncFsm → Prop) (m : FsmM σ α) (Q : SyncFsm → Prop) : Prop :=
  Effect.Spec (fun w => P w.fsm) m (fun _ w => Q w.fsm) fun _ _ => True

section

omit [SyncStorage σ] [Blake3]

namespace Returns

variable {α β : Type} {P Q : SyncFsm → Prop}

theorem bind (M : SyncFsm → Prop) {m : FsmM σ α} {f : α → FsmM σ β} (hm : Returns P m M)
    (hf : ∀ a, Returns M (f a) Q) : Returns P (m >>= f) Q :=
  Effect.Spec.bind hm hf

theorem pure (P : SyncFsm → Prop) (a : α) : Returns P (pure a : FsmM σ α) P :=
  Effect.Spec.pure fun _ => id

theorem throw (e : String) : Returns P (throw e : FsmM σ α) Q :=
  Effect.Spec.throw fun _ _ => trivial

theorem get_bind {f : World σ → FsmM σ α} (h : ∀ w, Returns P (f w) Q) :
    Returns P (get >>= f) Q :=
  Effect.Spec.get_bind fun w hw => h w w hw

theorem modifyFsm {f : SyncFsm → SyncFsm} (h : ∀ s, P s → Q (f s)) :
    Returns P (SyncFsm.modifyFsm f : FsmM σ Unit) Q :=
  fun w => h w.fsm

theorem record (P : SyncFsm → Prop) (e : Event) : Returns P (SyncFsm.record e : FsmM σ Unit) P :=
  fun _ => id

theorem emit (P : SyncFsm → Prop) (msg : SyncMessage) :
    Returns P (SyncFsm.emit msg : FsmM σ Unit) P := by
  intro w h
  rw [run_emit]
  cases w.sink w.calls with
  | none => exact h
  | some e => trivial

theorem onStorage (P : SyncFsm → Prop) (m : StoreM σ α) : Returns P (SyncFsm.onStorage m) P := by
  intro w h
  rw [run_onStorage]
  cases m.run w.storage with
  | ok a storage => exact h
  | error e storage => trivial

/-- Whatever state it starts in, passing the gate leaves it shut. -/
theorem maybeEmitComplete :
    Returns P (SyncFsm.maybeEmitComplete SyncFsm.emit : FsmM σ Unit) Shut := by
  intro w _
  rw [run_maybeEmitComplete]
  by_cases hgate : w.fsm.GateOpen
  · simp only [hgate, if_true, EStateM.run_bind, run_emit]
    cases w.sink w.calls with
    | none =>
      intro hopen
      exact absurd hopen.1 (by simp)
    | some e => trivial
  · simp only [hgate, if_false]
    exact hgate

end Returns

end

omit [Blake3] in
theorem handleHello_returns (protocolVersion pageSize : UInt32) :
    Returns Shut (handleHello protocolVersion pageSize : FsmM σ Unit) Shut := by
  unfold handleHello
  split
  · exact Returns.throw _
  · refine Returns.bind Shut (Returns.modifyFsm fun _ h => h) fun _ => ?_
    refine Returns.bind Shut (Returns.onStorage _ _) fun max => ?_
    exact Returns.bind Shut (Returns.modifyFsm fun _ h => h) fun _ => Returns.emit _ _

omit [Blake3] in
theorem handlePageHash_returns (pageNo : UInt32) (hash : Bytes) :
    Returns Shut (handlePageHash pageNo hash : FsmM σ Unit) Shut := by
  have hclosed : ∀ f : SyncFsm,
      Shut { f with pendingRequests := insert pageNo f.pendingRequests } :=
    fun f hopen => absurd hopen.2.2 (by simp)
  unfold handlePageHash
  refine Returns.bind Shut (Returns.modifyFsm fun _ h => h) fun _ => ?_
  refine Returns.bind Shut (Returns.onStorage _ _) fun stored => ?_
  split
  · exact Returns.pure _ _
  · refine Returns.get_bind fun w => ?_
    split
    · exact Returns.bind Shut (Returns.modifyFsm fun f _ => hclosed f) fun _ => Returns.emit _ _
    · refine Returns.bind Shut (Returns.onStorage _ _) fun found => ?_
      split
      · exact Returns.bind Shut (Returns.modifyFsm fun _ h => h) fun _ => Returns.emit _ _
      · exact Returns.pure _ _

theorem handlePageHashBatch_returns (startPage endPage : UInt32) (clientCombined : Bytes) :
    Returns Shut (handlePageHashBatch startPage endPage clientCombined : FsmM σ Unit) Shut := by
  unfold handlePageHashBatch
  refine Returns.bind Shut (Returns.modifyFsm fun _ h => h) fun _ => ?_
  refine Returns.bind Shut (Returns.onStorage _ _) fun stored => ?_
  split
  · exact Returns.pure _ _
  · exact Returns.emit _ _

/-- The last thing `handlePageData` does is to pass the gate, so what held of the
machine before does not matter. -/
theorem handlePageData_returns (nowMs : Int64) (pageNo : UInt32) (data : Bytes) :
    Returns Shut (handlePageData nowMs pageNo data : FsmM σ Unit) Shut := by
  unfold handlePageData
  refine Returns.bind (fun _ => True) (fun _ _ => trivial) fun _ => ?_
  refine Returns.bind (fun _ => True) (Returns.modifyFsm fun _ _ => trivial) fun _ => ?_
  refine Returns.bind (fun _ => True) (Returns.onStorage _ _) fun _ => ?_
  refine Returns.bind (fun _ => True) (Returns.record _ _) fun _ => ?_
  refine Returns.bind (fun _ => True) (Returns.modifyFsm fun _ _ => trivial) fun _ => ?_
  exact Returns.maybeEmitComplete

omit [Blake3] in
theorem handleComplete_returns : Returns Shut (handleComplete : FsmM σ Unit) Shut := by
  have hwalk : Returns (fun _ => True) (streamUnclaimed : FsmM σ Unit) fun _ => True := by
    intro w _
    cases streamUnclaimed.run w <;> trivial
  unfold handleComplete
  refine Returns.bind (fun _ => True) (fun _ _ => trivial) fun _ => ?_
  refine Returns.bind (fun _ => True) (Returns.modifyFsm fun _ _ => trivial) fun _ => ?_
  refine Returns.get_bind fun w => ?_
  dsimp only
  split
  · exact Returns.bind (fun _ => True) hwalk fun _ => Returns.maybeEmitComplete
  · exact Returns.maybeEmitComplete

/-- A call of `apply` that returns leaves the gate shut. -/
theorem apply_returns (nowMs : Int64) (msg : SyncMessage) :
    Returns Shut (apply nowMs msg : FsmM σ Unit) Shut := by
  unfold apply
  refine Returns.get_bind fun w => ?_
  split
  · split
    case h_2 pageNo hash => exact handlePageHash_returns pageNo hash
    case h_3 s e ch => exact handlePageHashBatch_returns s e ch
    case h_4 pageNo data => exact handlePageData_returns nowMs pageNo data
    case h_5 pages =>
      exact Effect.Spec.forM fun entry => handlePageData_returns nowMs entry.pageNo entry.data
    case h_6 => exact handleComplete_returns
    all_goals exact Returns.throw _
  · split
    · exact handleHello_returns _ _
    · exact Returns.throw _

/-- No frame was dropped: every frame that left the machine went to the sink. -/
def NoneDropped (history : List Event) : Prop := ∀ msg, .dropped msg ∉ history

theorem Act.noneDropped {msg : SyncMessage} {w w' : World σ} (hact : Act msg w w')
    (h : NoneDropped w.history) :
    NoneDropped w'.history := by
  cases hact <;> intro msg <;> simpa using h msg

/-- What holds between the calls of a run without a failure. -/
structure Settled (w : World σ) : Prop where
  shut : Shut w.fsm
  noneDropped : NoneDropped w.history

omit [SyncStorage σ] [Blake3] in
/-- A closing client changes nothing while the gate is shut. -/
theorem clientClosed_of_shut {w : World σ} (h : Shut w.fsm) : clientClosed.run w = .ok () w := by
  rw [run_clientClosed, if_neg fun hopen => h hopen.2]

theorem settled_runCalls {calls : List Call} {w : World σ} (hrun : Faultless calls w)
    (h : Settled w) : Settled (runCalls calls w) := by
  induction calls generalizing w with
  | nil => exact h
  | cons call calls ih =>
    obtain ⟨hok, hrest⟩ := hrun
    refine ih hrest ?_
    cases call with
    | clientClosed =>
      show Settled (final (clientClosed.run w))
      rw [clientClosed_of_shut h.shut]
      exact h
    | apply nowMs msg =>
      change fault ((SyncFsm.apply nowMs msg).run w) = none at hok
      refine ⟨?_, (apply_acts nowMs msg w).keeps (fun _ _ hact => hact.noneDropped) h.noneDropped⟩
      have hret := apply_returns nowMs msg w h.shut
      show Shut (final ((SyncFsm.apply nowMs msg).run w)).fsm
      cases hr : (SyncFsm.apply nowMs msg).run w with
      | ok _ w' => rw [hr] at hret; exact hret
      | error e w' => rw [hr] at hok; simp at hok

omit [SyncStorage σ] [Blake3] in
theorem settled_start (direction : Direction) (storage : σ) (sink : Nat → Option String) :
    Settled (start direction storage sink) :=
  ⟨fun hopen => by simp [start, new, GateOpen] at hopen, fun msg => by simp [start]⟩

omit [SyncStorage σ] [Blake3] in
/-- The flag says whether the sink took a `SyncComplete`, when none was dropped. -/
theorem Gate.done_iff {w : World σ} (h : Gate w) (hdrop : NoneDropped w.history) :
    w.fsm.done = true ↔ ∃ pages bytes, .handed (.syncComplete pages bytes) none ∈ w.history := by
  have hcount : w.fsm.emittedComplete = true ↔ ∃ e ∈ w.history, e.emitsComplete = true := by
    rw [← List.countP_pos_iff, h.emitted]
    cases w.fsm.emittedComplete <;> simp
  rw [done, hcount]
  constructor
  · rintro ⟨e, hmem, he⟩
    match e with
    | .handed (.syncComplete pages bytes) none => exact ⟨pages, bytes, hmem⟩
    | .dropped msg => exact absurd hmem (hdrop msg)
  · rintro ⟨pages, bytes, hmem⟩
    exact ⟨_, hmem, rfl⟩

/-- The completion gate. Over any sequence of calls, with failures of the storage
and the sink at any point: at most one `SyncComplete` is taken; whenever one is
handed over, a `Complete` was taken up before and the bytes of every requested
page since its request. While no call has failed, `done` says whether the sink
took a `SyncComplete`, and a closing client changes nothing. -/
theorem completion_gate (direction : Direction) (storage : σ) (sink : Nat → Option String)
    (calls : List Call) :
    let w := runCalls calls (start direction storage sink)
    w.history.countP Event.emitsComplete ≤ 1 ∧ Gated w.history ∧
      (Faultless calls (start direction storage sink) →
        (w.fsm.done = true ↔
          ∃ pages bytes, .handed (.syncComplete pages bytes) none ∈ w.history) ∧
        (final (clientClosed.run w)).fsm = w.fsm) := by
  have hgate := gate_runCalls calls (gate_start direction storage sink)
  refine ⟨?_, hgate.gated, fun hrun => ?_⟩
  · rw [hgate.emitted]
    exact Bool.toNat_le _
  · have hset := settled_runCalls hrun (settled_start direction storage sink)
    refine ⟨hgate.done_iff hset.noneDropped, ?_⟩
    rw [clientClosed_of_shut hset.shut]
    rfl

end SyncFsm

end EdgeReplica
