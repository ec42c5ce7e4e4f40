-- SUMMARY: A session over a storage in order is the session over what a map makes of the storage.
import EdgeReplica.Lib.Simulation
import EdgeReplica.Worker.ScanSession

/-!
# Sessions over mapped storages

A storage may keep more than another one, such as a schema or a count of its calls. If each
call of the first, seen through a map, is the call of the second, then so is each frame of
the machine, and the whole session. The calls may rely on an invariant that they keep.
-/

namespace EdgeReplica

open Effect (RefinesOn final fault seen)

variable {σ τ : Type} [ScanStorage σ] [ScanStorage τ]

/-- Seen through `f`, the calls of `σ` are those of `τ`, from states with `I`. -/
structure ScanStorage.Maps (I : σ → Prop) (f : σ → τ) : Prop where
  getPageHash (pageNo : UInt32) :
    RefinesOn I f (SyncStorage.getPageHash pageNo) (SyncStorage.getPageHash pageNo)
  getPage (pageNo : UInt32) :
    RefinesOn I f (SyncStorage.getPage pageNo) (SyncStorage.getPage pageNo)
  putPage (pageNo : UInt32) (data hash : Bytes) (nowMs : Int64) :
    RefinesOn I f (SyncStorage.putPage pageNo data hash nowMs)
      (SyncStorage.putPage pageNo data hash nowMs)
  maxPage : RefinesOn I f SyncStorage.maxPage SyncStorage.maxPage
  combinedHash [Blake3] (start stop : UInt32) :
    RefinesOn I f (ScanStorage.combinedHash start stop) (ScanStorage.combinedHash start stop)
  iterPagesInRange {α : Type} (start stop : UInt32)
    (emit : UInt32 → Bytes → EStateM StoreError α Unit) :
    RefinesOn (fun s => I s.1) (Prod.map f id) (ScanStorage.iterPagesInRange start stop emit)
      (ScanStorage.iterPagesInRange start stop emit)

omit [ScanStorage σ] [ScanStorage τ]

/-- The world over what the map makes of its storage. -/
def World.mapStorage (f : σ → τ) (w : World σ) : World τ := w.withStorage (f w.storage)

/-- Over the map, computations on worlds do the same, and keep the storage in order. -/
abbrev SyncFsm.Mapped {α : Type} (I : σ → Prop) (f : σ → τ) (m : FsmM σ α) (m' : FsmM τ α) :
    Prop :=
  RefinesOn (fun w => I w.storage) (World.mapStorage f) m m'

namespace SyncFsm

variable {I : σ → Prop} {f : σ → τ}

/-! ## Handlers -/

theorem mapped_onStorage {α : Type} {m : StoreM σ α} {m' : StoreM τ α} (h : RefinesOn I f m m') :
    Mapped I f (onStorage m) (onStorage m') := by
  intro w hw
  obtain ⟨hrun, hI⟩ := h w.storage hw
  have hrun' : m'.run (w.mapStorage f).storage = seen f (m.run w.storage) := hrun
  rw [run_onStorage, run_onStorage, hrun']
  cases hr : m.run w.storage <;> (rw [hr] at hI; exact ⟨rfl, hI⟩)

theorem mapped_modifyFsm (g : SyncFsm → SyncFsm) : Mapped I f (modifyFsm g) (modifyFsm g) :=
  RefinesOn.modify (fun _ => rfl) fun _ h => h

theorem mapped_record (e : Event) : Mapped I f (record e) (record e) :=
  RefinesOn.modify (fun _ => rfl) fun _ h => h

theorem mapped_emit (msg : SyncMessage) : Mapped I f (emit msg) (emit msg) := by
  intro w hw
  have hsink : (w.mapStorage f).sink (w.mapStorage f).calls = w.sink w.calls := rfl
  rw [run_emit, run_emit, hsink]
  cases w.sink w.calls <;> exact ⟨rfl, hw⟩

theorem mapped_maybeEmitComplete :
    Mapped I f (maybeEmitComplete emit) (maybeEmitComplete emit) := by
  refine RefinesOn.get_bind fun w => ?_
  rw [show (w.mapStorage f).fsm = w.fsm from rfl]
  dsimp only
  split
  · exact RefinesOn.pure _
  · exact RefinesOn.bind (mapped_emit _) fun _ => mapped_modifyFsm _

variable [ScanStorage σ] [ScanStorage τ] (h : ScanStorage.Maps I f)
include h

theorem mapped_handleHello (protocolVersion pageSize : UInt32) :
    Mapped I f (handleHello protocolVersion pageSize) (handleHello protocolVersion pageSize) := by
  unfold handleHello
  split
  · exact RefinesOn.throw _
  · refine RefinesOn.bind (mapped_modifyFsm _) fun _ => ?_
    refine RefinesOn.bind (mapped_onStorage h.maxPage) fun max => ?_
    exact RefinesOn.bind (mapped_modifyFsm _) fun _ => mapped_emit _

theorem mapped_handlePageHash (pageNo : UInt32) (hash : Bytes) :
    Mapped I f (handlePageHash pageNo hash) (handlePageHash pageNo hash) := by
  unfold handlePageHash
  refine RefinesOn.bind (mapped_modifyFsm _) fun _ => ?_
  refine RefinesOn.bind (mapped_onStorage (h.getPageHash pageNo)) fun stored => ?_
  split
  · exact RefinesOn.pure _
  · refine RefinesOn.get_bind fun w => ?_
    rw [show (w.mapStorage f).fsm = w.fsm from rfl]
    split
    · exact RefinesOn.bind (mapped_modifyFsm _) fun _ => mapped_emit _
    · refine RefinesOn.bind (mapped_onStorage (h.getPage pageNo)) fun found => ?_
      split
      · exact RefinesOn.bind (mapped_modifyFsm _) fun _ => mapped_emit _
      · exact RefinesOn.pure _

theorem mapped_handlePageData [Blake3] (nowMs : Int64) (pageNo : UInt32) (data : Bytes) :
    Mapped I f (handlePageData nowMs pageNo data) (handlePageData nowMs pageNo data) := by
  unfold handlePageData
  refine RefinesOn.bind (mapped_record _) fun _ => ?_
  refine RefinesOn.bind (mapped_modifyFsm _) fun _ => ?_
  refine RefinesOn.bind (mapped_onStorage (h.putPage _ _ _ _)) fun _ => ?_
  refine RefinesOn.bind (mapped_record _) fun _ => ?_
  exact RefinesOn.bind (mapped_modifyFsm _) fun _ => mapped_maybeEmitComplete

/-- A frame that reaches no scan. -/
theorem mapped_apply [Blake3] (nowMs : Int64) {msg : SyncMessage} (hscans : ¬ ScanFsm.Scans msg) :
    Mapped I f (apply nowMs msg) (apply nowMs msg) := by
  unfold apply
  refine RefinesOn.get_bind fun w => ?_
  rw [show (w.mapStorage f).fsm = w.fsm from rfl]
  split
  · split
    case h_2 pageNo hash => exact mapped_handlePageHash h pageNo hash
    case h_3 startPage endPage combined => exact absurd (.batch _ _ _) hscans
    case h_4 pageNo data => exact mapped_handlePageData h nowMs pageNo data
    case h_5 pages => exact RefinesOn.forM fun entry => mapped_handlePageData h nowMs _ _
    case h_6 => exact absurd .complete hscans
    all_goals exact RefinesOn.throw _
  · split
    · exact mapped_handleHello h _ _
    · exact RefinesOn.throw _

end SyncFsm

namespace ScanFsm

open SyncFsm (Mapped mapped_emit mapped_modifyFsm mapped_maybeEmitComplete mapped_onStorage
  mapped_record sendUnclaimed)

variable [ScanStorage σ] [ScanStorage τ] {I : σ → Prop} {f : σ → τ} (h : ScanStorage.Maps I f)
include h

theorem mapped_streamUnclaimed : Mapped I f streamUnclaimed streamUnclaimed := by
  intro w hw
  obtain ⟨hrun, hI⟩ := h.iterPagesInRange 1 w.fsm.serverMaxPage sendUnclaimed
    (w.storage, (w.withStorage (), none)) hw
  refine ⟨?_, by rw [final_streamUnclaimed]; exact hI⟩
  have hrun' : (ScanStorage.iterPagesInRange 1 (w.mapStorage f).fsm.serverMaxPage
      sendUnclaimed).run ((w.mapStorage f).storage, ((w.mapStorage f).withStorage (), none)) =
      seen (Prod.map f id) ((ScanStorage.iterPagesInRange 1 w.fsm.serverMaxPage
        sendUnclaimed).run (w.storage, (w.withStorage (), none))) := hrun
  show streamUnclaimed (w.mapStorage f) = seen (World.mapStorage f) (streamUnclaimed w)
  unfold streamUnclaimed
  simp only [hrun']
  generalize (ScanStorage.iterPagesInRange 1 w.fsm.serverMaxPage sendUnclaimed).run
    (w.storage, (w.withStorage (), none)) = result
  -- The callback has failed, the walk has, or neither.
  cases result with
  | ok a s =>
    obtain ⟨storage, after, emitErr⟩ := s
    cases emitErr <;> rfl
  | error e s =>
    obtain ⟨storage, after, emitErr⟩ := s
    cases emitErr <;> rfl

theorem mapped_handleComplete : Mapped I f handleComplete handleComplete := by
  unfold handleComplete
  refine RefinesOn.bind (mapped_record _) fun _ => ?_
  refine RefinesOn.bind (mapped_modifyFsm _) fun _ => ?_
  refine RefinesOn.get_bind fun w => ?_
  rw [show (w.mapStorage f).fsm = w.fsm from rfl]
  dsimp only
  split
  · exact RefinesOn.bind (mapped_streamUnclaimed h) fun _ => mapped_maybeEmitComplete
  · exact mapped_maybeEmitComplete

variable [Blake3]

theorem mapped_handlePageHashBatch (startPage endPage : UInt32) (combined : Bytes) :
    Mapped I f (handlePageHashBatch startPage endPage combined)
      (handlePageHashBatch startPage endPage combined) := by
  unfold handlePageHashBatch
  refine RefinesOn.bind (mapped_modifyFsm _) fun _ => ?_
  refine RefinesOn.bind (mapped_onStorage (h.combinedHash startPage endPage)) fun stored => ?_
  split
  · exact RefinesOn.pure _
  · exact mapped_emit _

theorem mapped_apply (nowMs : Int64) (msg : SyncMessage) :
    Mapped I f (apply nowMs msg) (apply nowMs msg) := by
  by_cases hscans : Scans msg
  · intro w hw
    have hfsm : (w.mapStorage f).fsm = w.fsm := rfl
    cases hsaw : w.fsm.sawHello with
    | false =>
      rw [run_apply_unasked nowMs hscans hsaw, run_apply_unasked nowMs hscans (hfsm ▸ hsaw)]
      exact ⟨rfl, hw⟩
    | true =>
      cases hscans with
      | batch startPage endPage combined =>
        rw [run_apply_batch nowMs startPage endPage combined hsaw,
          run_apply_batch nowMs startPage endPage combined (hfsm ▸ hsaw)]
        exact mapped_handlePageHashBatch h startPage endPage combined w hw
      | complete =>
        rw [run_apply_complete nowMs hsaw, run_apply_complete nowMs (hfsm ▸ hsaw)]
        exact mapped_handleComplete h w hw
  · rw [apply_of_not_scans nowMs hscans, apply_of_not_scans nowMs hscans]
    exact SyncFsm.mapped_apply h nowMs hscans

end ScanFsm

/-! ## The session -/

/-- The task over what the map makes of its storage. -/
def SessionTask.mapStorage (f : σ → τ) (task : SessionTask σ) : SessionTask τ where
  world := task.world.mapStorage f
  running := task.running
  closed := task.closed

namespace ScanSession

open SessionTask (sendFailed)

variable [ScanStorage σ] [ScanStorage τ] [Blake3] {I : σ → Prop} {f : σ → τ}
  (h : ScanStorage.Maps I f)
include h

theorem step_map (task : SessionTask σ) (nowMs : Int64) (event : WebsocketEvent)
    (htask : I task.world.storage) :
    step (task.mapStorage f) nowMs event = (step task nowMs event).mapStorage f ∧
      I (step task nowMs event).world.storage := by
  match event with
  | .text | .error | .binary (.error _) => exact ⟨rfl, htask⟩
  | .close =>
    have hclosed : final (SyncFsm.clientClosed.run (task.mapStorage f).world) =
        (final (SyncFsm.clientClosed.run task.world)).mapStorage f ∧
        I (final (SyncFsm.clientClosed.run task.world)).storage := by
      rw [SyncFsm.run_clientClosed, SyncFsm.run_clientClosed, Effect.final_ok, Effect.final_ok]
      have hfsm : (task.mapStorage f).world.fsm = task.world.fsm := rfl
      rw [hfsm]
      split <;> exact ⟨rfl, htask⟩
    refine ⟨?_, hclosed.2⟩
    show ({ task.mapStorage f with world := final (SyncFsm.clientClosed.run _), running := false } :
      SessionTask τ) = _
    rw [hclosed.1]
    rfl
  | .binary (.ok msg) =>
    obtain ⟨hrun, hI⟩ := ScanFsm.mapped_apply h nowMs msg task.world htask
    refine ⟨?_, by rw [step_storage]; exact hI⟩
    have hrun' : (ScanFsm.apply nowMs msg).run (task.mapStorage f).world =
        seen (World.mapStorage f) ((ScanFsm.apply nowMs msg).run task.world) := hrun
    simp only [step, hrun', Effect.final_seen, Effect.fault_seen]
    have hfailed (w : World σ) : sendFailed (task.mapStorage f).world (w.mapStorage f) =
      sendFailed task.world w := rfl
    have hfsm (w : World σ) : (w.mapStorage f).fsm = w.fsm := rfl
    rw [hfailed, hfsm]
    split
    · rfl
    · cases fault ((ScanFsm.apply nowMs msg).run task.world) with
      | some e => rfl
      | none =>
        dsimp only
        split <;> rfl

/-- A session over a storage in order is the session over what the map makes of it. -/
theorem run_map (task : SessionTask σ) (events : List (Int64 × WebsocketEvent))
    (htask : I task.world.storage) :
    run (task.mapStorage f) events = (run task events).mapStorage f ∧
      I (run task events).world.storage := by
  induction events generalizing task with
  | nil => exact ⟨rfl, htask⟩
  | cons event events ih =>
    obtain ⟨nowMs, event⟩ := event
    obtain ⟨hstep, hI⟩ := step_map h task nowMs event htask
    have hrunning : (task.mapStorage f).running = task.running := rfl
    rw [run, run, hrunning, hstep]
    split
    · exact ih _ hI
    · exact ⟨rfl, htask⟩

end ScanSession

end EdgeReplica
