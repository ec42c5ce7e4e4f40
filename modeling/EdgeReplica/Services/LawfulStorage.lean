-- SUMMARY: Storages whose calls succeed, whatever they are made of: sessions over them are sessions over the in-memory one.
import EdgeReplica.Lib.Simulation
import EdgeReplica.Services.AcceptedRuns
import EdgeReplica.Worker.DoSyncWs

/-!
# Lawful storages

A storage whose calls all succeed and do what the trait says holds some pages,
whatever else is in its state. Seen through these pages every call is the call of
the in-memory storage, and with it every handler, every run of the machine and
every session. What holds over the in-memory storage therefore holds over them.
-/

namespace EdgeReplica

open Effect (Refines seen final fault)

/-- A storage whose calls succeed, with the pages it holds. -/
class LawfulStorage (σ : Type) extends SyncStorage σ where
  pages : σ → Pages
  getPageHash_refines (pageNo : UInt32) :
    Refines pages (getPageHash pageNo) (InMemorySyncStorage.getPageHash pageNo)
  getPage_refines (pageNo : UInt32) :
    Refines pages (getPage pageNo) (InMemorySyncStorage.getPage pageNo)
  putPage_refines (pageNo : UInt32) (data hash : Bytes) (nowMs : Int64) :
    Refines pages (putPage pageNo data hash nowMs)
      (InMemorySyncStorage.putPage pageNo data hash nowMs)
  maxPage_refines : Refines pages maxPage InMemorySyncStorage.maxPage

/-- Nothing refines a call better than itself. -/
theorem refines_id {ε σ α : Type} (m : EStateM ε σ α) : Refines id m m := by
  intro s
  show m.run s = _
  cases m.run s <;> rfl

instance : LawfulStorage InMemorySyncStorage where
  pages := id
  getPageHash_refines _ := refines_id _
  getPage_refines _ := refines_id _
  putPage_refines _ _ _ _ := refines_id _
  maxPage_refines := refines_id _

variable {σ : Type} [LawfulStorage σ]

/-! ## Provided methods -/

namespace SyncStorage

theorem combinedHash_refines [Blake3] (start stop : UInt32) :
    Refines (LawfulStorage.pages (σ := σ)) (combinedHash start stop) (combinedHash start stop) := by
  refine Refines.bind (Refines.foldlM ?_ _) fun _ => Refines.pure _
  intro hasher pageNo
  refine Refines.bind (LawfulStorage.getPageHash_refines pageNo) fun found => ?_
  cases found with
  | some h => exact Refines.pure _
  | none => exact Refines.pure _

end SyncStorage

/-! ## The machine -/

/-- The world over the pages that its storage holds. -/
def World.view (w : World σ) : World InMemorySyncStorage :=
  w.withStorage (LawfulStorage.pages w.storage)

@[simp] theorem World.view_fsm (w : World σ) : w.view.fsm = w.fsm := rfl
@[simp] theorem World.view_history (w : World σ) : w.view.history = w.history := rfl
@[simp] theorem World.view_storage (w : World σ) :
    w.view.storage = LawfulStorage.pages w.storage := rfl

namespace SyncFsm

theorem onStorage_refines {α : Type} {m : StoreM σ α} {m' : StoreM InMemorySyncStorage α}
    (h : Refines LawfulStorage.pages m m') :
    Refines World.view (onStorage m) (onStorage m') := by
  intro w
  have hstore : m'.run w.view.storage = seen LawfulStorage.pages (m.run w.storage) := h w.storage
  rw [run_onStorage, run_onStorage, hstore]
  cases m.run w.storage <;> rfl

theorem modifyFsm_refines (f : SyncFsm → SyncFsm) :
    Refines (World.view (σ := σ)) (modifyFsm f) (modifyFsm f) := Refines.modify fun _ => rfl

theorem record_refines (e : Event) : Refines (World.view (σ := σ)) (record e) (record e) :=
  Refines.modify fun _ => rfl

theorem emit_refines (msg : SyncMessage) : Refines (World.view (σ := σ)) (emit msg) (emit msg) := by
  intro w
  have hsink : w.view.sink w.view.calls = w.sink w.calls := rfl
  rw [run_emit, run_emit, hsink]
  cases w.sink w.calls <;> rfl

theorem maybeEmitComplete_refines {emit : SyncMessage → FsmM σ Unit}
    {emit' : SyncMessage → FsmM InMemorySyncStorage Unit}
    (h : ∀ msg, Refines World.view (emit msg) (emit' msg)) :
    Refines World.view (maybeEmitComplete emit) (maybeEmitComplete emit') := by
  refine Refines.get_bind fun w => ?_
  rw [World.view_fsm]
  dsimp only
  split
  · exact Refines.pure _
  · exact Refines.bind (h _) fun _ => modifyFsm_refines _

theorem handleHello_refines (protocolVersion pageSize : UInt32) :
    Refines (World.view (σ := σ)) (handleHello protocolVersion pageSize)
      (handleHello protocolVersion pageSize) := by
  unfold handleHello
  split
  · exact Refines.throw _
  · refine Refines.bind (modifyFsm_refines _) fun _ => ?_
    refine Refines.bind (onStorage_refines LawfulStorage.maxPage_refines) fun max => ?_
    exact Refines.bind (modifyFsm_refines _) fun _ => emit_refines _

theorem handlePageHash_refines (pageNo : UInt32) (hash : Bytes) :
    Refines (World.view (σ := σ)) (handlePageHash pageNo hash) (handlePageHash pageNo hash) := by
  unfold handlePageHash
  refine Refines.bind (modifyFsm_refines _) fun _ => ?_
  refine Refines.bind (onStorage_refines (LawfulStorage.getPageHash_refines pageNo))
    fun stored => ?_
  split
  · exact Refines.pure _
  · refine Refines.get_bind fun w => ?_
    rw [World.view_fsm]
    split
    · exact Refines.bind (modifyFsm_refines _) fun _ => emit_refines _
    · refine Refines.bind (onStorage_refines (LawfulStorage.getPage_refines pageNo)) fun found => ?_
      split
      · exact Refines.bind (modifyFsm_refines _) fun _ => emit_refines _
      · exact Refines.pure _

theorem streamPage_refines (pageNo : UInt32) :
    Refines (World.view (σ := σ)) (streamPage pageNo) (streamPage pageNo) := by
  unfold streamPage
  refine Refines.bind (onStorage_refines (LawfulStorage.getPage_refines pageNo)) fun found => ?_
  split
  · refine Refines.get_bind fun w => ?_
    rw [World.view_fsm]
    split
    · exact Refines.pure _
    · exact Refines.bind (modifyFsm_refines _) fun _ => emit_refines _
  · exact Refines.pure _

theorem streamUnclaimed_refines :
    Refines (World.view (σ := σ)) streamUnclaimed streamUnclaimed := by
  intro w
  rw [run_streamUnclaimed, run_streamUnclaimed, World.view_fsm]
  exact Refines.forM streamPage_refines w

theorem handleComplete_refines :
    Refines (World.view (σ := σ)) handleComplete handleComplete := by
  unfold handleComplete
  refine Refines.bind (record_refines _) fun _ => ?_
  refine Refines.bind (modifyFsm_refines _) fun _ => ?_
  refine Refines.get_bind fun w => ?_
  rw [World.view_fsm]
  dsimp only
  split
  · exact Refines.bind streamUnclaimed_refines fun _ => maybeEmitComplete_refines emit_refines
  · exact maybeEmitComplete_refines emit_refines

variable [Blake3]

theorem handlePageHashBatch_refines (startPage endPage : UInt32) (clientCombined : Bytes) :
    Refines (World.view (σ := σ)) (handlePageHashBatch startPage endPage clientCombined)
      (handlePageHashBatch startPage endPage clientCombined) := by
  unfold handlePageHashBatch
  refine Refines.bind (modifyFsm_refines _) fun _ => ?_
  refine Refines.bind (onStorage_refines (SyncStorage.combinedHash_refines startPage endPage))
    fun stored => ?_
  split
  · exact Refines.pure _
  · exact emit_refines _

theorem handlePageData_refines (nowMs : Int64) (pageNo : UInt32) (data : Bytes) :
    Refines (World.view (σ := σ)) (handlePageData nowMs pageNo data)
      (handlePageData nowMs pageNo data) := by
  unfold handlePageData
  refine Refines.bind (record_refines _) fun _ => ?_
  refine Refines.bind (modifyFsm_refines _) fun _ => ?_
  refine Refines.bind (onStorage_refines (LawfulStorage.putPage_refines _ _ _ _)) fun _ => ?_
  refine Refines.bind (record_refines _) fun _ => ?_
  exact Refines.bind (modifyFsm_refines _) fun _ => maybeEmitComplete_refines emit_refines

/-- A call over a lawful storage is the call over its pages. -/
theorem apply_refines (nowMs : Int64) (msg : SyncMessage) :
    Refines (World.view (σ := σ)) (apply nowMs msg) (apply nowMs msg) := by
  unfold apply
  refine Refines.get_bind fun w => ?_
  rw [World.view_fsm]
  split
  · split
    case h_2 pageNo hash => exact handlePageHash_refines pageNo hash
    case h_3 s e combined => exact handlePageHashBatch_refines s e combined
    case h_4 pageNo data => exact handlePageData_refines nowMs pageNo data
    case h_5 pages => exact Refines.forM fun entry => handlePageData_refines nowMs _ _
    case h_6 => exact handleComplete_refines
    all_goals exact Refines.throw _
  · split
    · exact handleHello_refines _ _
    · exact Refines.throw _

/-- Frames are accepted over a lawful storage as they are over its pages. -/
theorem run_accept_view (frames : List Frame) (w : World σ) :
    Machine.run accept frames w.view = (Machine.run accept frames w).map World.view := by
  refine Machine.run_map (fun frame w => ?_) frames w
  unfold accept
  rw [apply_refines]
  cases (apply frame.1 frame.2).run w <;> rfl

/-- What an accepted run over the pages of a storage comes to, the run over the
storage comes to. -/
theorem exists_run_of_view {frames : List Frame} {w : World σ} {v : World InMemorySyncStorage}
    (h : Machine.run accept frames w.view = some v) :
    ∃ w', Machine.run accept frames w = some w' ∧ w'.view = v :=
  Option.map_eq_some_iff.mp ((run_accept_view frames w).symm.trans h)

end SyncFsm

/-! ## The session -/

namespace SessionTask

variable [Blake3]

/-- The task over the pages that its storage holds. -/
def view (task : SessionTask σ) : SessionTask InMemorySyncStorage where
  world := task.world.view
  running := task.running
  closed := task.closed

omit [Blake3] in
theorem view_clientClosed (w : World σ) :
    final (SyncFsm.clientClosed.run w.view) = (final (SyncFsm.clientClosed.run w)).view := by
  rw [SyncFsm.run_clientClosed, SyncFsm.run_clientClosed, Effect.final_ok, Effect.final_ok,
    World.view_fsm]
  by_cases h : w.fsm.sawHello = true ∧ w.fsm.GateOpen
  · rw [if_pos h, if_pos h]
    rfl
  · rw [if_neg h, if_neg h]

theorem step_view (task : SessionTask σ) (nowMs : Int64) (event : WebsocketEvent) :
    task.view.step nowMs event = (task.step nowMs event).view := by
  cases event with
  | text => rfl
  | close =>
    simp only [step, view]
    rw [view_clientClosed]
  | error => rfl
  | binary frame =>
    cases frame with
    | error e => rfl
    | ok msg =>
      have hrun := SyncFsm.apply_refines nowMs msg task.world
      simp only [step, view, hrun, Effect.final_seen, Effect.fault_seen, World.view_fsm]
      have hfailed : sendFailed task.world.view
          (final ((SyncFsm.apply nowMs msg).run task.world)).view
          = sendFailed task.world (final ((SyncFsm.apply nowMs msg).run task.world)) := rfl
      rw [hfailed]
      split
      · rfl
      · cases fault ((SyncFsm.apply nowMs msg).run task.world) with
        | some e => rfl
        | none =>
          dsimp only
          split <;> rfl

/-- A session over a lawful storage is the session over its pages. -/
theorem run_view (events : List (Int64 × WebsocketEvent)) (task : SessionTask σ) :
    task.view.run events = (task.run events).view := by
  induction events generalizing task with
  | nil => rfl
  | cons event events ih =>
    obtain ⟨nowMs, event⟩ := event
    simp only [run]
    rw [step_view, ih]
    by_cases h : task.running = true
    · simp [view, h]
    · simp [view, h]

omit [Blake3] in
theorem view_spawn (direction : Direction) (storage : σ) (refuses : Nat → Bool) :
    (spawn direction storage refuses).view =
      spawn direction (LawfulStorage.pages storage) refuses := rfl

end SessionTask

end EdgeReplica
