-- SUMMARY: The machine and its session over a storage with range scans of its own.
import EdgeReplica.Worker.DoSyncWs

/-!
# Sessions over scans

The storage trait provides the combined hash and the walk over a range as loops over its
other methods; a back end may override both. The machine here calls these two where a
frame asks for them, and is the plain machine in everything else.
-/

namespace EdgeReplica

open Effect (Spec final fault)

/-- The trait `SyncStorage` with its provided methods. -/
class ScanStorage (σ : Type) extends SyncStorage σ where
  combinedHash [Blake3] (start stop : UInt32) : StoreM σ Bytes :=
    SyncStorage.combinedHash start stop
  iterPagesInRange {τ : Type} (start stop : UInt32)
    (emit : UInt32 → Bytes → EStateM StoreError τ Unit) : EStateM StoreError (σ × τ) Unit :=
    SyncStorage.iterPagesInRange start stop emit

instance : ScanStorage InMemorySyncStorage where

instance : ScanStorage (Faulty InMemorySyncStorage) where

namespace SyncFsm

variable {σ : Type}

/-- A computation that keeps `I`, whether it returns or fails. -/
def Keeps {α : Type} (I : World σ → Prop) (m : FsmM σ α) : Prop :=
  Spec I m (fun _ => I) (fun _ => I)

section

variable {I : World σ → Prop} {α β : Type}

theorem Keeps.bind {m : FsmM σ α} {f : α → FsmM σ β} (hm : Keeps I m) (hf : ∀ a, Keeps I (f a)) :
    Keeps I (m >>= f) := Spec.bind hm hf

theorem Keeps.pure (a : α) : Keeps I (pure a : FsmM σ α) := Spec.pure fun _ => id

theorem Keeps.throw (e : String) : Keeps I (throw e : FsmM σ α) := Spec.throw fun _ => id

theorem Keeps.get_bind {f : World σ → FsmM σ α} (hf : ∀ w, Keeps I (f w)) :
    Keeps I (get >>= f) := fun w => hf w w

theorem Keeps.forM {l : List β} {f : β → FsmM σ Unit} (h : ∀ b ∈ l, Keeps I (f b)) :
    Keeps I (forM l f) := by
  induction l with
  | nil => exact Keeps.pure _
  | cons b l ih =>
    obtain ⟨hb, hl⟩ := List.forall_mem_cons.mp h
    rw [List.forM_cons]
    exact Keeps.bind hb fun _ => ih hl

theorem Keeps.final {m : FsmM σ α} (hm : Keeps I m) {w : World σ} (hw : I w) :
    I (final (m.run w)) := by
  have h := hm w hw
  cases hr : m.run w <;> (rw [hr] at h; exact h)

theorem Keeps.of_final {m : FsmM σ α} (h : ∀ w, I w → I (Effect.final (m.run w))) :
    Keeps I m := by
  intro w hw
  have hfinal := h w hw
  cases hr : m.run w <;> (rw [hr] at hfinal; exact hfinal)

end

end SyncFsm

/-! ## The machine -/

namespace ScanFsm

open SyncFsm (Keeps modifyFsm onStorage emit record maybeEmitComplete sendUnclaimed)

variable {σ : Type} [ScanStorage σ]

def handlePageHashBatch [Blake3] (startPage endPage : UInt32) (clientCombined : Bytes) :
    FsmM σ Unit := do
  modifyFsm fun f => { f with clientSeen := f.clientSeen ∪ (pageRange startPage endPage).toFinset }
  let stored ← onStorage (ScanStorage.combinedHash startPage endPage)
  if stored = clientCombined then
    return ()
  emit (.hashMismatchBatch (pageRange startPage endPage))

def streamUnclaimed : FsmM σ Unit := fun w =>
  let start : σ × (World Unit × Option String) := (w.storage, (w.withStorage (), none))
  let result := (ScanStorage.iterPagesInRange 1 w.fsm.serverMaxPage sendUnclaimed).run start
  let (storage, (w, emitErr)) := final result
  match emitErr with
  | some e => .error e (w.withStorage storage)
  | none =>
    match fault result with
    | some e => .error e.toString (w.withStorage storage)
    | none => .ok () (w.withStorage storage)

def handleComplete : FsmM σ Unit := do
  record .complete
  modifyFsm fun f => { f with completedHashPhase := true }
  let f := (← get).fsm
  if f.direction = .pull ∧ 0 < f.serverMaxPage then
    streamUnclaimed
  maybeEmitComplete emit

variable [Blake3]

/-- Drive one inbound message through the machine. -/
def apply (nowMs : Int64) (msg : SyncMessage) : FsmM σ Unit := do
  if (← get).fsm.sawHello then
    match msg with
    | .pageHashBatch startPage endPage combinedHash =>
      handlePageHashBatch startPage endPage combinedHash
    | .complete => handleComplete
    | msg => SyncFsm.apply nowMs msg
  else
    SyncFsm.apply nowMs msg

/-- The frames that reach a scan. -/
inductive Scans : SyncMessage → Prop
  | batch (startPage endPage : UInt32) (combined : Bytes) :
    Scans (.pageHashBatch startPage endPage combined)
  | complete : Scans .complete

/-- Before the handshake they do not. -/
theorem run_apply_early (nowMs : Int64) (msg : SyncMessage) {w : World σ}
    (hsaw : w.fsm.sawHello = false) :
    (apply nowMs msg).run w = (SyncFsm.apply nowMs msg).run w := by
  show (if w.fsm.sawHello then _ else SyncFsm.apply nowMs msg).run w = _
  rw [hsaw]
  rfl

theorem apply_of_not_scans (nowMs : Int64) {msg : SyncMessage} (h : ¬ Scans msg) :
    (apply nowMs msg : FsmM σ Unit) = SyncFsm.apply nowMs msg := by
  funext w
  cases hsaw : w.fsm.sawHello with
  | false => exact run_apply_early nowMs msg hsaw
  | true =>
    show (if w.fsm.sawHello then _ else SyncFsm.apply nowMs msg).run w = _
    rw [hsaw]
    cases msg with
    | pageHashBatch startPage endPage combined => exact absurd (.batch _ _ _) h
    | complete => exact absurd .complete h
    | _ => rfl

theorem run_apply_batch (nowMs : Int64) (startPage endPage : UInt32) (combined : Bytes)
    {w : World σ} (hsaw : w.fsm.sawHello = true) :
    (apply nowMs (.pageHashBatch startPage endPage combined)).run w =
      (handlePageHashBatch startPage endPage combined).run w := by
  show EStateM.run (if w.fsm.sawHello then handlePageHashBatch startPage endPage combined
    else SyncFsm.apply nowMs _) w = _
  rw [if_pos hsaw]

theorem run_apply_complete (nowMs : Int64) {w : World σ} (hsaw : w.fsm.sawHello = true) :
    (apply nowMs .complete).run w = (handleComplete : FsmM σ Unit).run w := by
  show EStateM.run (if w.fsm.sawHello then handleComplete else SyncFsm.apply nowMs _) w = _
  rw [if_pos hsaw]

/-- Before the handshake a scan is refused. -/
theorem run_apply_unasked (nowMs : Int64) {msg : SyncMessage} (hscans : Scans msg) {w : World σ}
    (hsaw : w.fsm.sawHello = false) :
    (apply nowMs msg).run w = .error "first message must be Hello" w := by
  rw [run_apply_early nowMs msg hsaw]
  show EStateM.run (if w.fsm.sawHello then _ else _) w = _
  rw [hsaw]
  cases hscans <;> rfl

/-- Scans that do what the loops do leave the machine as it is. -/
theorem apply_eq
    (hhash : ∀ start stop, ScanStorage.combinedHash (σ := σ) start stop =
      SyncStorage.combinedHash start stop)
    (hiter : ∀ start stop, ScanStorage.iterPagesInRange (σ := σ) start stop sendUnclaimed =
      SyncStorage.iterPagesInRange start stop sendUnclaimed) (nowMs : Int64) (msg : SyncMessage) :
    (apply nowMs msg : FsmM σ Unit) = SyncFsm.apply nowMs msg := by
  by_cases hscans : Scans msg
  · funext w
    cases hsaw : w.fsm.sawHello with
    | false => exact run_apply_early nowMs msg hsaw
    | true =>
      cases hscans with
      | batch startPage endPage combined =>
        refine (run_apply_batch nowMs startPage endPage combined hsaw).trans ?_
        show _ = EStateM.run (if w.fsm.sawHello then
          SyncFsm.handlePageHashBatch startPage endPage combined else _) w
        rw [if_pos hsaw, handlePageHashBatch, hhash]
        rfl
      | complete =>
        have hstream : (streamUnclaimed : FsmM σ Unit) = SyncFsm.streamUnclaimed := by
          funext w
          have hscan := hiter 1 w.fsm.serverMaxPage
          unfold streamUnclaimed SyncFsm.streamUnclaimed
          generalize ScanStorage.iterPagesInRange (σ := σ) 1 w.fsm.serverMaxPage sendUnclaimed =
            scan at hscan ⊢
          subst hscan
          rfl
        refine (run_apply_complete nowMs hsaw).trans ?_
        show _ = EStateM.run (if w.fsm.sawHello then SyncFsm.handleComplete else _) w
        rw [if_pos hsaw]
        unfold handleComplete SyncFsm.handleComplete
        rw [hstream]
  · exact apply_of_not_scans nowMs hscans

/-! ## What the calls do to the storage -/

omit [Blake3] in
/-- The store and the callback's state that the walk leaves. -/
def walked (w : World σ) : σ × (World Unit × Option String) :=
  final ((ScanStorage.iterPagesInRange 1 w.fsm.serverMaxPage sendUnclaimed).run
    (w.storage, (w.withStorage (), none)))

omit [Blake3] in
/-- The world that the callbacks leave goes over the store that the walk leaves. -/
theorem final_streamUnclaimed (w : World σ) :
    final (streamUnclaimed.run w) = (walked w).2.1.withStorage (walked w).1 := by
  let result := (ScanStorage.iterPagesInRange 1 w.fsm.serverMaxPage sendUnclaimed).run
    (w.storage, (w.withStorage (), none))
  show final (match (walked w).2.2 with
    | some e => .error e ((walked w).2.1.withStorage (walked w).1)
    | none => match fault result with
      | some e => .error e.toString ((walked w).2.1.withStorage (walked w).1)
      | none => .ok () ((walked w).2.1.withStorage (walked w).1)) = _
  split
  · rfl
  · split <;> rfl

/-- Scans that keep `I` of the storage. -/
structure ScansKeep (I : σ → Prop) : Prop where
  combinedHash [Blake3] (start stop : UInt32) {s : σ} :
    I s → I (final ((ScanStorage.combinedHash start stop).run s))
  iterPagesInRange {τ : Type} (start stop : UInt32)
    (emit : UInt32 → Bytes → EStateM StoreError τ Unit) (t : τ) {s : σ} :
    I s → I (final ((ScanStorage.iterPagesInRange start stop emit).run (s, t))).1

variable {I : σ → Prop}

omit [ScanStorage σ] [Blake3] in
theorem keeps_onStorage {α : Type} {m : StoreM σ α} (hm : ∀ s, I s → I (final (m.run s))) :
    Keeps (fun w => I w.storage) (onStorage m) := by
  refine Keeps.of_final fun w h => ?_
  have hfinal := hm w.storage h
  rw [SyncFsm.run_onStorage]
  cases hr : m.run w.storage <;> (rw [hr] at hfinal; exact hfinal)

omit [ScanStorage σ] [Blake3] in
theorem keeps_emit (msg : SyncMessage) : Keeps (fun w : World σ => I w.storage) (emit msg) := by
  refine Keeps.of_final fun w h => ?_
  rwa [SyncFsm.final_emit]

theorem apply_keeps (hI : ScansKeep I) (nowMs : Int64) {msg : SyncMessage} (hscans : Scans msg)
    {w : World σ} (hw : I w.storage) : I (final ((apply nowMs msg).run w)).storage := by
  cases hsaw : w.fsm.sawHello with
  | false =>
    rw [run_apply_unasked nowMs hscans hsaw]
    exact hw
  | true =>
    cases hscans with
    | batch startPage endPage combined =>
      rw [run_apply_batch nowMs startPage endPage combined hsaw]
      refine Keeps.final (I := fun w => I w.storage) ?_ hw
      refine Keeps.bind (Keeps.of_final fun _ h => h) fun _ => ?_
      refine Keeps.bind (keeps_onStorage fun _ h => hI.combinedHash startPage endPage h)
        fun stored => ?_
      split
      · exact Keeps.pure _
      · exact keeps_emit _
    | complete =>
      have hgate : Keeps (fun w : World σ => I w.storage) (maybeEmitComplete emit) := by
        refine Keeps.get_bind fun w => ?_
        dsimp only
        split
        · exact Keeps.pure _
        · exact Keeps.bind (keeps_emit _) fun _ => Keeps.of_final fun _ h => h
      rw [run_apply_complete nowMs hsaw]
      refine Keeps.final (I := fun w => I w.storage) ?_ hw
      refine Keeps.bind (Keeps.of_final fun _ h => h) fun _ => ?_
      refine Keeps.bind (Keeps.of_final fun _ h => h) fun _ => ?_
      refine Keeps.get_bind fun w => ?_
      dsimp only
      split
      · refine Keeps.bind (Keeps.of_final fun w h => ?_) fun _ => hgate
        rw [final_streamUnclaimed]
        exact hI.iterPagesInRange 1 w.fsm.serverMaxPage sendUnclaimed (w.withStorage (), none) h
      · exact hgate

/-- Storage calls that keep `I`. -/
structure StorageKeeps (I : σ → Prop) : Prop extends ScansKeep I where
  read {α : Type} {m : StoreM σ α} (hm : SyncFsm.ReadCall m) {s : σ} : I s → I (final (m.run s))
  put (pageNo : UInt32) (data hash : Bytes) (nowMs : Int64) {s : σ} :
    I s → I (final ((SyncStorage.putPage pageNo data hash nowMs).run s))

theorem apply_keeps_storage (hI : StorageKeeps I) (nowMs : Int64) (msg : SyncMessage) {w : World σ}
    (hw : I w.storage) : I (final ((apply nowMs msg).run w)).storage := by
  by_cases hscans : Scans msg
  · exact apply_keeps hI.toScansKeep nowMs hscans hw
  · rw [apply_of_not_scans nowMs hscans]
    refine (SyncFsm.apply_acts nowMs msg w).keeps (I := fun w => I w.storage) ?_ hw
    intro w w' hact h
    cases hact with
    | read hm => exact hI.read hm h
    | @put pageNo data nowMs storage _ hput =>
      have hkeep := hI.put pageNo data (pageHash data) nowMs h
      rwa [hput] at hkeep
    | @putFailed pageNo data nowMs storage e hput =>
      have hkeep := hI.put pageNo data (pageHash data) nowMs h
      rwa [hput] at hkeep
    | _ => exact h

end ScanFsm

/-! ## The session -/

namespace ScanSession

open SessionTask (sendFailed sendError)

variable {σ : Type} [ScanStorage σ] [Blake3]

/-- One turn of the event loop. -/
def step (task : SessionTask σ) (nowMs : Int64) : WebsocketEvent → SessionTask σ
  | .binary (.ok msg) =>
    let result := (ScanFsm.apply nowMs msg).run task.world
    let w := final result
    if sendFailed task.world w then { task with world := w, running := false }
    else
      match fault result with
      | none =>
        if w.fsm.done then
          { world := w, running := false, closed := some (1000, "sync complete") }
        else { task with world := w }
      | some e =>
        { world := sendError w e, running := false, closed := some (1011, "server error") }
  | event => task.step nowMs event

def run (task : SessionTask σ) : List (Int64 × WebsocketEvent) → SessionTask σ
  | [] => task
  | (nowMs, event) :: events => if task.running then run (step task nowMs event) events else task

/-- A frame that reaches no scan makes the turn of the plain session. -/
theorem step_of_not_scans (task : SessionTask σ) (nowMs : Int64) {msg : SyncMessage}
    (h : ¬ ScanFsm.Scans msg) :
    step task nowMs (.binary (.ok msg)) = task.step nowMs (.binary (.ok msg)) := by
  simp only [step, ScanFsm.apply_of_not_scans nowMs h]
  rfl

/-- A machine that does frame by frame what the plain one does makes the same session. -/
theorem step_eq
    (happly : ∀ nowMs msg, (ScanFsm.apply nowMs msg : FsmM σ Unit) = SyncFsm.apply nowMs msg)
    (task : SessionTask σ) (nowMs : Int64) (event : WebsocketEvent) :
    step task nowMs event = task.step nowMs event := by
  cases event with
  | binary frame =>
    cases frame with
    | error e => rfl
    | ok msg =>
      simp only [step, happly]
      rfl
  | text => rfl
  | close => rfl
  | error => rfl

theorem run_eq
    (happly : ∀ nowMs msg, (ScanFsm.apply nowMs msg : FsmM σ Unit) = SyncFsm.apply nowMs msg)
    (events : List (Int64 × WebsocketEvent)) (task : SessionTask σ) :
    run task events = task.run events := by
  induction events generalizing task with
  | nil => rfl
  | cons event events ih =>
    obtain ⟨nowMs, event⟩ := event
    rw [run, SessionTask.run, step_eq happly, ih]

/-- A turn leaves the storage that its call of the machine leaves. -/
theorem step_storage (task : SessionTask σ) (nowMs : Int64) (msg : SyncMessage) :
    (step task nowMs (.binary (.ok msg))).world.storage =
      (final ((ScanFsm.apply nowMs msg).run task.world)).storage := by
  simp only [step]
  split
  · rfl
  · split
    · split <;> rfl
    · rfl

theorem step_keeps_storage {I : σ → Prop} (hI : ScanFsm.StorageKeeps I) (nowMs : Int64)
    (event : WebsocketEvent) {task : SessionTask σ} (h : I task.world.storage) :
    I (step task nowMs event).world.storage := by
  match event with
  | .text | .error | .binary (.error _) => exact h
  | .close =>
    show I (final (SyncFsm.clientClosed.run task.world)).storage
    rw [SyncFsm.run_clientClosed, Effect.final_ok]
    split <;> exact h
  | .binary (.ok msg) =>
    rw [step_storage]
    exact ScanFsm.apply_keeps_storage hI nowMs msg h

end ScanSession

end EdgeReplica
