-- SUMMARY: What the FSM's handlers do, one atomic act at a time: every call is a chain of acts.
import Mathlib.Data.Finset.Lattice.Lemmas
import EdgeReplica.Services.SyncFsm

/-!
# The acts of the FSM

`Act msg w w'` is one atomic thing the handler of `msg` does, with the conditions
under which the code does it. `apply_acts` says that a call of `apply`, whether it returns or
fails, is a chain of acts. A property of worlds that every act keeps is therefore
kept by every call.
-/

namespace EdgeReplica

open Effect (Steps final)

/-! ## Pages that were written -/

/-- The pages that were written, in order. -/
def storedBy (history : List Event) : List PageDataEntry :=
  history.filterMap fun
    | .stored p page => some ⟨p, page.data⟩
    | _ => none

@[simp] theorem storedBy_append (h₁ h₂ : List Event) :
    storedBy (h₁ ++ h₂) = storedBy h₁ ++ storedBy h₂ := List.filterMap_append

namespace SyncFsm

variable {σ : Type}

/-! ## Running the primitives -/

@[simp] theorem run_modifyFsm (f : SyncFsm → SyncFsm) (w : World σ) :
    (modifyFsm f).run w = .ok () (w.setFsm f) := rfl

@[simp] theorem run_record (e : Event) (w : World σ) :
    (record e).run w = .ok () (w.record e) := rfl

theorem run_emit (msg : SyncMessage) (w : World σ) :
    (emit msg).run w = match w.sink w.calls with
      | none => .ok () (w.hand msg)
      | some e => .error e (w.hand msg) := rfl

theorem run_onStorage {α : Type} (m : StoreM σ α) (w : World σ) :
    (onStorage m).run w = match m.run w.storage with
      | .ok a storage => .ok a (w.withStorage storage)
      | .error e storage => .error e.toString (w.withStorage storage) := rfl

/-- The gate is open: nothing was emitted, the hash phase is over, and no page
bytes are awaited. -/
def GateOpen (f : SyncFsm) : Prop :=
  f.emittedComplete = false ∧ f.completedHashPhase = true ∧ f.pendingRequests = ∅

instance (f : SyncFsm) : Decidable f.GateOpen := by unfold GateOpen; infer_instance

theorem run_maybeEmitComplete (emit : SyncMessage → FsmM σ Unit) (w : World σ) :
    (maybeEmitComplete emit).run w =
      if w.fsm.GateOpen then
        (emit (.syncComplete w.fsm.pagesTransferred w.fsm.bytesTransferred) >>=
          fun _ => modifyFsm fun f => { f with emittedComplete := true }).run w
      else .ok () w := by
  have hgate : (w.fsm.emittedComplete = true ∨ ¬ w.fsm.completedHashPhase = true ∨
      w.fsm.pendingRequests ≠ ∅) ↔ ¬ w.fsm.GateOpen := by
    unfold GateOpen
    cases w.fsm.emittedComplete <;> cases w.fsm.completedHashPhase <;> simp
  simp only [maybeEmitComplete, EStateM.run_bind, EStateM.run_get, hgate]
  by_cases h : w.fsm.GateOpen
  · simp [h]
  · simp [h]

/-- A closing client makes the machine pass the gate if it is open, and nothing
else. The frame goes to a callback that drops it. -/
theorem run_clientClosed (w : World σ) :
    clientClosed.run w = .ok () (if w.fsm.sawHello = true ∧ w.fsm.GateOpen then
      (w.record (.dropped (.syncComplete w.fsm.pagesTransferred w.fsm.bytesTransferred))).setFsm
        fun f => { f with emittedComplete := true }
      else w) := by
  show clientClosed w = _
  unfold clientClosed
  by_cases hgate : w.fsm.GateOpen
  · by_cases hsaw : w.fsm.sawHello = true
    · simp only [hsaw, hgate.2.2, hgate, run_maybeEmitComplete, and_self, if_true]
      rfl
    · simp [hsaw]
  · split
    · simp [hgate, run_maybeEmitComplete]
    · simp [hgate]

variable [SyncStorage σ]

/-! ## The walk on `Complete` as a plain loop -/

/-- One turn of the walk: send the page if the server has it and the client did
not claim it. -/
def streamPage (pageNo : UInt32) : FsmM σ Unit := do
  match ← onStorage (SyncStorage.getPage pageNo) with
  | some data =>
    if pageNo ∈ (← get).fsm.clientSeen then return ()
    modifyFsm fun f => f.count data.length
    emit (.pageData pageNo data)
  | none => return ()

theorem run_sendUnclaimed (pageNo : UInt32) (data : Bytes) (w : World Unit) :
    (sendUnclaimed pageNo data).run (w, none) =
      if pageNo ∈ w.fsm.clientSeen then .ok () (w, none)
      else
        let w' := (w.setFsm fun f => f.count data.length).hand (.pageData pageNo data)
        match w.sink w.calls with
        | none => .ok () (w', none)
        | some e => .error (.backend "emit aborted") (w', some e) := by
  show sendUnclaimed pageNo data (w, none) = _
  by_cases hmem : pageNo ∈ w.fsm.clientSeen
  · simp only [sendUnclaimed, hmem, if_true]
  · simp only [sendUnclaimed, hmem, if_false, run_emit, World.setFsm_sink, World.setFsm_calls]
    cases w.sink w.calls <;> rfl

/-- What `streamUnclaimed` makes of a result of the walk. -/
private def settle (r : EStateM.Result StoreError (σ × (World Unit × Option String)) Unit) :
    EStateM.Result String (World σ) Unit :=
  let (storage, (w, emitErr)) := final r
  match emitErr with
  | some e => .error e (w.withStorage storage)
  | none =>
    match Effect.fault r with
    | some e => .error e.toString (w.withStorage storage)
    | none => .ok () (w.withStorage storage)

private theorem settle_walk (l : List UInt32) (storage : σ) (w : World Unit) :
    settle ((forM l fun pageNo => do
        match ← Effect.onFst (SyncStorage.getPage pageNo) with
        | some data => Effect.onSnd (sendUnclaimed pageNo data)
        | none => return ()).run (storage, (w, none)))
      = (forM l (streamPage (σ := σ))).run (w.withStorage storage) := by
  induction l generalizing storage w with
  | nil => rfl
  | cons p l ih =>
    simp only [List.forM_cons, EStateM.run_bind, Effect.run_onFst, streamPage, run_onStorage,
      World.withStorage_storage]
    cases (SyncStorage.getPage p).run storage with
    | error e storage' => rfl
    | ok found storage' =>
      cases found with
      | none => exact ih storage' w
      | some data =>
        simp only [Effect.run_onSnd, run_sendUnclaimed, EStateM.run_bind, EStateM.run_get,
          World.withStorage_fsm]
        by_cases hmem : p ∈ w.fsm.clientSeen
        · simp only [hmem, if_true]
          exact ih storage' w
        · simp only [hmem, if_false, EStateM.run_bind, run_modifyFsm, run_emit,
            World.setFsm_sink, World.setFsm_calls, World.withStorage_sink,
            World.withStorage_calls]
          cases w.sink w.calls with
          | some e => rfl
          | none =>
            exact ih storage' ((w.setFsm fun f => f.count data.length).hand (.pageData p data))

/-- The slot that carries a send failure past the walk only serves to return the
failure as it is: the walk is the plain loop that stops at the first error. -/
theorem run_streamUnclaimed (w : World σ) :
    (streamUnclaimed (σ := σ)).run w
      = (forM (pageRange 1 w.fsm.serverMaxPage) (streamPage (σ := σ))).run w :=
  settle_walk (pageRange 1 w.fsm.serverMaxPage) w.storage (w.withStorage ())

/-! ## Acts -/

/-- The storage calls that only read. -/
inductive ReadCall : {α : Type} → StoreM σ α → Prop
  | getPageHash (pageNo : UInt32) : ReadCall (SyncStorage.getPageHash pageNo)
  | getPage (pageNo : UInt32) : ReadCall (SyncStorage.getPage pageNo)
  | maxPage : ReadCall SyncStorage.maxPage

/-- One atomic act of the handler of `msg`. -/
inductive Act [Blake3] (msg : SyncMessage) : World σ → World σ → Prop
  | read {w : World σ} {α : Type} {m : StoreM σ α} (hm : ReadCall m) :
      Act msg w (w.withStorage (final (m.run w.storage)))
  | hello {w : World σ} (hnew : w.fsm.sawHello = false) :
      Act msg w (w.setFsm fun f => { f with sawHello := true })
  | greet {w : World σ} {version pageSize clientMax max : UInt32} (hsaw : w.fsm.sawHello = true)
      (hmsg : msg = .hello version pageSize clientMax) :
      Act msg w ((w.setFsm fun f => { f with serverMaxPage := max }).hand
        (.helloReply HANDSHAKE_VERSION pageSize max))
  | claim {w : World σ} (pages : Finset UInt32) (hsaw : w.fsm.sawHello = true) :
      Act msg w (w.setFsm fun f => { f with clientSeen := pages ∪ f.clientSeen })
  | request {w : World σ} {pageNo : UInt32} {hash : Bytes} (hsaw : w.fsm.sawHello = true)
      (hdir : w.fsm.direction = .push) (hmsg : msg = .pageHash pageNo hash) :
      Act msg w ((w.setFsm fun f =>
        { f with pendingRequests := insert pageNo f.pendingRequests }).hand (.requestPage pageNo))
  | serve {w : World σ} (pageNo : UInt32) (data : Bytes) (hsaw : w.fsm.sawHello = true)
      (hdir : w.fsm.direction = .pull) :
      Act msg w ((w.setFsm fun f => f.count data.length).hand (.pageData pageNo data))
  | mismatch {w : World σ} {startPage endPage : UInt32} {combinedHash : Bytes}
      (hsaw : w.fsm.sawHello = true) (hmsg : msg = .pageHashBatch startPage endPage combinedHash) :
      Act msg w (w.hand (.hashMismatchBatch (pageRange startPage endPage)))
  | take {w : World σ} {pageNo : UInt32} {data : Bytes} (hsaw : w.fsm.sawHello = true)
      (hmsg : ⟨pageNo, data⟩ ∈ msg.entries) :
      Act msg w ((w.record (.pageData pageNo data)).setFsm fun f =>
        { f with pendingRequests := f.pendingRequests.erase pageNo })
  | put {w : World σ} {pageNo : UInt32} {data : Bytes} {nowMs : Int64} {storage : σ}
      (hmsg : ⟨pageNo, data⟩ ∈ msg.entries)
      (hput : (SyncStorage.putPage pageNo data (pageHash data) nowMs).run w.storage
        = .ok () storage) :
      Act msg w (((w.withStorage storage).record (.stored pageNo ⟨data, pageHash data⟩)).setFsm
        fun f => f.count data.length)
  | putFailed {w : World σ} {pageNo : UInt32} {data : Bytes} {nowMs : Int64} {storage : σ}
      {e : StoreError}
      (hput : (SyncStorage.putPage pageNo data (pageHash data) nowMs).run w.storage
        = .error e storage) :
      Act msg w (w.withStorage storage)
  | complete {w : World σ} (hsaw : w.fsm.sawHello = true) (hmsg : msg = .complete) :
      Act msg w ((w.record .complete).setFsm fun f => { f with completedHashPhase := true })
  | finish {w : World σ} (hgate : w.fsm.GateOpen) (hans : w.sink w.calls = none) :
      Act msg w ((w.hand (.syncComplete w.fsm.pagesTransferred w.fsm.bytesTransferred)).setFsm
        fun f => { f with emittedComplete := true })
  | refused {w : World σ} (hgate : w.fsm.GateOpen) (hans : w.sink w.calls ≠ none) :
      Act msg w (w.hand (.syncComplete w.fsm.pagesTransferred w.fsm.bytesTransferred))

variable [Blake3] {msg : SyncMessage}

theorem Act.sawHello {w w' : World σ} (h : Act msg w w') (hsaw : w.fsm.sawHello = true) :
    w'.fsm.sawHello = true := by
  cases h <;> simp [hsaw]

theorem Act.direction {w w' : World σ} (h : Act msg w w') : w'.fsm.direction = w.fsm.direction := by
  cases h <;> rfl

theorem Act.sink {w w' : World σ} (h : Act msg w w') : w'.sink = w.sink := by
  cases h <;> rfl

/-! ## Handlers are chains of acts -/

theorem onStorage_acts {α : Type} {m : StoreM σ α} (hm : ReadCall m) (w : World σ) :
    Steps (Act msg) w (onStorage m) := by
  have hfinal : final ((onStorage m).run w) = w.withStorage (final (m.run w.storage)) := by
    rw [run_onStorage]
    cases m.run w.storage <;> rfl
  unfold Steps
  rw [hfinal]
  exact .single (.read hm)

omit [SyncStorage σ] [Blake3] in
theorem final_emit (msg : SyncMessage) (w : World σ) :
    final ((emit msg).run w) = w.hand msg := by
  rw [run_emit]
  cases w.sink w.calls <;> rfl

theorem maybeEmitComplete_acts (w : World σ) : Steps (Act msg) w (maybeEmitComplete emit) := by
  unfold Steps
  rw [run_maybeEmitComplete]
  by_cases hgate : w.fsm.GateOpen
  · simp only [hgate, if_true, EStateM.run_bind, run_emit]
    cases hans : w.sink w.calls with
    | none => exact .single (.finish hgate hans)
    | some e => exact .single (.refused hgate (by simp [hans]))
  · simp only [hgate, if_false]
    exact .refl

omit [SyncStorage σ] [Blake3] in
theorem onStorage_ok {α : Type} {m : StoreM σ α} {w w' : World σ} {a : α}
    (h : (onStorage m).run w = .ok a w') :
    ∃ storage, m.run w.storage = .ok a storage ∧ w' = w.withStorage storage := by
  rw [run_onStorage] at h
  split at h
  · obtain ⟨rfl, rfl⟩ : _ ∧ _ := by simpa using h
    exact ⟨_, ‹_›, rfl⟩
  · simp at h

theorem handleHello_acts (protocolVersion pageSize maxPage : UInt32) {w : World σ}
    (hnew : w.fsm.sawHello = false) :
    Steps (Act (.hello protocolVersion pageSize maxPage)) w
      (handleHello protocolVersion pageSize) := by
  unfold handleHello
  split
  · exact Steps.throw _
  · refine Steps.bind (Steps.modify (.hello hnew)) fun _ w₁ h₁ => ?_
    obtain rfl : w.setFsm _ = w₁ := by simpa using h₁
    refine Steps.bind (onStorage_acts .maxPage _) fun max w₂ h₂ => ?_
    obtain ⟨storage, -, rfl⟩ := onStorage_ok h₂
    unfold Steps
    simp only [EStateM.run_bind, run_modifyFsm, final_emit]
    exact .single (.greet rfl rfl)

theorem handlePageHash_acts (pageNo : UInt32) (hash : Bytes) {w : World σ}
    (hsaw : w.fsm.sawHello = true) :
    Steps (Act (.pageHash pageNo hash)) w (handlePageHash pageNo hash) := by
  have hclaim : Act (.pageHash pageNo hash) w
      (w.setFsm fun f => { f with clientSeen := insert pageNo f.clientSeen }) := by
    simpa only [Finset.insert_eq] using Act.claim {pageNo} hsaw
  unfold handlePageHash
  refine Steps.bind (Steps.modify hclaim) fun _ w₁ h₁ => ?_
  obtain rfl : w.setFsm _ = w₁ := by simpa using h₁
  refine Steps.bind (onStorage_acts (.getPageHash pageNo) _) fun stored w₂ h₂ => ?_
  obtain ⟨storage, -, rfl⟩ := onStorage_ok h₂
  split
  · exact Steps.pure _
  · refine Steps.get_bind ?_
    split
    · next hdir =>
      unfold Steps
      simp only [EStateM.run_bind, run_modifyFsm, final_emit]
      exact .single (.request hsaw hdir rfl)
    · next hdir =>
      refine Steps.bind (onStorage_acts (.getPage pageNo) _) fun found w₃ h₃ => ?_
      obtain ⟨storage', -, rfl⟩ := onStorage_ok h₃
      split
      · next data =>
        unfold Steps
        simp only [EStateM.run_bind, run_modifyFsm, final_emit]
        exact .single (.serve pageNo data hsaw hdir)
      · exact Steps.pure _

omit [SyncStorage σ] [Blake3] in
theorem onStorage_bind {α β : Type} (m : StoreM σ α) (f : α → StoreM σ β) :
    onStorage (m >>= f) = onStorage m >>= fun a => onStorage (f a) := by
  funext w
  show (onStorage (m >>= f)).run w = (onStorage m >>= fun a => onStorage (f a)).run w
  rw [EStateM.run_bind, run_onStorage, run_onStorage, EStateM.run_bind]
  cases m.run w.storage <;> rfl

/-- The combined hash is a chain of hash reads. -/
theorem combinedHash_acts (startPage endPage : UInt32) (w : World σ) :
    Steps (Act msg) w (onStorage (SyncStorage.combinedHash startPage endPage)) := by
  unfold SyncStorage.combinedHash
  rw [onStorage_bind]
  refine Steps.bind ?_ fun _ _ _ => Steps.pure _
  generalize pageRange startPage endPage = pages
  generalize ([] : Bytes) = hasher
  induction pages generalizing w hasher with
  | nil => exact Steps.pure _
  | cons p pages ih =>
    rw [List.foldlM_cons, onStorage_bind, onStorage_bind]
    refine Steps.bind (Steps.bind (onStorage_acts (.getPageHash p) w) fun stored w₁ _ => ?_)
      fun hasher' w₂ _ => ih w₂ hasher'
    cases stored <;> exact Steps.pure _

theorem handlePageHashBatch_acts (startPage endPage : UInt32) (clientCombined : Bytes)
    {w : World σ} (hsaw : w.fsm.sawHello = true) :
    Steps (Act (.pageHashBatch startPage endPage clientCombined)) w
      (handlePageHashBatch startPage endPage clientCombined) := by
  have hclaim : Act (.pageHashBatch startPage endPage clientCombined) w (w.setFsm fun f =>
      { f with clientSeen := f.clientSeen ∪ (pageRange startPage endPage).toFinset }) := by
    simpa only [Finset.union_comm] using Act.claim (pageRange startPage endPage).toFinset hsaw
  unfold handlePageHashBatch
  refine Steps.bind (Steps.modify hclaim) fun _ w₁ h₁ => ?_
  obtain rfl : w.setFsm _ = w₁ := by simpa using h₁
  refine Steps.bind (combinedHash_acts startPage endPage _) fun stored w₂ h₂ => ?_
  obtain ⟨storage, -, rfl⟩ := onStorage_ok h₂
  split
  · exact Steps.pure _
  · unfold Steps
    rw [final_emit]
    exact .single (.mismatch hsaw rfl)

theorem handlePageData_acts (nowMs : Int64) {pageNo : UInt32} {data : Bytes} {w : World σ}
    (hsaw : w.fsm.sawHello = true) (hmsg : ⟨pageNo, data⟩ ∈ msg.entries) :
    Steps (Act msg) w (handlePageData nowMs pageNo data) := by
  have htake := Act.take hsaw hmsg
  unfold Steps handlePageData
  simp only [EStateM.run_bind, run_record, run_modifyFsm, run_onStorage]
  refine .head htake ?_
  cases hput : (SyncStorage.putPage pageNo data (pageHash data) nowMs).run w.storage with
  | error e storage =>
    simp only [World.setFsm_storage, World.record_storage, hput]
    exact .single (.putFailed hput)
  | ok _ storage =>
    simp only [World.setFsm_storage, World.record_storage, hput]
    exact .head (.put hmsg hput) (maybeEmitComplete_acts _)

theorem streamUnclaimed_acts {w : World σ} (hsaw : w.fsm.sawHello = true)
    (hdir : w.fsm.direction = .pull) : Steps (Act msg) w streamUnclaimed := by
  unfold Steps
  rw [run_streamUnclaimed]
  refine Steps.forM (I := fun w => w.fsm.sawHello = true ∧ w.fsm.direction = .pull)
    ⟨hsaw, hdir⟩ ?_ fun w w' h hI => ⟨h.sawHello hI.1, h.direction.trans hI.2⟩
  intro pageNo _ w hI
  refine Steps.bind (onStorage_acts (.getPage pageNo) w) fun found w₁ h₁ => ?_
  obtain ⟨storage, -, rfl⟩ := onStorage_ok h₁
  split
  · next data =>
    refine Steps.get_bind ?_
    split
    · exact Steps.pure _
    · unfold Steps
      simp only [EStateM.run_bind, run_modifyFsm, final_emit]
      exact .single (.serve pageNo data hI.1 hI.2)
  · exact Steps.pure _

theorem handleComplete_acts {w : World σ} (hsaw : w.fsm.sawHello = true) :
    Steps (Act .complete) w handleComplete := by
  have hcomplete := Act.complete hsaw rfl
  unfold Steps handleComplete
  simp only [EStateM.run_bind, run_record, run_modifyFsm, EStateM.run_get]
  refine .head hcomplete ?_
  split
  · next hwalk =>
    exact Steps.bind (streamUnclaimed_acts hsaw hwalk.1) fun _ w' _ => maybeEmitComplete_acts w'
  · exact maybeEmitComplete_acts _

/-- A call of `apply` is a chain of acts for its message, also when it fails. -/
theorem apply_acts (nowMs : Int64) (msg : SyncMessage) (w : World σ) :
    Steps (Act msg) w (apply nowMs msg) := by
  unfold apply
  refine Steps.get_bind ?_
  split
  · next hsaw =>
    split
    case h_1 => exact Steps.throw _
    case h_2 pageNo hash => exact handlePageHash_acts pageNo hash hsaw
    case h_3 s e ch => exact handlePageHashBatch_acts s e ch hsaw
    case h_4 pageNo data => exact handlePageData_acts nowMs hsaw List.mem_cons_self
    case h_5 pages =>
      exact Steps.forM (I := fun w => w.fsm.sawHello = true) hsaw
        (fun entry hmem w h => handlePageData_acts nowMs h hmem) fun _ _ h => h.sawHello
    case h_6 => exact handleComplete_acts hsaw
    all_goals exact Steps.throw _
  · next hnew =>
    split
    · exact handleHello_acts _ _ _ (by simpa using hnew)
    · exact Steps.throw _

end SyncFsm

end EdgeReplica
