-- SUMMARY: Which pages a call of the machine reads and writes, and that it depends on no other.
import EdgeReplica.Services.InMemoryRuns

/-!
# The footprint of a call

What a call of the machine does to the store is bounded before it runs, by its
message and the fields of the machine: the pages it may read, and those it may
write. Over two stores that agree on these pages a call does the same.
-/

namespace EdgeReplica

open Effect (Alike Twin)

/-! ## Accesses -/

/-- How a call touches the store. -/
inductive Access where
  | none
  /-- It reads the whole table. -/
  | all
  | page (pageNo : UInt32)
  /-- It reads the pages up to `max` that the client has not claimed. -/
  | walk (max : UInt32) (claimed : Finset UInt32)
  | write (pageNos : List UInt32)
deriving DecidableEq

namespace Access

def reads : Access → Set UInt32
  | .none | .write _ => ∅
  | .all => Set.univ
  | .page pageNo => {pageNo}
  | .walk max claimed => { p | p ∈ pageRange 1 max ∧ p ∉ claimed }

/-- The pages it writes, in order. -/
def written : Access → List UInt32
  | .write pageNos => pageNos
  | .none | .all | .page _ | .walk .. => []

def writes (access : Access) : Set UInt32 := { p | p ∈ access.written }

end Access

namespace SyncFsm

/-- The access of the call that takes up `msg`. -/
def access (f : SyncFsm) : SyncMessage → Access
  | .hello .. | .pageHashBatch .. => .all
  | .pageHash pageNo _ => .page pageNo
  | .pageData pageNo _ => .write [pageNo]
  | .pageDataBatch pages => .write (pages.map PageDataEntry.pageNo)
  | .complete =>
    match f.direction with
    | .push => .none
    | .pull => .walk f.serverMaxPage f.clientSeen
  | .helloReply .. | .requestPage .. | .requestPages .. | .hashMismatch ..
  | .hashMismatchBatch .. | .syncComplete .. | .error .. => .none

theorem written_access (f : SyncFsm) (msg : SyncMessage) :
    (f.access msg).written = msg.entries.map PageDataEntry.pageNo := by
  cases msg with
  | complete => rw [access]; cases f.direction <;> rfl
  | _ => rfl

/-! ## Worlds that differ in their storage -/

/-- The worlds are the same but for the storage, which agrees on `cells`. -/
structure Near (cells : Set UInt32) (w w' : World InMemorySyncStorage) : Prop where
  same : w' = w.withStorage w'.storage
  agree : ∀ p ∈ cells, w'.storage[p]? = w.storage[p]?

namespace Near

variable {cells : Set UInt32} {w w' : World InMemorySyncStorage}

theorem fsm_eq (h : Near cells w w') : w'.fsm = w.fsm := by rw [h.same]; rfl

theorem history_eq (h : Near cells w w') : w'.history = w.history := by rw [h.same]; rfl

theorem sink_eq (h : Near cells w w') : w'.sink w'.calls = w.sink w.calls := by rw [h.same]; rfl

theorem setFsm (h : Near cells w w') (f : SyncFsm → SyncFsm) :
    Near cells (w.setFsm f) (w'.setFsm f) := by
  obtain ⟨hsame, hagree⟩ := h
  rw [hsame]
  exact ⟨rfl, hagree⟩

theorem record (h : Near cells w w') (e : Event) : Near cells (w.record e) (w'.record e) := by
  obtain ⟨hsame, hagree⟩ := h
  rw [hsame]
  exact ⟨rfl, hagree⟩

theorem hand (h : Near cells w w') (msg : SyncMessage) : Near cells (w.hand msg) (w'.hand msg) := by
  obtain ⟨hsame, hagree⟩ := h
  rw [hsame]
  exact ⟨rfl, hagree⟩

/-- Stores that agree on every page are one store. -/
theorem eq_of_univ (h : Near Set.univ w w') : w' = w := by
  have hstorage : w'.storage = w.storage :=
    Std.ExtTreeMap.ext_getElem? fun p => h.agree p (Set.mem_univ p)
  rw [h.same, hstorage]
  rfl

end Near

/-- A call over the same store does the same. -/
theorem twin_univ {α : Type} (m : FsmM InMemorySyncStorage α) : Twin (Near Set.univ) m := by
  intro w w' h
  rw [h.eq_of_univ]
  cases m.run w with
  | ok a s => exact ⟨rfl, rfl, fun _ _ => rfl⟩
  | error e s => exact ⟨rfl, rfl, fun _ _ => rfl⟩

/-! ## The parts of the handlers -/

variable {cells : Set UInt32}

theorem twin_modifyFsm (f : SyncFsm → SyncFsm) : Twin (Near cells) (modifyFsm f) :=
  Twin.modify fun _ _ h => h.setFsm f

theorem twin_record (e : Event) : Twin (Near cells) (record e) :=
  Twin.modify fun _ _ h => h.record e

theorem twin_emit (msg : SyncMessage) : Twin (Near cells) (emit msg) := by
  intro w w' h
  rw [run_emit, run_emit, h.sink_eq]
  cases w.sink w.calls with
  | none => exact ⟨rfl, h.hand msg⟩
  | some e => exact ⟨rfl, h.hand msg⟩

theorem twin_maybeEmitComplete : Twin (Near cells) (maybeEmitComplete emit) := by
  intro w w' h
  rw [run_maybeEmitComplete, run_maybeEmitComplete, h.fsm_eq]
  split
  · exact Twin.bind (twin_emit _) (fun _ => twin_modifyFsm _) w w' h
  · exact ⟨rfl, h⟩

theorem twin_clientClosed : Twin (Near cells) clientClosed := by
  intro w w' h
  rw [run_clientClosed, run_clientClosed, h.fsm_eq]
  split
  · exact ⟨rfl, (h.record _).setFsm _⟩
  · exact ⟨rfl, h⟩

theorem twin_putPage (p : UInt32) (data hash : Bytes) (nowMs : Int64) :
    Twin (Near cells) (onStorage (SyncStorage.putPage p data hash nowMs)) := by
  intro w w' h
  rw [run_onStorage, run_onStorage, run_putPage, run_putPage]
  refine ⟨rfl, ?_, fun q hq => ?_⟩
  · rw [h.same]
    rfl
  · show (w'.storage.insert p _)[q]? = (w.storage.insert p _)[q]?
    rw [Std.ExtTreeMap.getElem?_insert, Std.ExtTreeMap.getElem?_insert, h.agree q hq]

/-! ## The handlers -/

theorem twin_handlePageHash {p : UInt32} (hp : p ∈ cells) (hash : Bytes) :
    Twin (Near cells) (handlePageHash p hash) := by
  intro w w' h
  have hclaim := h.setFsm (claim p)
  cases hdir : w.fsm.direction with
  | push =>
    rw [run_handlePageHash_push w p hash hdir,
      run_handlePageHash_push w' p hash (h.fsm_eq ▸ hdir), h.agree p hp]
    split
    · exact ⟨rfl, hclaim⟩
    · exact twin_emit _ _ _ (hclaim.setFsm (await p))
  | pull =>
    rw [run_handlePageHash_pull w p hash hdir,
      run_handlePageHash_pull w' p hash (h.fsm_eq ▸ hdir), h.agree p hp]
    cases w.storage[p]? with
    | none => exact ⟨rfl, hclaim⟩
    | some page =>
      by_cases hhash : page.hash = hash
      · simp only [hhash, if_true]
        exact ⟨rfl, hclaim⟩
      · simp only [hhash, if_false]
        exact twin_emit _ _ _ (hclaim.setFsm _)

theorem twin_handlePageData [Blake3] (nowMs : Int64) (p : UInt32) (data : Bytes) :
    Twin (Near cells) (handlePageData nowMs p data) :=
  Twin.bind (twin_record _) fun _ => Twin.bind (twin_modifyFsm _) fun _ =>
    Twin.bind (twin_putPage p data _ nowMs) fun _ => Twin.bind (twin_record _) fun _ =>
      Twin.bind (twin_modifyFsm _) fun _ => twin_maybeEmitComplete

/-- The walk reads the pages that are not claimed; what it gets of the others it
does not use. -/
theorem twin_streamPage {claimed : Finset UInt32} {p : UInt32} (hp : p ∉ claimed → p ∈ cells) :
    Twin (fun w w' => Near cells w w' ∧ w.fsm.clientSeen = claimed)
      (streamPage (σ := InMemorySyncStorage) p) := by
  rintro w w' ⟨h, hclaimed⟩
  rw [run_streamPage, run_streamPage, h.fsm_eq]
  by_cases hseen : p ∈ claimed
  · rw [hclaimed]
    simp only [hseen, if_true]
    cases w.storage[p]? <;> cases w'.storage[p]? <;> exact ⟨rfl, h, hclaimed⟩
  · rw [h.agree p (hp hseen), hclaimed]
    cases w.storage[p]? with
    | none => exact ⟨rfl, h, hclaimed⟩
    | some page =>
      have hsent := (h.setFsm fun f => f.count page.data.length).hand (.pageData p page.data)
      simp only [hseen, if_false, run_emit, World.setFsm_sink, World.setFsm_calls, h.sink_eq]
      cases w.sink w.calls <;> exact ⟨rfl, hsent, hclaimed⟩

theorem twin_walk {claimed : Finset UInt32} {max : UInt32}
    (hcells : (Access.walk max claimed).reads ⊆ cells) :
    Twin (fun w w' => Near cells w w' ∧ w.fsm.clientSeen = claimed)
      (forM (pageRange 1 max) (streamPage (σ := InMemorySyncStorage))) :=
  Twin.forM fun _ hp => twin_streamPage fun hseen => hcells ⟨hp, hseen⟩

theorem twin_streamUnclaimed {w w' : World InMemorySyncStorage} (h : Near cells w w')
    (hcells : (Access.walk w.fsm.serverMaxPage w.fsm.clientSeen).reads ⊆ cells) :
    Alike (Near cells) (streamUnclaimed.run w) (streamUnclaimed.run w') := by
  rw [run_streamUnclaimed, run_streamUnclaimed, h.fsm_eq]
  exact (twin_walk hcells w w' ⟨h, rfl⟩).imp fun _ _ => And.left

theorem twin_handleComplete {w w' : World InMemorySyncStorage} (h : Near cells w w')
    (hcells : (w.fsm.access .complete).reads ⊆ cells) :
    Alike (Near cells) (handleComplete.run w) (handleComplete.run w') := by
  have hnext := (h.record .complete).setFsm fun f => { f with completedHashPhase := true }
  unfold handleComplete
  simp only [EStateM.run_bind, run_record, run_modifyFsm, EStateM.run_get, hnext.fsm_eq]
  split
  · next hwalk =>
    have hdir : w.fsm.direction = .pull := hwalk.1
    rw [access, hdir] at hcells
    exact Twin.after (twin_streamUnclaimed hnext hcells) fun _ => twin_maybeEmitComplete
  · exact twin_maybeEmitComplete _ _ hnext

variable [Blake3]

/-- Over two stores that agree on the pages it may read, a call does the same. -/
theorem apply_twin (nowMs : Int64) (msg : SyncMessage) {w w' : World InMemorySyncStorage}
    (h : Near cells w w') (hcells : (w.fsm.access msg).reads ⊆ cells) :
    Alike (Near cells) ((apply nowMs msg).run w) ((apply nowMs msg).run w') := by
  have hall (huniv : Set.univ ⊆ cells) :
      Alike (Near cells) ((apply nowMs msg).run w) ((apply nowMs msg).run w') := by
    obtain rfl := Set.univ_subset_iff.mp huniv
    exact twin_univ _ w w' h
  cases hsaw : w.fsm.sawHello with
  | false =>
    cases msg with
    | hello version pageSize clientMax => exact hall hcells
    | _ =>
      simp only [apply, EStateM.run_bind, EStateM.run_get, h.fsm_eq, hsaw]
      exact ⟨rfl, h⟩
  | true =>
    cases msg with
    | hello version pageSize clientMax => exact hall hcells
    | pageHashBatch start stop combined => exact hall hcells
    | pageHash p hash =>
      rw [run_apply_pageHash hsaw, run_apply_pageHash (h.fsm_eq ▸ hsaw)]
      exact twin_handlePageHash (hcells rfl) hash w w' h
    | pageData p data =>
      simp only [apply, EStateM.run_bind, EStateM.run_get, h.fsm_eq, hsaw]
      exact twin_handlePageData nowMs p data w w' h
    | pageDataBatch pages =>
      simp only [apply, EStateM.run_bind, EStateM.run_get, h.fsm_eq, hsaw]
      exact Twin.forM (fun entry _ => twin_handlePageData nowMs entry.pageNo entry.data) w w' h
    | complete =>
      simp only [apply, EStateM.run_bind, EStateM.run_get, h.fsm_eq, hsaw]
      exact twin_handleComplete h hcells
    | _ =>
      simp only [apply, EStateM.run_bind, EStateM.run_get, h.fsm_eq, hsaw]
      exact ⟨rfl, h⟩

end SyncFsm

end EdgeReplica
