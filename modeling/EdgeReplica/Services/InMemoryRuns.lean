-- SUMMARY: The FSM over the in-memory storage: what each handler computes, in closed form.
import EdgeReplica.Services.SyncFsmActs

/-!
# The FSM over the in-memory storage

Every call of the in-memory storage succeeds, so a handler over it is a function
of the machine, the stored pages and what the sink answers. The lemmas here give
that function for each handler.
-/

namespace EdgeReplica

open Effect (final)

/-! ## Writing pages -/

namespace Pages

variable [Blake3]

/-- The store after `put_page` for one page entry. -/
def write (pages : Pages) (entry : PageDataEntry) : Pages :=
  pages.insert entry.pageNo ⟨entry.data, pageHash entry.data⟩

/-- The store after the entries were written over it, in order. -/
def replay (pages : Pages) (entries : List PageDataEntry) : Pages := entries.foldl write pages

variable (pages : Pages)

@[simp] theorem replay_nil : replay pages [] = pages := rfl

theorem replay_cons (entry : PageDataEntry) (entries : List PageDataEntry) :
    replay pages (entry :: entries) = replay (write pages entry) entries := rfl

theorem replay_append (l₁ l₂ : List PageDataEntry) :
    replay pages (l₁ ++ l₂) = replay (replay pages l₁) l₂ := List.foldl_append

theorem getElem?_write (entry : PageDataEntry) (p : UInt32) :
    (write pages entry)[p]? =
      if entry.pageNo = p then some ⟨entry.data, pageHash entry.data⟩ else pages[p]? := by
  unfold write
  rw [Std.ExtTreeMap.getElem?_insert]
  simp only [Std.LawfulEqCmp.compare_eq_iff_eq]

omit [Blake3] in
theorem mem_iff_ne_none {pages : Pages} {p : UInt32} : p ∈ pages ↔ pages[p]? ≠ none := by
  rw [Std.ExtTreeMap.mem_iff_isSome_getElem?, Option.isSome_iff_ne_none]

omit [Blake3] in
/-- The highest page bounds every page. -/
theorem le_maxPage {pages : Pages} {p : UInt32} (h : p ∈ pages) :
    p ≤ pages.keys.getLast?.getD 0 := by
  rw [← Std.ExtTreeMap.maxKey?_eq_getLast?_keys]
  obtain ⟨max, hmax⟩ := Option.isSome_iff_exists.mp (Std.ExtTreeMap.isSome_maxKey?_of_mem h)
  rw [hmax]
  exact Std.isLE_compare.mp
    ((Std.ExtTreeMap.maxKey?_eq_some_iff_mem_and_forall.mp hmax).2 p h)

/-- A page that no entry names keeps its row. -/
theorem getElem?_replay_of_notMem {entries : List PageDataEntry} {p : UInt32}
    (h : p ∉ entries.map PageDataEntry.pageNo) : (replay pages entries)[p]? = pages[p]? := by
  induction entries generalizing pages with
  | nil => rfl
  | cons entry entries ih =>
    obtain ⟨hne, hrest⟩ : p ≠ entry.pageNo ∧ p ∉ entries.map PageDataEntry.pageNo := by
      simpa using h
    rw [replay_cons, ih _ hrest, getElem?_write, if_neg (Ne.symm hne)]

/-- A page named once has the bytes of its entry. -/
theorem getElem?_replay_of_mem {entries : List PageDataEntry} {entry : PageDataEntry}
    (hnodup : (entries.map PageDataEntry.pageNo).Nodup) (h : entry ∈ entries) :
    (replay pages entries)[entry.pageNo]? = some ⟨entry.data, pageHash entry.data⟩ := by
  induction entries generalizing pages with
  | nil => simp at h
  | cons first entries ih =>
    obtain ⟨hfirst, hrest⟩ := List.nodup_cons.mp hnodup
    rw [replay_cons]
    rcases List.mem_cons.mp h with rfl | hmem
    · rw [getElem?_replay_of_notMem _ hfirst, getElem?_write, if_pos rfl]
    · exact ih _ hrest hmem

/-- Every row carries the digest of its bytes. -/
def Hashed (pages : Pages) : Prop :=
  ∀ (p : UInt32) (page : Page), pages[p]? = some page → page.hash = pageHash page.data

theorem Hashed.empty : Hashed (∅ : Pages) := fun p page h => by simp at h

theorem Hashed.write {pages : Pages} (h : Hashed pages) (entry : PageDataEntry) :
    Hashed (write pages entry) := by
  intro p page hp
  rw [getElem?_write] at hp
  split at hp
  · obtain rfl : _ = page := by simpa using hp
    rfl
  · exact h p page hp

theorem Hashed.replay {pages : Pages} (h : Hashed pages) (entries : List PageDataEntry) :
    Hashed (replay pages entries) := by
  induction entries generalizing pages with
  | nil => exact h
  | cons entry entries ih => exact ih (h.write entry)

/-- The digest over the page hashes of a range, as far as the store has the pages. -/
def combinedHash (startPage endPage : UInt32) : Bytes :=
  Blake3.hash ((pageRange startPage endPage).flatMap fun p =>
    ((pages[p]?).map Page.hash).getD [])

theorem run_combinedHash (startPage endPage : UInt32) :
    (SyncStorage.combinedHash startPage endPage : StoreM InMemorySyncStorage Bytes).run pages =
      .ok (combinedHash pages startPage endPage) pages := by
  unfold SyncStorage.combinedHash
  rw [EStateM.run_bind, Effect.run_foldlM_append fun p => ((pages[p]?).map Page.hash).getD []]
  · rfl
  · intro hasher p
    have hcall : (SyncStorage.getPageHash p : StoreM InMemorySyncStorage (Option Bytes)).run pages =
        .ok ((pages[p]?).map Page.hash) pages := rfl
    rw [EStateM.run_bind, hcall]
    cases (pages[p]?).map Page.hash with
    | none =>
      rw [Option.getD_none, List.append_nil]
      rfl
    | some hash => rfl

end Pages

namespace SyncFsm

variable (w : World InMemorySyncStorage)

/-! ## Storage calls -/

section

variable (pages : InMemorySyncStorage) (p : UInt32) (data hash : Bytes) (nowMs : Int64)

theorem run_getPageHash :
    (SyncStorage.getPageHash p : StoreM InMemorySyncStorage _).run pages
      = .ok ((pages[p]?).map Page.hash) pages := rfl

theorem run_getPage :
    (SyncStorage.getPage p : StoreM InMemorySyncStorage _).run pages
      = .ok ((pages[p]?).map Page.data) pages := rfl

theorem run_putPage :
    (SyncStorage.putPage p data hash nowMs : StoreM InMemorySyncStorage _).run pages
      = .ok () (pages.insert p ⟨data, hash⟩) := rfl

/-- A call that only reads leaves the store as it is. -/
theorem ReadCall.final_run {α : Type} {m : StoreM InMemorySyncStorage α} (hm : ReadCall m) :
    final (m.run pages) = pages := by
  cases hm <;> rfl

end

/-! ## Handlers -/

/-- The machine after the client claimed page `p`. -/
def claim (p : UInt32) (f : SyncFsm) : SyncFsm := { f with clientSeen := insert p f.clientSeen }

/-- The machine after it asked for page `p`. -/
def await (p : UInt32) (f : SyncFsm) : SyncFsm :=
  { f with pendingRequests := insert p f.pendingRequests }

/-- The machine after the handshake, over a store whose highest page is `max`. -/
def greeted (max : UInt32) (f : SyncFsm) : SyncFsm :=
  { f with sawHello := true, serverMaxPage := max }

theorem run_handleHello (pageSize : UInt32) :
    (handleHello HANDSHAKE_VERSION pageSize).run w =
      (emit (.helloReply HANDSHAKE_VERSION pageSize (w.storage.keys.getLast?.getD 0))).run
        (w.setFsm (greeted (w.storage.keys.getLast?.getD 0))) := rfl

theorem run_handlePageHash_push (pageNo : UInt32) (hash : Bytes)
    (hdir : w.fsm.direction = .push) :
    (handlePageHash pageNo hash).run w =
      if (w.storage[pageNo]?).map Page.hash = some hash then .ok () (w.setFsm (claim pageNo))
      else (emit (.requestPage pageNo)).run ((w.setFsm (claim pageNo)).setFsm (await pageNo)) := by
  unfold handlePageHash
  simp only [EStateM.run_bind, run_modifyFsm, run_onStorage, World.setFsm_storage, run_getPageHash]
  split
  · rfl
  · simp only [EStateM.run_bind, EStateM.run_get, World.withStorage_fsm, World.setFsm_fsm, hdir]
    rfl

theorem run_handlePageHash_pull (pageNo : UInt32) (hash : Bytes)
    (hdir : w.fsm.direction = .pull) :
    (handlePageHash pageNo hash).run w =
      match w.storage[pageNo]? with
      | some page =>
        if page.hash = hash then .ok () (w.setFsm (claim pageNo))
        else (emit (.pageData pageNo page.data)).run
          ((w.setFsm (claim pageNo)).setFsm fun f => f.count page.data.length)
      | none => .ok () (w.setFsm (claim pageNo)) := by
  unfold handlePageHash
  simp only [EStateM.run_bind, run_modifyFsm, run_onStorage, World.setFsm_storage, run_getPageHash]
  cases hpage : w.storage[pageNo]? with
  | none =>
    simp only [Option.map_none, reduceCtorEq, if_false, EStateM.run_bind, EStateM.run_get,
      World.withStorage_fsm, World.setFsm_fsm, hdir, run_onStorage, run_getPage,
      World.withStorage_storage, hpage]
    rfl
  | some page =>
    by_cases hhash : page.hash = hash
    · simp only [Option.map_some, hhash, if_true]
      rfl
    · simp only [Option.map_some, Option.some.injEq, hhash, if_false, EStateM.run_bind,
        EStateM.run_get, World.withStorage_fsm, World.setFsm_fsm, hdir, run_onStorage, run_getPage,
        World.withStorage_storage, hpage]
      rfl

/-- One turn of the walk. -/
theorem run_streamPage (pageNo : UInt32) :
    (streamPage pageNo).run w =
      match w.storage[pageNo]? with
      | some page =>
        if pageNo ∈ w.fsm.clientSeen then .ok () w
        else (emit (.pageData pageNo page.data)).run
          (w.setFsm fun f => f.count page.data.length)
      | none => .ok () w := by
  unfold streamPage
  simp only [EStateM.run_bind, run_onStorage, run_getPage]
  cases w.storage[pageNo]? with
  | none => rfl
  | some page =>
    by_cases hseen : pageNo ∈ w.fsm.clientSeen
    · simp only [Option.map_some, EStateM.run_bind, EStateM.run_get, World.withStorage_fsm, hseen,
        if_true]
      rfl
    · simp only [Option.map_some, EStateM.run_bind, EStateM.run_get, World.withStorage_fsm, hseen,
        if_false]
      rfl

variable [Blake3]

/-- The machine after the client claimed a range of pages. -/
def claimRange (startPage endPage : UInt32) (f : SyncFsm) : SyncFsm :=
  { f with clientSeen := f.clientSeen ∪ (pageRange startPage endPage).toFinset }

theorem run_handlePageHashBatch (startPage endPage : UInt32) (clientCombined : Bytes) :
    (handlePageHashBatch startPage endPage clientCombined).run w =
      if Pages.combinedHash w.storage startPage endPage = clientCombined then
        .ok () (w.setFsm (claimRange startPage endPage))
      else (emit (.hashMismatchBatch (pageRange startPage endPage))).run
        (w.setFsm (claimRange startPage endPage)) := by
  unfold handlePageHashBatch
  simp only [EStateM.run_bind, run_modifyFsm, run_onStorage, World.setFsm_storage,
    Pages.run_combinedHash]
  split <;> rfl

/-- The world after the bytes of a page were taken up and written. -/
def taken (entry : PageDataEntry) (w : World InMemorySyncStorage) : World InMemorySyncStorage where
  storage := Pages.write w.storage entry
  fsm := count { w.fsm with pendingRequests := w.fsm.pendingRequests.erase entry.pageNo }
    entry.data.length
  sink := w.sink
  calls := w.calls
  history := w.history ++ [.pageData entry.pageNo entry.data,
    .stored entry.pageNo ⟨entry.data, pageHash entry.data⟩]

@[simp] theorem taken_storage (entry : PageDataEntry) :
    (taken entry w).storage = Pages.write w.storage entry := rfl
@[simp] theorem taken_sink (entry : PageDataEntry) : (taken entry w).sink = w.sink := rfl
@[simp] theorem taken_calls (entry : PageDataEntry) : (taken entry w).calls = w.calls := rfl

theorem run_handlePageData (nowMs : Int64) (entry : PageDataEntry) :
    (handlePageData nowMs entry.pageNo entry.data).run w =
      (maybeEmitComplete emit).run (taken entry w) := by
  unfold handlePageData
  simp only [EStateM.run_bind, run_record, run_modifyFsm, run_onStorage, run_putPage]
  congr 1
  simp [taken, World.record, World.setFsm, World.withStorage, Pages.write]

/-- Before the client's hash phase is over the gate is shut, so bytes are taken
up without an answer. -/
theorem run_handlePageData_early (nowMs : Int64) (entry : PageDataEntry)
    (h : w.fsm.completedHashPhase = false) :
    (handlePageData nowMs entry.pageNo entry.data).run w = .ok () (taken entry w) := by
  have hshut : ¬ (taken entry w).fsm.GateOpen := fun hopen => by
    have := hopen.2.1
    simp [taken, h] at this
  rw [run_handlePageData, run_maybeEmitComplete, if_neg hshut]

/-! ## A sink that takes every frame -/

section Reliable

variable {w}

omit [Blake3] in
theorem run_emit_reliable (h : w.sink = fun _ => none) (msg : SyncMessage) :
    (emit msg).run w = .ok () (w.hand msg) := by
  rw [run_emit, h]

/-- The world after the gate was tried. -/
def passGate (w : World InMemorySyncStorage) : World InMemorySyncStorage :=
  if w.fsm.GateOpen then
    (w.hand (.syncComplete w.fsm.pagesTransferred w.fsm.bytesTransferred)).setFsm
      fun f => { f with emittedComplete := true }
  else w

omit [Blake3] in
@[simp] theorem passGate_storage : (passGate w).storage = w.storage := by
  unfold passGate
  split <;> rfl

omit [Blake3] in
@[simp] theorem passGate_pendingRequests :
    (passGate w).fsm.pendingRequests = w.fsm.pendingRequests := by
  unfold passGate
  split <;> rfl

omit [Blake3] in
theorem run_maybeEmitComplete_reliable (h : w.sink = fun _ => none) :
    (maybeEmitComplete emit).run w = .ok () (passGate w) := by
  rw [run_maybeEmitComplete, passGate]
  split
  · rw [EStateM.run_bind, run_emit_reliable h]
    rfl
  · rfl

theorem run_apply_hello (h : w.sink = fun _ => none) (hsaw : w.fsm.sawHello = false)
    (nowMs : Int64) (pageSize clientMax : UInt32) :
    (apply nowMs (.hello HANDSHAKE_VERSION pageSize clientMax)).run w =
      .ok () ((w.setFsm (greeted (w.storage.keys.getLast?.getD 0))).hand
        (.helloReply HANDSHAKE_VERSION pageSize (w.storage.keys.getLast?.getD 0))) := by
  have hrun : (apply nowMs (.hello HANDSHAKE_VERSION pageSize clientMax)).run w =
      (handleHello HANDSHAKE_VERSION pageSize).run w := by
    simp [apply, hsaw]
  rw [hrun, run_handleHello]
  exact run_emit_reliable (w := w.setFsm _) h _

theorem run_apply_pageHash (hsaw : w.fsm.sawHello = true) (nowMs : Int64) (pageNo : UInt32)
    (hash : Bytes) : (apply nowMs (.pageHash pageNo hash)).run w =
      (handlePageHash pageNo hash).run w := by
  simp [apply, hsaw]

theorem run_apply_pageData (h : w.sink = fun _ => none) (hsaw : w.fsm.sawHello = true)
    (nowMs : Int64) (entry : PageDataEntry) :
    (apply nowMs (.pageData entry.pageNo entry.data)).run w =
      .ok () (passGate (taken entry w)) := by
  have hrun : (apply nowMs (.pageData entry.pageNo entry.data)).run w =
      (handlePageData nowMs entry.pageNo entry.data).run w := by
    simp [apply, hsaw]
  rw [hrun, run_handlePageData]
  exact run_maybeEmitComplete_reliable (w := taken entry w) h

/-- The world after `Complete` was taken up, before the walk. -/
def completing (w : World InMemorySyncStorage) : World InMemorySyncStorage :=
  (w.record .complete).setFsm fun f => { f with completedHashPhase := true }

theorem run_apply_complete_push (h : w.sink = fun _ => none) (hsaw : w.fsm.sawHello = true)
    (hdir : w.fsm.direction = .push) (nowMs : Int64) :
    (apply nowMs .complete).run w = .ok () (passGate (completing w)) := by
  have hrun : (apply nowMs .complete).run w = (maybeEmitComplete emit).run (completing w) := by
    simp [apply, hsaw, handleComplete, completing, hdir]
  rw [hrun]
  exact run_maybeEmitComplete_reliable (w := completing w) h

omit [Blake3] in
/-- The check for an empty store before the walk makes no difference. -/
theorem run_walk_or_skip (w : World InMemorySyncStorage) (next : FsmM InMemorySyncStorage Unit) :
    (if 0 < w.fsm.serverMaxPage then (do streamUnclaimed; next) else next).run w =
      (do forM (pageRange 1 w.fsm.serverMaxPage) (streamPage (σ := InMemorySyncStorage))
          next).run w := by
  by_cases hmax : 0 < w.fsm.serverMaxPage
  · rw [if_pos hmax, EStateM.run_bind, EStateM.run_bind, run_streamUnclaimed]
  · have hzero : w.fsm.serverMaxPage = 0 := by
      rw [UInt32.lt_iff_toNat_lt] at hmax
      exact UInt32.toNat_inj.mp (Nat.le_zero.mp (Nat.not_lt.mp hmax))
    have hempty : pageRange 1 w.fsm.serverMaxPage = [] := by rw [hzero]; rfl
    rw [if_neg hmax, hempty, EStateM.run_bind]
    rfl

theorem run_apply_complete_pull (hsaw : w.fsm.sawHello = true) (hdir : w.fsm.direction = .pull)
    (nowMs : Int64) :
    (apply nowMs .complete).run w =
      (do forM (pageRange 1 w.fsm.serverMaxPage) (streamPage (σ := InMemorySyncStorage))
          maybeEmitComplete emit).run (completing w) := by
  have hrun : (apply nowMs .complete).run w = (if 0 < (completing w).fsm.serverMaxPage then
      (do streamUnclaimed; maybeEmitComplete emit) else maybeEmitComplete emit).run
        (completing w) := by
    simp [apply, hsaw, handleComplete, completing, hdir]
  rw [hrun, run_walk_or_skip]
  rfl

end Reliable

end SyncFsm

end EdgeReplica
