-- SUMMARY: The sessions of one durable object, hostile or not, in any interleaving: where what it holds and sends comes from.
import EdgeReplica.Lib.Machine
import EdgeReplica.Worker.PageWrites
import EdgeReplica.Worker.ScanSession

/-!
# Sessions of one durable object

Every accepted WebSocket has a task of its own over the one page store. Clients may send
anything at any time, sockets may refuse frames and the store may fail. What the store
holds in the end are its first rows under pages that arrived, and no page is ever sent
that was not a row at first or did not arrive.
-/

namespace EdgeReplica

open Effect (Spec Steps final)

/-! ## Storages that read what they hold -/

namespace PageStore

variable {σ : Type} [PageStore σ]

/-- The trait's loop over the digests reads. -/
theorem pages_combinedHash [Blake3] (start stop : UInt32) (s : σ) :
    pages (final ((SyncStorage.combinedHash start stop).run s)) = pages s := by
  have hsteps : Steps (fun s s' : σ => pages s' = pages s) s
      (SyncStorage.combinedHash start stop) := by
    unfold SyncStorage.combinedHash
    refine Steps.bind ?_ fun _ _ _ => Steps.pure _
    generalize pageRange start stop = range
    generalize ([] : Bytes) = hasher
    induction range generalizing s hasher with
    | nil => exact Steps.pure _
    | cons p range ih =>
      rw [List.foldlM_cons]
      refine Steps.bind (Steps.bind (.single (pages_read (.getPageHash p) s))
        fun stored s₁ _ => ?_) fun hasher' s₂ _ => ih s₂ hasher'
      cases stored <;> exact Steps.pure _
  exact hsteps.keeps (I := fun s' => pages s' = pages s) (fun _ _ hsame h => hsame.trans h) rfl

/-- What is read is a row of the table. -/
def Reads (σ : Type) [PageStore σ] : Prop :=
  ∀ {p : UInt32} {data : Bytes} {s s' : σ},
    (SyncStorage.getPage p).run s = .ok (some data) s' →
    ∃ page, (pages s)[p]? = some page ∧ page.data = data

/-- The trait's walk reads, and calls back with rows only. -/
theorem pages_iterPagesInRange (hreads : Reads σ) {τ : Type} {J : τ → Prop} (start stop : UInt32)
    (emit : UInt32 → Bytes → EStateM StoreError τ Unit) {s : σ}
    (hemit : ∀ p page, (pages s)[p]? = some page → ∀ t, J t →
      J (final ((emit p page.data).run t))) {t : τ} (ht : J t) :
    let walked := final ((SyncStorage.iterPagesInRange start stop emit).run (s, t))
    pages walked.1 = pages s ∧ J walked.2 := by
  unfold SyncStorage.iterPagesInRange
  generalize pageRange start stop = range
  induction range generalizing s t with
  | nil => exact ⟨rfl, ht⟩
  | cons p range ih =>
    have hread := pages_read (.getPage p) s
    rw [List.forM_cons, EStateM.run_bind, EStateM.run_bind, Effect.run_onFst]
    cases hr : (SyncStorage.getPage p).run s with
    | error e s₁ =>
      rw [hr] at hread
      exact ⟨hread, ht⟩
    | ok found s₁ =>
      rw [hr] at hread
      have hsame : pages s₁ = pages s := hread
      have hrest {t : τ} (ht : J t) := ih (s := s₁) (hsame ▸ hemit) ht
      rw [hsame] at hrest
      cases found with
      | none => exact hrest ht
      | some data =>
        obtain ⟨page, hpage, rfl⟩ := hreads hr
        have hnext := hemit p page hpage t ht
        simp only [Effect.run_onSnd]
        cases he : (emit p page.data).run t with
        | error e t' =>
          rw [he] at hnext
          exact ⟨hread, hnext⟩
        | ok _ t' =>
          rw [he] at hnext
          exact hrest hnext

end PageStore

/-- A storage that reads rows of its table, by its scans too, and leaves the table as it
is in doing so. -/
class ReadStore (σ : Type) extends PageStore σ, ScanStorage σ where
  reads : PageStore.Reads σ
  combinedHash_reads [Blake3] (start stop : UInt32) (s : σ) :
    pages (final ((combinedHash start stop).run s)) = pages s
  iterPagesInRange_reads {τ : Type} {J : τ → Prop} (start stop : UInt32)
    (emit : UInt32 → Bytes → EStateM StoreError τ Unit) {s : σ}
    (hemit : ∀ p page, (pages s)[p]? = some page → ∀ t, J t →
      J (final ((emit p page.data).run t))) {t : τ} (ht : J t) :
    let walked := final ((iterPagesInRange start stop emit).run (s, t))
    pages walked.1 = pages s ∧ J walked.2

theorem InMemorySyncStorage.reads : PageStore.Reads InMemorySyncStorage := by
  intro p data s s' h
  have hread : (s : Pages)[p]?.map Page.data = some data := (EStateM.Result.ok.inj h).1
  exact Option.map_eq_some_iff.mp hread

theorem Faulty.reads : PageStore.Reads (Faulty InMemorySyncStorage) := by
  intro p data s s' h
  change Faulty.attempt (SyncStorage.getPage p) s = _ at h
  unfold Faulty.attempt at h
  split at h
  · cases h
  · split at h
    · next hread =>
      obtain ⟨rfl, -⟩ := EStateM.Result.ok.inj h
      exact InMemorySyncStorage.reads hread
    · cases h

instance : ReadStore InMemorySyncStorage where
  reads := InMemorySyncStorage.reads
  combinedHash_reads := PageStore.pages_combinedHash
  iterPagesInRange_reads := PageStore.pages_iterPagesInRange InMemorySyncStorage.reads

instance : ReadStore (Faulty InMemorySyncStorage) where
  reads := Faulty.reads
  combinedHash_reads := PageStore.pages_combinedHash
  iterPagesInRange_reads := PageStore.pages_iterPagesInRange Faulty.reads

namespace SyncFsm

variable {σ : Type} [ReadStore σ]

/-! ## One call -/

/-- The pages that the world holds and has sent are among `K`. -/
structure Within (K : Set PageDataEntry) (w : World σ) : Prop where
  held : ∀ (p : UInt32) (page : Page), (table w)[p]? = some page → ⟨p, page.data⟩ ∈ K
  sent : ∀ msg ∈ sentBy w.history, ∀ entry ∈ msg.entries, entry ∈ K

variable {K : Set PageDataEntry}

theorem Within.setFsm {w : World σ} (h : Within K w) (f : SyncFsm → SyncFsm) :
    Within K (w.setFsm f) := ⟨h.held, h.sent⟩

theorem Within.record {w : World σ} (h : Within K w) {e : Event} (he : sentBy [e] = []) :
    Within K (w.record e) := by
  refine ⟨h.held, fun msg hmsg => ?_⟩
  rw [World.record_history, sentBy_append, he, List.append_nil] at hmsg
  exact h.sent msg hmsg

omit [ReadStore σ] in
/-- The frames that were sent, once another one is handed to the sink. -/
theorem sent_hand {w : World σ} (h : ∀ msg ∈ sentBy w.history, ∀ entry ∈ msg.entries, entry ∈ K)
    {msg : SyncMessage} (hmsg : ∀ entry ∈ msg.entries, entry ∈ K) :
    ∀ msg' ∈ sentBy (w.hand msg).history, ∀ entry ∈ msg'.entries, entry ∈ K := by
  intro msg' hmem
  rw [World.hand_history, sentBy_append] at hmem
  rcases List.mem_append.mp hmem with hold | hnew
  · exact h msg' hold
  · cases hans : w.sink w.calls with
    | none =>
      rw [hans] at hnew
      obtain rfl := List.mem_singleton.mp hnew
      exact hmsg
    | some e =>
      rw [hans] at hnew
      cases hnew

theorem Within.hand {w : World σ} (h : Within K w) {msg : SyncMessage}
    (hmsg : ∀ entry ∈ msg.entries, entry ∈ K) : Within K (w.hand msg) :=
  ⟨h.held, sent_hand h.sent hmsg⟩

theorem Within.withStorage {w : World σ} (h : Within K w) {s : σ}
    (hpages : PageStore.pages s = table w) : Within K (w.withStorage s) := by
  refine ⟨fun p page hrow => h.held p page ?_, h.sent⟩
  rw [← hpages]
  exact hrow

theorem keeps_modifyFsm (f : SyncFsm → SyncFsm) : Keeps (Within K) (modifyFsm f : FsmM σ Unit) :=
  fun _ h => h.setFsm f

theorem keeps_record {e : Event} (he : sentBy [e] = []) :
    Keeps (Within K) (record e : FsmM σ Unit) := fun _ h => h.record he

theorem keeps_emit {msg : SyncMessage} (hmsg : ∀ entry ∈ msg.entries, entry ∈ K) :
    Keeps (Within K) (emit msg : FsmM σ Unit) := by
  intro w h
  rw [run_emit]
  cases w.sink w.calls <;> exact h.hand hmsg

/-- A call of the storage that leaves the table as it is. -/
theorem keeps_onStorage {α : Type} {m : StoreM σ α}
    (hm : ∀ s, PageStore.pages (final (m.run s)) = PageStore.pages s) :
    Keeps (Within K) (onStorage m) := by
  intro w h
  have hsame := hm w.storage
  rw [run_onStorage]
  cases hr : m.run w.storage with
  | ok a s =>
    rw [hr] at hsame
    exact h.withStorage hsame
  | error e s =>
    rw [hr] at hsame
    exact h.withStorage hsame

/-- What is read is among `K`. -/
theorem spec_getPage (p : UInt32) :
    Spec (Within K) (onStorage (SyncStorage.getPage p) : FsmM σ (Option Bytes))
      (fun found w => Within K w ∧ ∀ data, found = some data → ⟨p, data⟩ ∈ K)
      (fun _ => Within K) := by
  intro w h
  have hkeeps := keeps_onStorage (fun s => PageStore.pages_read (.getPage p) s) w h
  rw [run_onStorage] at hkeeps ⊢
  cases hr : (SyncStorage.getPage p).run w.storage with
  | ok found s =>
    rw [hr] at hkeeps
    refine ⟨hkeeps, ?_⟩
    rintro data rfl
    obtain ⟨page, hpage, rfl⟩ := ReadStore.reads hr
    exact h.held p page hpage
  | error e s =>
    rw [hr] at hkeeps
    exact hkeeps

/-! ## Handlers -/

theorem keeps_maybeEmitComplete : Keeps (Within K) (maybeEmitComplete emit : FsmM σ Unit) := by
  refine Keeps.get_bind fun w => ?_
  dsimp only
  split
  · exact Keeps.pure _
  · exact Keeps.bind (keeps_emit (by simp [SyncMessage.entries])) fun _ => keeps_modifyFsm _

theorem keeps_handleHello (version pageSize : UInt32) :
    Keeps (Within K) (handleHello version pageSize : FsmM σ Unit) := by
  unfold handleHello
  split
  · exact Keeps.throw _
  · refine Keeps.bind (keeps_modifyFsm _) fun _ => ?_
    refine Keeps.bind (keeps_onStorage fun s => PageStore.pages_read .maxPage s) fun max => ?_
    exact Keeps.bind (keeps_modifyFsm _) fun _ => keeps_emit (by simp [SyncMessage.entries])

theorem keeps_handlePageHash (p : UInt32) (hash : Bytes) :
    Keeps (Within K) (handlePageHash p hash : FsmM σ Unit) := by
  unfold handlePageHash
  refine Keeps.bind (keeps_modifyFsm _) fun _ => ?_
  refine Keeps.bind (keeps_onStorage fun s => PageStore.pages_read (.getPageHash p) s) fun _ => ?_
  split
  · exact Keeps.pure _
  · refine Keeps.get_bind fun w => ?_
    split
    · exact Keeps.bind (keeps_modifyFsm _) fun _ => keeps_emit (by simp [SyncMessage.entries])
    · refine Spec.bind (spec_getPage p) fun found => ?_
      cases found with
      | none => exact fun w h => h.1
      | some data =>
        intro w h
        refine Keeps.bind (keeps_modifyFsm _) (fun _ => keeps_emit ?_) w h.1
        simpa [SyncMessage.entries] using h.2 data rfl

theorem keeps_putPage (nowMs : Int64) [Blake3] {p : UInt32} {data : Bytes} (h : ⟨p, data⟩ ∈ K) :
    Keeps (Within K)
      (onStorage (SyncStorage.putPage p data (pageHash data) nowMs) : FsmM σ Unit) := by
  intro w hw
  have hput := PageStore.pages_put p data (pageHash data) nowMs w.storage
  rw [run_onStorage]
  cases hr : (SyncStorage.putPage p data (pageHash data) nowMs).run w.storage with
  | ok a s =>
    rw [hr] at hput
    refine ⟨fun q page hpage => ?_, hw.sent⟩
    have hrow : (PageStore.pages s)[q]? = some page := hpage
    rw [show PageStore.pages s = (table w).write ⟨p, data⟩ from hput, Pages.getElem?_write] at hrow
    split at hrow
    · next hq =>
      obtain rfl := Option.some.inj hrow
      exact hq ▸ h
    · exact hw.held q page hrow
  | error e s =>
    rw [hr] at hput
    exact hw.withStorage hput

theorem keeps_handlePageData (nowMs : Int64) [Blake3] {p : UInt32} {data : Bytes}
    (h : ⟨p, data⟩ ∈ K) : Keeps (Within K) (handlePageData nowMs p data : FsmM σ Unit) := by
  unfold handlePageData
  refine Keeps.bind (keeps_record rfl) fun _ => ?_
  refine Keeps.bind (keeps_modifyFsm _) fun _ => ?_
  refine Keeps.bind (keeps_putPage nowMs h) fun _ => ?_
  refine Keeps.bind (keeps_record rfl) fun _ => ?_
  exact Keeps.bind (keeps_modifyFsm _) fun _ => keeps_maybeEmitComplete

/-- A frame that reaches no scan. -/
theorem keeps_apply (nowMs : Int64) [Blake3] {msg : SyncMessage} (hscans : ¬ ScanFsm.Scans msg)
    (h : ∀ entry ∈ msg.entries, entry ∈ K) : Keeps (Within K) (apply nowMs msg : FsmM σ Unit) := by
  unfold apply
  refine Keeps.get_bind fun w => ?_
  split
  · split
    case h_2 pageNo hash => exact keeps_handlePageHash pageNo hash
    case h_3 startPage endPage combined => exact absurd (.batch _ _ _) hscans
    case h_4 pageNo data => exact keeps_handlePageData nowMs (h _ List.mem_cons_self)
    case h_5 pages => exact Keeps.forM fun entry hmem => keeps_handlePageData nowMs (h entry hmem)
    case h_6 => exact absurd .complete hscans
    all_goals exact Keeps.throw _
  · split
    · exact keeps_handleHello _ _
    · exact Keeps.throw _

end SyncFsm

namespace ScanFsm

open SyncFsm (Keeps Within sendUnclaimed)

variable {σ : Type} [ReadStore σ] {K : Set PageDataEntry}

/-- The callback of the walk hands the page it is called with to the sink, or does nothing. -/
theorem final_sendUnclaimed (p : UInt32) (data : Bytes) (v : World Unit × Option String) :
    (final ((sendUnclaimed p data).run v)).1 = v.1 ∨
      (final ((sendUnclaimed p data).run v)).1 =
        (v.1.setFsm fun f => f.count data.length).hand (.pageData p data) := by
  obtain ⟨w, e⟩ := v
  show (final (sendUnclaimed p data (w, e))).1 = w ∨ (final (sendUnclaimed p data (w, e))).1 = _
  unfold sendUnclaimed
  dsimp only
  split
  · exact .inl rfl
  · rw [SyncFsm.run_emit]
    cases (w.setFsm fun f => f.count data.length).sink
      (w.setFsm fun f => f.count data.length).calls <;> exact .inr rfl

theorem sent_sendUnclaimed {p : UInt32} {data : Bytes} (h : ⟨p, data⟩ ∈ K)
    {v : World Unit × Option String}
    (hv : ∀ msg ∈ sentBy v.1.history, ∀ entry ∈ msg.entries, entry ∈ K) :
    ∀ msg ∈ sentBy (final ((sendUnclaimed p data).run v)).1.history,
      ∀ entry ∈ msg.entries, entry ∈ K := by
  rcases final_sendUnclaimed p data v with hsame | hhand
  · rwa [hsame]
  · rw [hhand]
    exact SyncFsm.sent_hand (w := v.1.setFsm fun f => f.count data.length) hv
      (by simpa [SyncMessage.entries] using h)

theorem walked_keeps {w : World σ} {J : World Unit × Option String → Prop}
    (hemit : ∀ p page, (SyncFsm.table w)[p]? = some page → ∀ v, J v →
      J (final ((sendUnclaimed p page.data).run v))) (hw : J (w.withStorage (), none)) :
    PageStore.pages (walked w).1 = SyncFsm.table w ∧ J (walked w).2 :=
  ReadStore.iterPagesInRange_reads 1 w.fsm.serverMaxPage sendUnclaimed hemit hw

theorem keeps_streamUnclaimed : Keeps (Within K) (streamUnclaimed : FsmM σ Unit) := by
  refine Keeps.of_final fun w h => ?_
  obtain ⟨hpages, hsent⟩ := walked_keeps (w := w)
    (J := fun v => ∀ msg ∈ sentBy v.1.history, ∀ entry ∈ msg.entries, entry ∈ K)
    (fun p page hrow v hv => sent_sendUnclaimed (h.held p page hrow) hv) h.sent
  rw [final_streamUnclaimed]
  refine ⟨fun p page hrow => h.held p page ?_, hsent⟩
  rw [← hpages]
  exact hrow

theorem keeps_handleComplete : Keeps (Within K) (handleComplete : FsmM σ Unit) := by
  unfold handleComplete
  refine Keeps.bind (SyncFsm.keeps_record rfl) fun _ => ?_
  refine Keeps.bind (SyncFsm.keeps_modifyFsm _) fun _ => ?_
  refine Keeps.get_bind fun w => ?_
  dsimp only
  split
  · exact Keeps.bind keeps_streamUnclaimed fun _ => SyncFsm.keeps_maybeEmitComplete
  · exact SyncFsm.keeps_maybeEmitComplete

variable [Blake3]

theorem keeps_handlePageHashBatch (startPage endPage : UInt32) (combined : Bytes) :
    Keeps (Within K) (handlePageHashBatch startPage endPage combined : FsmM σ Unit) := by
  unfold handlePageHashBatch
  refine Keeps.bind (SyncFsm.keeps_modifyFsm _) fun _ => ?_
  refine Keeps.bind (SyncFsm.keeps_onStorage (ReadStore.combinedHash_reads startPage endPage))
    fun _ => ?_
  split
  · exact Keeps.pure _
  · exact SyncFsm.keeps_emit (by simp [SyncMessage.entries])

/-- A call of the machine on a message whose pages are among `K`. -/
theorem keeps_apply (nowMs : Int64) {msg : SyncMessage} (h : ∀ entry ∈ msg.entries, entry ∈ K) :
    Keeps (Within K) (apply nowMs msg : FsmM σ Unit) := by
  by_cases hscans : Scans msg
  · intro w hw
    cases hsaw : w.fsm.sawHello with
    | false =>
      rw [run_apply_unasked nowMs hscans hsaw]
      exact hw
    | true =>
      cases hscans with
      | batch startPage endPage combined =>
        rw [run_apply_batch nowMs startPage endPage combined hsaw]
        exact keeps_handlePageHashBatch startPage endPage combined w hw
      | complete =>
        rw [run_apply_complete nowMs hsaw]
        exact keeps_handleComplete w hw
  · rw [apply_of_not_scans nowMs hscans]
    exact SyncFsm.keeps_apply nowMs hscans h

end ScanFsm

/-! ## One turn -/

namespace ScanSession

open SessionTask (sendError)
open SyncFsm (Within WritesPrefix table)

variable {σ : Type} [ReadStore σ] {K : Set PageDataEntry}

theorem within_sendError {w : World σ} (h : Within K w) (message : String) :
    Within K (sendError w message) := h.hand (by simp [SyncMessage.entries])

theorem within_step [Blake3] (nowMs : Int64) {event : WebsocketEvent}
    (hevent : ∀ entry ∈ event.entries, entry ∈ K) {task : SessionTask σ}
    (h : Within K task.world) : Within K (step task nowMs event).world := by
  match event with
  | .text | .binary (.error _) => exact within_sendError h _
  | .error => exact h
  | .close =>
    show Within K (final (SyncFsm.clientClosed.run task.world))
    rw [SyncFsm.run_clientClosed, Effect.final_ok]
    split
    · exact (h.record rfl).setFsm _
    · exact h
  | .binary (.ok msg) =>
    have hcall := ScanFsm.keeps_apply nowMs hevent task.world h
    cases hr : (ScanFsm.apply nowMs msg).run task.world with
    | ok a w =>
      rw [hr] at hcall
      simp only [step, hr, Effect.final_ok, Effect.fault_ok]
      split <;> try split
      all_goals exact hcall
    | error e w =>
      rw [hr] at hcall
      simp only [step, hr, Effect.final_error, Effect.fault_error]
      split
      · exact hcall
      · exact within_sendError hcall _

/-- Scans leave the table as it is. -/
theorem scansKeep_pages (pages : Pages) :
    ScanFsm.ScansKeep fun s : σ => PageStore.pages s = pages where
  combinedHash start stop := fun h => (ReadStore.combinedHash_reads start stop _).trans h
  iterPagesInRange start stop emit t := fun h =>
    (ReadStore.iterPagesInRange_reads start stop emit (J := fun _ => True)
      (fun _ _ _ _ _ => trivial) (t := t) trivial).1.trans h

/-- A turn leaves the table with a prefix of the pages of its frame written over it. -/
theorem step_writes [Blake3] (task : SessionTask σ) (nowMs : Int64) (event : WebsocketEvent) :
    WritesPrefix (table task.world) event.entries (step task nowMs event).world := by
  match event with
  | .text | .error | .close | .binary (.error _) => exact (task.step_writes nowMs _).2
  | .binary (.ok msg) =>
    by_cases hscans : ScanFsm.Scans msg
    · refine ⟨[], List.nil_prefix, ?_⟩
      have hcall : table (final ((ScanFsm.apply nowMs msg).run task.world)) = table task.world :=
        ScanFsm.apply_keeps (scansKeep_pages (table task.world)) nowMs hscans rfl
      rw [Pages.replay_nil, ← hcall]
      exact congrArg PageStore.pages (step_storage task nowMs msg)
    · rw [step_of_not_scans task nowMs hscans]
      exact (task.step_writes nowMs _).2

end ScanSession

/-! ## The sessions of one object -/

/-- The page store of an object, and the tasks of the WebSockets it has accepted. Between
its turns a task has no store of its own. -/
structure Hosted (σ ι : Type) where
  storage : σ
  tasks : ι → Option (SessionTask Unit)

/-- The task over a store. -/
def SessionTask.withStorage {σ τ : Type} (task : SessionTask τ) (storage : σ) : SessionTask σ where
  world := task.world.withStorage storage
  running := task.running
  closed := task.closed

namespace Hosted

inductive Arrival (ι : Type) where
  /-- A WebSocket is accepted, with a token for the direction. -/
  | accept (i : ι) (direction : Direction) (refuses : Nat → Bool)
  | arrive (i : ι) (nowMs : Int64) (event : WebsocketEvent)

/-- The pages that an arrival brings. -/
def Arrival.entries {ι : Type} : Arrival ι → List PageDataEntry
  | .accept .. => []
  | .arrive _ _ event => event.entries

variable {σ ι : Type} [DecidableEq ι] [ReadStore σ] [Blake3]

/-- One turn of one task. -/
def step (arrival : Arrival ι) (h : Hosted σ ι) : Option (Hosted σ ι) :=
  match arrival with
  | .accept i direction refuses =>
    match h.tasks i with
    | some _ => none
    | none =>
      some { h with tasks := Function.update h.tasks i (some (.spawn direction () refuses)) }
  | .arrive i nowMs event =>
    match h.tasks i with
    | none => none
    | some task =>
      if task.running then
        let next := ScanSession.step (task.withStorage h.storage) nowMs event
        some ⟨next.world.storage, Function.update h.tasks i (some (next.withStorage ()))⟩
      else none

/-- The pages that were rows at first, or arrived. -/
def known (initial : Pages) (arrived : List PageDataEntry) : Set PageDataEntry :=
  { entry | (∃ page, initial[entry.pageNo]? = some page ∧ page.data = entry.data) ∨
    entry ∈ arrived }

omit [Blake3] in
theorem known_append (initial : Pages) {arrived more : List PageDataEntry} :
    known initial arrived ⊆ known initial (arrived ++ more) :=
  fun _ h => h.imp_right (List.mem_append_left more)

/-- Where the rows and the frames of an object come from. -/
structure Sourced (initial : Pages) (arrived : List PageDataEntry) (h : Hosted σ ι) : Prop where
  table : ∃ written, written.Sublist arrived ∧
    PageStore.pages h.storage = initial.replay written
  sent : ∀ i task, h.tasks i = some task → ∀ msg ∈ task.sent, ∀ entry ∈ msg.entries,
    entry ∈ known initial arrived

variable {initial : Pages} {arrived : List PageDataEntry} {h h' : Hosted σ ι}

theorem row_of_replay {pages : Pages} {entries : List PageDataEntry} {p : UInt32} {page : Page}
    (hrow : (pages.replay entries)[p]? = some page) :
    pages[p]? = some page ∨ ⟨p, page.data⟩ ∈ entries := by
  induction entries generalizing pages with
  | nil => exact .inl hrow
  | cons entry entries ih =>
    rcases ih hrow with hwritten | hmem
    · rw [Pages.getElem?_write] at hwritten
      split at hwritten
      · next hp =>
        obtain rfl := Option.some.inj hwritten
        exact .inr (hp ▸ List.mem_cons_self)
      · exact .inl hwritten
    · exact .inr (List.mem_cons_of_mem _ hmem)

omit [DecidableEq ι] in
theorem Sourced.held (hs : Sourced initial arrived h) {p : UInt32} {page : Page}
    (hrow : (PageStore.pages h.storage)[p]? = some page) :
    ⟨p, page.data⟩ ∈ known initial arrived := by
  obtain ⟨written, hsub, htable⟩ := hs.table
  rw [htable] at hrow
  rcases row_of_replay hrow with hfirst | hmem
  · exact .inl ⟨page, hfirst, rfl⟩
  · exact .inr (hsub.subset hmem)

theorem Sourced.step {arrival : Arrival ι} (hs : Sourced initial arrived h)
    (hstep : Hosted.step arrival h = some h') :
    Sourced initial (arrived ++ arrival.entries) h' := by
  have hsent : ∀ i task, h.tasks i = some task → ∀ msg ∈ task.sent, ∀ entry ∈ msg.entries,
      entry ∈ known initial (arrived ++ arrival.entries) := fun i task hi msg hmsg entry hentry =>
    known_append initial (hs.sent i task hi msg hmsg entry hentry)
  match arrival with
  | .accept i direction refuses =>
    simp only [Hosted.step] at hstep
    split at hstep
    · cases hstep
    · obtain rfl := Option.some.inj hstep
      refine ⟨by simpa [Arrival.entries] using hs.table, fun j task hj => ?_⟩
      by_cases hji : j = i
      · subst hji
        obtain rfl : _ = task := by simpa using hj
        exact nofun
      · exact hsent j task (by simpa [Function.update_of_ne hji] using hj)
  | .arrive i nowMs event =>
    simp only [Hosted.step] at hstep
    split at hstep
    · cases hstep
    · next task hi =>
      split at hstep
      · obtain rfl := Option.some.inj hstep
        have hwithin : SyncFsm.Within (known initial (arrived ++ event.entries))
            (task.withStorage h.storage).world :=
          ⟨fun p page hrow => known_append initial (hs.held hrow), hsent i task hi⟩
        have hnext := ScanSession.within_step nowMs
          (fun entry hmem => .inr (List.mem_append_right arrived hmem)) hwithin
        obtain ⟨written', hbegins, htable'⟩ :=
          ScanSession.step_writes (task.withStorage h.storage) nowMs event
        obtain ⟨written, hsub, htable⟩ := hs.table
        refine ⟨⟨written ++ written', hsub.append hbegins.sublist, ?_⟩, fun j task' hj => ?_⟩
        · rw [Pages.replay_append, ← htable]
          exact htable'
        · by_cases hji : j = i
          · subst hji
            obtain rfl : _ = task' := by simpa using hj
            exact hnext.sent
          · exact hsent j task' (by simpa [Function.update_of_ne hji] using hj)
      · cases hstep

omit [DecidableEq ι] [ReadStore σ] in
/-- A write drops no page. -/
theorem mem_replay {pages : Pages} (entries : List PageDataEntry) {p : UInt32} (hp : p ∈ pages) :
    p ∈ pages.replay entries := by
  induction entries generalizing pages with
  | nil => exact hp
  | cons entry entries ih =>
    refine ih (Pages.mem_iff_ne_none.mpr ?_)
    rw [Pages.getElem?_write]
    split
    · exact Option.some_ne_none _
    · exact Pages.mem_iff_ne_none.mp hp

/-- Whatever the clients of an object send, in whatever order their frames arrive, and
whatever its store and its sockets refuse: the rows are the first ones under pages that
arrived, no page number is dropped, every row keeps the digest of its bytes, and no
session is ever sent a page that was neither a row at first nor has arrived. -/
theorem hosted_sources (storage : σ) {arrivals : List (Arrival ι)}
    (hrun : Machine.run Hosted.step arrivals ⟨storage, fun _ => none⟩ = some h) :
    (∃ written, written.Sublist (arrivals.flatMap Arrival.entries) ∧
      PageStore.pages h.storage = (PageStore.pages storage).replay written) ∧
    (∀ p ∈ PageStore.pages storage, p ∈ PageStore.pages h.storage) ∧
    ((PageStore.pages storage).Hashed → (PageStore.pages h.storage).Hashed) ∧
    ∀ i task, h.tasks i = some task → ∀ msg ∈ task.sent, ∀ entry ∈ msg.entries,
      (∃ page, (PageStore.pages storage)[entry.pageNo]? = some page ∧ page.data = entry.data) ∨
        entry ∈ arrivals.flatMap Arrival.entries := by
  have hsourced : Sourced (PageStore.pages storage) (arrivals.flatMap Arrival.entries) h := by
    refine Machine.run_traces hrun (I := fun before h =>
      Sourced (PageStore.pages storage) (before.flatMap Arrival.entries) h)
      ⟨⟨[], .slnil, rfl⟩, by simp⟩ fun before arrival h h' hstep hs => ?_
    rw [List.flatMap_append, List.flatMap_singleton]
    exact hs.step hstep
  obtain ⟨written, hsub, htable⟩ := hsourced.table
  refine ⟨hsourced.table, fun p hp => ?_, fun hhashed => ?_, hsourced.sent⟩
  · rw [htable]
    exact mem_replay written hp
  · rw [htable]
    exact hhashed.replay written

/-- A push, and a pull of another client while it goes on. -/
def sampleArrivals : List (Arrival Nat) :=
  [.accept 0 .push fun _ => false, .accept 1 .pull fun _ => false,
    .arrive 0 0 (.binary (.ok (.hello 1 4096 1))),
    .arrive 0 0 (.binary (.ok (.pageData 7 [1]))),
    .arrive 1 0 (.binary (.ok (.hello 1 4096 0))),
    .arrive 1 0 (.binary (.ok .complete))]

omit [Blake3] in
theorem hosted_sources_sample :
    letI := Blake3.onSamples
    ∃ h : Hosted InMemorySyncStorage Nat,
      Machine.run Hosted.step sampleArrivals ⟨(∅ : Pages), fun _ => none⟩ = some h ∧
      (h.tasks 1).map SessionTask.sent =
        some [.helloReply 1 4096 7, .pageData 7 [1], .syncComplete 1 1] ∧
      ∃ written, written.Sublist [⟨7, [1]⟩] ∧
        PageStore.pages h.storage = (∅ : Pages).replay written := by
  let _ := Blake3.onSamples
  have hrun : (Machine.run (Hosted.step (σ := InMemorySyncStorage)) sampleArrivals
      ⟨(∅ : Pages), fun _ => none⟩).map (fun h => (h.tasks 1).map SessionTask.sent) =
        some (some [.helloReply 1 4096 7, .pageData 7 [1], .syncComplete 1 1]) := by
    decide +kernel
  obtain ⟨h, hs, hsent⟩ := Option.map_eq_some_iff.mp hrun
  exact ⟨h, hs, hsent, (hosted_sources (σ := InMemorySyncStorage) (∅ : Pages) hs).1⟩

end Hosted

end EdgeReplica
