-- SUMMARY: What a session leaves in the page store, however it ends.
import EdgeReplica.Services.InMemoryRuns
import EdgeReplica.Worker.DoSyncWs

/-!
# Page writes of a session

A page is written as its bytes arrive, and the server has no transaction around
a session. So a run of the task leaves the store it found with a prefix of the
page entries it was fed written over it. Nothing in this depends on the direction
of the session.
-/

namespace EdgeReplica

open Effect (Outcome Spec final)

/-- The page entries of the frame an event brings. -/
def WebsocketEvent.entries : WebsocketEvent → List PageDataEntry
  | .binary (.ok msg) => msg.entries
  | _ => []

/-! ## Storages that show a page table -/

/-- A storage with a page table in it: reading leaves the table as it is, a put
that succeeds writes its row, and one that fails writes nothing. -/
class PageStore (σ : Type) extends SyncStorage σ where
  pages : σ → Pages
  pages_read {α : Type} {m : StoreM σ α} (hm : SyncFsm.ReadCall m) (s : σ) :
    pages (final (m.run s)) = pages s
  pages_put (p : UInt32) (data hash : Bytes) (nowMs : Int64) (s : σ) :
    Outcome (fun _ s' => pages s' = (pages s).insert p ⟨data, hash⟩)
      (fun _ s' => pages s' = pages s) ((putPage p data hash nowMs).run s)

instance : PageStore InMemorySyncStorage where
  pages s := s
  pages_read hm s := hm.final_run s
  pages_put _ _ _ _ _ := rfl

theorem Faulty.inner_attempt {α : Type} {m : StoreM InMemorySyncStorage α}
    (hm : ∀ pages, final (m.run pages) = pages) (s : Faulty InMemorySyncStorage) :
    (final ((attempt m).run s)).inner = s.inner := by
  have hinner := hm s.inner
  show (final (attempt m s)).inner = s.inner
  unfold attempt
  cases s.faults s.calls with
  | some e => rfl
  | none =>
    cases hr : m.run s.inner with
    | ok a inner => rw [hr] at hinner; exact hinner
    | error e inner => rw [hr] at hinner; exact hinner

instance : PageStore (Faulty InMemorySyncStorage) where
  pages s := s.inner
  pages_read hm s := by
    cases hm with
    | getPageHash p => exact Faulty.inner_attempt (fun _ => rfl) s
    | getPage p => exact Faulty.inner_attempt (fun _ => rfl) s
    | maxPage => exact Faulty.inner_attempt (fun _ => rfl) s
  pages_put p data hash nowMs s := by
    show Outcome _ _ (Faulty.attempt (SyncStorage.putPage p data hash nowMs) s)
    unfold Faulty.attempt
    cases s.faults s.calls <;> rfl

namespace SyncFsm

variable {σ : Type} [PageStore σ] [Blake3]

/-- The page table of a world. -/
def table (w : World σ) : Pages := PageStore.pages w.storage

/-- The table is `pages` with a prefix of the entries written over it. -/
def WritesPrefix (pages : Pages) (entries : List PageDataEntry) (w : World σ) : Prop :=
  ∃ written, written <+: entries ∧ table w = pages.replay written

/-! ## One call -/

/-- An act leaves the table as it is, or writes an entry of its frame. -/
theorem Act.table_cases {msg : SyncMessage} {w w' : World σ} (h : Act msg w w') :
    table w' = table w ∨ ∃ entry ∈ msg.entries, table w' = (table w).write entry := by
  cases h with
  | read hm => exact .inl (PageStore.pages_read hm w.storage)
  | @put p data nowMs _ hentry hput =>
    have h := PageStore.pages_put p data (pageHash data) nowMs w.storage
    rw [hput] at h
    exact .inr ⟨⟨p, data⟩, hentry, h⟩
  | @putFailed p data nowMs _ _ hput =>
    have h := PageStore.pages_put p data (pageHash data) nowMs w.storage
    rw [hput] at h
    exact .inl h
  | _ => exact .inl rfl

/-- A frame without page entries leaves the table as it is. -/
theorem apply_table (nowMs : Int64) {msg : SyncMessage} (hmsg : msg.entries = []) (w : World σ) :
    table (final ((apply nowMs msg).run w)) = table w := by
  refine (apply_acts nowMs msg w).keeps (I := fun w' => table w' = table w) ?_ rfl
  intro w₁ w₂ hact hI
  rcases hact.table_cases with hsame | ⟨entry, hentry, -⟩
  · exact hsame.trans hI
  · simp [hmsg] at hentry

omit [PageStore σ] [Blake3] in
theorem maybeEmitComplete_storage (w : World σ) :
    (final ((maybeEmitComplete emit).run w)).storage = w.storage := by
  rw [run_maybeEmitComplete]
  by_cases hgate : w.fsm.GateOpen
  · simp only [hgate, if_true, EStateM.run_bind, run_emit]
    cases w.sink w.calls <;> rfl
  · simp only [hgate, if_false]
    rfl

theorem handlePageData_writes (nowMs : Int64) (entry : PageDataEntry) (pages : Pages) :
    Spec (fun w : World σ => table w = pages) (handlePageData nowMs entry.pageNo entry.data)
      (fun _ w => table w = pages.write entry) (fun _ => WritesPrefix pages [entry]) := by
  have hgate : Spec (fun w : World σ => table w = pages.write entry) (maybeEmitComplete emit)
      (fun _ w => table w = pages.write entry) (fun _ => WritesPrefix pages [entry]) := by
    intro w hw
    have hstorage := maybeEmitComplete_storage w
    cases hr : (maybeEmitComplete emit).run w with
    | ok a w' =>
      rw [hr] at hstorage
      exact (congrArg PageStore.pages hstorage).trans hw
    | error e w' =>
      rw [hr] at hstorage
      exact ⟨[entry], List.prefix_refl _, (congrArg PageStore.pages hstorage).trans hw⟩
  unfold handlePageData
  refine Spec.bind (Q := fun _ w => table w = pages) (fun w hw => hw) fun _ => ?_
  refine Spec.bind (Q := fun _ w => table w = pages) (fun w hw => hw) fun _ => ?_
  refine Spec.bind (Q := fun _ w => table w = pages.write entry) ?_ fun _ => ?_
  · intro w hw
    have hput := PageStore.pages_put entry.pageNo entry.data (pageHash entry.data) nowMs w.storage
    rw [run_onStorage]
    cases hr : (SyncStorage.putPage entry.pageNo entry.data (pageHash entry.data) nowMs).run
        w.storage with
    | ok a s =>
      rw [hr] at hput
      rw [← hw]
      exact hput
    | error e s =>
      rw [hr] at hput
      exact ⟨[], List.nil_prefix, hput.trans hw⟩
  · refine Spec.bind (Q := fun _ w => table w = pages.write entry) (fun w hw => hw) fun _ => ?_
    exact Spec.bind (Q := fun _ w => table w = pages.write entry) (fun w hw => hw) fun _ => hgate

/-- The entries of a frame, taken up one after the other. -/
def writeBatch (nowMs : Int64) (entries : List PageDataEntry) : FsmM σ Unit :=
  forM entries fun entry => handlePageData nowMs entry.pageNo entry.data

/-- A batch is written entry by entry, up to the first one that fails. -/
theorem batch_writes (nowMs : Int64) (entries : List PageDataEntry) (pages : Pages) :
    Spec (fun w : World σ => table w = pages)
      (writeBatch nowMs entries)
      (fun _ w => table w = pages.replay entries) (fun _ => WritesPrefix pages entries) := by
  induction entries generalizing pages with
  | nil => exact fun w hw => hw
  | cons entry entries ih =>
    intro w hw
    have hfirst := handlePageData_writes nowMs entry pages w hw
    rw [writeBatch, List.forM_cons, EStateM.run_bind]
    cases hr : (handlePageData nowMs entry.pageNo entry.data).run w with
    | error e w' =>
      rw [hr] at hfirst
      obtain ⟨written, hinitial, htable⟩ := hfirst
      exact ⟨written, hinitial.trans ⟨entries, rfl⟩, htable⟩
    | ok a w' =>
      rw [hr] at hfirst
      have hrest := ih (pages.write entry) w' hfirst
      show Outcome _ _ ((writeBatch nowMs entries).run w')
      cases hr' : (writeBatch nowMs entries).run w' with
      | ok a w'' => rw [hr'] at hrest; exact hrest
      | error e w'' =>
        rw [hr'] at hrest
        obtain ⟨written, hinitial, htable⟩ := hrest
        exact ⟨entry :: written, List.prefix_cons_inj entry |>.mpr hinitial, htable⟩

/-- Page bytes before the handshake are refused. -/
theorem apply_entries_early (nowMs : Int64) {msg : SyncMessage} (hmsg : msg.entries ≠ [])
    {w : World σ} (hsaw : w.fsm.sawHello = false) :
    (apply nowMs msg).run w = .error "first message must be Hello" w := by
  cases msg <;> simp_all [apply, SyncMessage.entries]

/-- Page bytes after the handshake are a batch, also those of a single page. -/
theorem apply_entries (nowMs : Int64) {msg : SyncMessage} (hmsg : msg.entries ≠ [])
    {w : World σ} (hsaw : w.fsm.sawHello = true) :
    (apply nowMs msg).run w = (writeBatch nowMs msg.entries).run w := by
  cases msg <;> simp_all [apply, SyncMessage.entries, writeBatch]

/-- A call that returns has written every entry of its frame, and one that fails
a prefix of them. -/
theorem apply_writes (nowMs : Int64) (msg : SyncMessage) (pages : Pages) :
    Spec (fun w : World σ => table w = pages) (apply nowMs msg)
      (fun _ w => table w = pages.replay msg.entries)
      (fun _ => WritesPrefix pages msg.entries) := by
  intro w hw
  by_cases hentries : msg.entries = []
  · have htable := (apply_table nowMs hentries w).trans hw
    cases hr : (apply nowMs msg).run w with
    | ok a w' => rw [hr] at htable; rw [hentries]; exact htable
    | error e w' => rw [hr] at htable; exact ⟨[], List.nil_prefix, htable⟩
  · cases hsaw : w.fsm.sawHello with
    | false =>
      rw [apply_entries_early nowMs hentries hsaw]
      exact ⟨[], List.nil_prefix, hw⟩
    | true =>
      rw [apply_entries nowMs hentries hsaw]
      exact batch_writes nowMs msg.entries pages w hw

end SyncFsm

/-! ## Stores that sessions leave -/

/-- The stores that any sessions can leave. One step is a call of any session's
machine, in whatever state, with any message and any faults; so the sessions may
be hostile, may be cut at any point, and may interleave. -/
inductive ReachableStore [Blake3] : Pages → Prop
  | empty : ReachableStore ∅
  | call {w : World (Faulty InMemorySyncStorage)} (h : ReachableStore w.storage.inner)
      (nowMs : Int64) (msg : SyncMessage) :
      ReachableStore (final ((SyncFsm.apply nowMs msg).run w)).storage.inner

/-- Every row of such a store carries the digest of its bytes. -/
theorem ReachableStore.hashed [Blake3] {pages : Pages} (h : ReachableStore pages) :
    pages.Hashed := by
  induction h with
  | empty => exact Pages.Hashed.empty
  | @call w _ nowMs msg ih =>
    refine (SyncFsm.apply_acts nowMs msg w).keeps (I := fun w => (SyncFsm.table w).Hashed) ?_ ih
    intro w₁ w₂ hact hI
    rcases hact.table_cases with hsame | ⟨entry, -, hwrite⟩
    · rwa [hsame]
    · rw [hwrite]
      exact hI.write entry

/-! ## Runs of the task -/

namespace SessionTask

open SyncFsm (table WritesPrefix apply_writes)

variable {σ : Type} [PageStore σ] [Blake3]

/-- The page entries of the frames that reach the socket, in order. -/
def entries (events : List (Int64 × WebsocketEvent)) : List PageDataEntry :=
  events.flatMap fun event => event.2.entries

/-- The task leaves the table its machine left. -/
theorem step_table (task : SessionTask σ) (nowMs : Int64) (msg : SyncMessage) :
    table (task.step nowMs (.binary (.ok msg))).world =
      table (final ((SyncFsm.apply nowMs msg).run task.world)) := by
  cases hr : (SyncFsm.apply nowMs msg).run task.world with
  | ok a w =>
    simp only [step, hr, Effect.final_ok, Effect.fault_ok]
    split <;> try split
    all_goals rfl
  | error e w =>
    simp only [step, hr, Effect.final_error, Effect.fault_error]
    split <;> rfl

/-- Only a call that returned leaves the task running. -/
theorem running_step {task : SessionTask σ} {nowMs : Int64} {event : WebsocketEvent}
    (h : (task.step nowMs event).running = true) :
    ∃ msg w, event = .binary (.ok msg) ∧ (SyncFsm.apply nowMs msg).run task.world = .ok () w ∧
      task.step nowMs event = { task with world := w } ∧ w.fsm.done = false := by
  match event with
  | .text | .error | .close | .binary (.error e) => simp [step] at h
  | .binary (.ok msg) =>
    cases hr : (SyncFsm.apply nowMs msg).run task.world with
    | error e w =>
      simp only [step, hr, Effect.final_error, Effect.fault_error] at h
      split at h <;> simp at h
    | ok a w =>
      refine ⟨msg, w, rfl, hr, ?_⟩
      simp only [step, hr, Effect.final_ok, Effect.fault_ok] at h ⊢
      split at h
      · simp at h
      · split at h
        · simp at h
        · next hfailed hdone => exact ⟨by rw [if_neg hfailed, if_neg hdone], by simpa using hdone⟩

/-- A turn that leaves the task running has written every entry of its frame, and
one that ends it a prefix of them. -/
theorem step_writes (task : SessionTask σ) (nowMs : Int64) (event : WebsocketEvent) :
    ((task.step nowMs event).running = true →
      table (task.step nowMs event).world = (table task.world).replay event.entries) ∧
    WritesPrefix (table task.world) event.entries (task.step nowMs event).world := by
  refine ⟨fun hrun => ?_, ?_⟩
  · obtain ⟨msg, w, rfl, hr, hstep, -⟩ := running_step hrun
    have hcall := apply_writes nowMs msg (table task.world) task.world rfl
    rw [hr] at hcall
    rw [hstep]
    exact hcall
  · have hnone : WritesPrefix (table task.world) [] task.world := ⟨[], List.nil_prefix, rfl⟩
    match event with
    | .text | .error | .binary (.error e) => exact hnone
    | .close =>
      refine ⟨[], List.nil_prefix, ?_⟩
      show table (final (SyncFsm.clientClosed.run task.world)) = _
      rw [SyncFsm.run_clientClosed, Effect.final_ok]
      split <;> rfl
    | .binary (.ok msg) =>
      have hcall := apply_writes nowMs msg (table task.world) task.world rfl
      unfold WritesPrefix
      rw [step_table]
      cases hr : (SyncFsm.apply nowMs msg).run task.world with
      | ok a w => rw [hr] at hcall; exact ⟨msg.entries, List.prefix_refl _, hcall⟩
      | error e w => rw [hr] at hcall; exact hcall

theorem run_of_stopped {task : SessionTask σ} (h : task.running = false)
    (events : List (Int64 × WebsocketEvent)) : task.run events = task := by
  cases events <;> simp [run, h]

theorem run_writes (task : SessionTask σ) (events : List (Int64 × WebsocketEvent)) :
    ((task.run events).running = true →
      table (task.run events).world = (table task.world).replay (entries events)) ∧
    WritesPrefix (table task.world) (entries events) (task.run events).world := by
  induction events generalizing task with
  | nil => exact ⟨fun _ => rfl, [], List.nil_prefix, rfl⟩
  | cons event events ih =>
    obtain ⟨nowMs, event⟩ := event
    obtain ⟨hall, written, hinitial, htable⟩ := task.step_writes nowMs event
    have hentries : entries ((nowMs, event) :: events) = event.entries ++ entries events := rfl
    cases hrun : task.running with
    | false =>
      rw [run_of_stopped hrun]
      exact ⟨fun h => by simp [hrun] at h, [], List.nil_prefix, rfl⟩
    | true =>
      simp only [run, hrun, if_true, hentries]
      cases hnext : (task.step nowMs event).running with
      | false =>
        rw [run_of_stopped hnext]
        exact ⟨fun h => by simp [hnext] at h, written, hinitial.trans ⟨entries events, rfl⟩, htable⟩
      | true =>
        obtain ⟨hall', written', hinitial', htable'⟩ := ih (task.step nowMs event)
        rw [hall hnext, ← Pages.replay_append] at htable'
        refine ⟨fun h => ?_, event.entries ++ written', ?_, htable'⟩
        · rw [hall' h, hall hnext, Pages.replay_append]
        · exact (List.prefix_append_right_inj event.entries).mpr hinitial'

/-- What a session leaves in the store, at whatever point and for whatever reason
it ends: the store it found, with a prefix of the page entries it was fed written
over it. While it runs, that is all of them. -/
theorem push_store_after (pages : Pages) (faults : Nat → Option StoreError)
    (refuses : Nat → Bool) (events : List (Int64 × WebsocketEvent)) :
    let task := (spawn .push (Faulty.new pages faults) refuses).run events
    (task.running = true → task.world.storage.inner = pages.replay (entries events)) ∧
    ∃ written, written <+: entries events ∧ task.world.storage.inner = pages.replay written :=
  run_writes (spawn .push (Faulty.new pages faults) refuses) events

omit [Blake3] in
/-- A client that closes after its first page leaves that page in the store. -/
theorem push_not_atomic :
    letI := Blake3.onSamples
    ¬ ∀ (pages : Pages) (faults : Nat → Option StoreError) (refuses : Nat → Bool)
        (events : List (Int64 × WebsocketEvent)),
      let task := (spawn .push (Faulty.new pages faults) refuses).run events
      (∀ msgs bytes, .handed (.syncComplete msgs bytes) none ∉ task.world.history) →
        task.world.storage.inner = pages := by
  let _ := Blake3.onSamples
  intro h
  have hhistory : ((spawn .push (Faulty.new (∅ : Pages) fun _ => none) fun _ => false).run
      [(0, .binary (.ok (.hello 1 4096 2))), (0, .binary (.ok (.pageHash 1 (pageHash [1])))),
        (0, .binary (.ok (.pageData 1 [1]))), (0, .close)]).world.history =
      [.handed (.helloReply 1 4096 0) none, .handed (.requestPage 1) none, .pageData 1 [1],
        .stored 1 ⟨[1], pageHash [1]⟩] := by decide +kernel
  have hstore := h ∅ (fun _ => none) (fun _ => false) _ (by rw [hhistory]; simp)
  have hrow := congrArg (fun pages : Pages => pages[(1 : UInt32)]?) hstore
  exact absurd hrow (by decide)

end SessionTask

end EdgeReplica
