-- SUMMARY: What a pull session leaves in the page store: exactly when it stays as it was.
import EdgeReplica.Services.CompletionGate
import EdgeReplica.Worker.PageWrites

/-!
# Page writes of a pull session

No handler of page bytes looks at the direction, so a pull session writes the
page entries it is fed like a push session does. Its store stays as it was
exactly when those entries repeat the rows it began with.
-/

namespace EdgeReplica

namespace Pages

variable [Blake3]

/-- The store holds what the entries leave: for every page they name, the last of
its entries has the row of the store. -/
def Repeats (pages : Pages) : List PageDataEntry → Prop
  | [] => True
  | entry :: entries =>
    (entry.pageNo ∈ entries.map PageDataEntry.pageNo ∨
      pages[entry.pageNo]? = some ⟨entry.data, pageHash entry.data⟩) ∧ Repeats pages entries

/-- Whatever the entries are written over, the pages they name end as in `pages`
exactly when `pages` repeats them. -/
theorem replay_agrees_iff {pages : Pages} (start : Pages) (entries : List PageDataEntry) :
    (∀ p ∈ entries.map PageDataEntry.pageNo, (start.replay entries)[p]? = pages[p]?) ↔
      pages.Repeats entries := by
  induction entries generalizing start with
  | nil => simp [Repeats]
  | cons entry entries ih =>
    have hlast : entry.pageNo ∉ entries.map PageDataEntry.pageNo →
        (start.replay (entry :: entries))[entry.pageNo]? =
          some ⟨entry.data, pageHash entry.data⟩ := by
      intro hmem
      rw [replay_cons, getElem?_replay_of_notMem _ hmem, getElem?_write, if_pos rfl]
    rw [List.map_cons, List.forall_mem_cons, Repeats, replay_cons, ih]
    rw [replay_cons] at hlast
    constructor
    · rintro ⟨hfirst, hrest⟩
      refine ⟨?_, hrest⟩
      by_cases hmem : entry.pageNo ∈ entries.map PageDataEntry.pageNo
      · exact .inl hmem
      · exact .inr (hfirst.symm.trans (hlast hmem))
    · rintro ⟨hfirst, hrest⟩
      refine ⟨?_, hrest⟩
      by_cases hmem : entry.pageNo ∈ entries.map PageDataEntry.pageNo
      · exact (ih _).mpr hrest _ hmem
      · exact (hlast hmem).trans (hfirst.resolve_left hmem).symm

theorem replay_eq_self_iff {pages : Pages} {entries : List PageDataEntry} :
    pages.replay entries = pages ↔ pages.Repeats entries := by
  rw [← replay_agrees_iff pages]
  constructor
  · intro h p _
    rw [h]
  · intro h
    refine Std.ExtTreeMap.ext_getElem? fun {p} => ?_
    by_cases hmem : p ∈ entries.map PageDataEntry.pageNo
    · exact h p hmem
    · exact pages.getElem?_replay_of_notMem hmem

end Pages

namespace SyncFsm

/-- What a pull session keeps while its task runs: it awaits no page, and the
client's hash phase is not over. -/
structure Pulling (w : World InMemorySyncStorage) : Prop where
  direction : w.fsm.direction = .pull
  pending : w.fsm.pendingRequests = ∅
  hashing : w.fsm.completedHashPhase = false

variable [Blake3]

theorem Act.pending_of_pull {msg : SyncMessage} {w w' : World InMemorySyncStorage}
    (h : Act msg w w') (hpull : w.fsm.direction = .pull ∧ w.fsm.pendingRequests = ∅) :
    w'.fsm.direction = .pull ∧ w'.fsm.pendingRequests = ∅ := by
  refine ⟨h.direction.trans hpull.1, ?_⟩
  cases h with
  | request _ hdir _ => simp [hpull.1] at hdir
  | take _ _ => simp [hpull.2]
  | _ => exact hpull.2

/-- A call that returns without completing the session keeps it pulling: taking
up `Complete` would have passed the gate. -/
theorem Pulling.apply {nowMs : Int64} {msg : SyncMessage} {w w' : World InMemorySyncStorage}
    (h : Pulling w) (hrun : (apply nowMs msg).run w = .ok () w') (hdone : w'.fsm.done = false) :
    Pulling w' := by
  have hshut : Shut w.fsm := fun hopen => by simpa [h.hashing] using hopen.2.1
  have hret := apply_returns nowMs msg w hshut
  have hkeep := (apply_acts nowMs msg w).keeps (fun _ _ hact => hact.pending_of_pull)
    ⟨h.direction, h.pending⟩
  rw [hrun] at hret hkeep
  refine ⟨hkeep.1, hkeep.2, ?_⟩
  cases hc : w'.fsm.completedHashPhase with
  | false => rfl
  | true => exact absurd ⟨hdone, hc, hkeep.2⟩ hret

/-- Before the hash phase is over a batch is written whole. -/
theorem writeBatch_early (nowMs : Int64) (entries : List PageDataEntry)
    {w : World InMemorySyncStorage} (h : w.fsm.completedHashPhase = false) :
    ∃ w', (writeBatch nowMs entries).run w = .ok () w' := by
  induction entries generalizing w with
  | nil => exact ⟨w, rfl⟩
  | cons entry entries ih =>
    rw [writeBatch, List.forM_cons, EStateM.run_bind, run_handlePageData_early w nowMs entry h]
    exact ih (w := taken entry w) h

end SyncFsm

namespace SessionTask

open SyncFsm (table Pulling)

variable [Blake3]

theorem pulling_step {task : SessionTask InMemorySyncStorage} {nowMs : Int64}
    {event : WebsocketEvent} (h : Pulling task.world)
    (hrun : (task.step nowMs event).running = true) : Pulling (task.step nowMs event).world := by
  obtain ⟨msg, w, rfl, hr, hstep, hdone⟩ := running_step hrun
  rw [hstep]
  exact h.apply hr hdone

/-- A turn of a pull session writes the page entries it is fed, once the handshake
is over. -/
theorem pulling_step_table {task : SessionTask InMemorySyncStorage} (h : Pulling task.world)
    (nowMs : Int64) (event : WebsocketEvent) :
    table (task.step nowMs event).world =
      if task.world.fsm.sawHello then (table task.world).replay event.entries
      else table task.world := by
  by_cases hentries : event.entries = []
  · obtain ⟨-, written, hinitial, htable⟩ := task.step_writes nowMs event
    rw [hentries, List.prefix_nil] at hinitial
    rw [htable, hinitial, hentries]
    simp
  · match event with
    | .text | .error | .close | .binary (.error _) => exact absurd rfl hentries
    | .binary (.ok msg) =>
      rw [step_table]
      cases hsaw : task.world.fsm.sawHello with
      | false =>
        rw [SyncFsm.apply_entries_early nowMs hentries hsaw]
        rfl
      | true =>
        have hcall := SyncFsm.apply_writes nowMs msg (table task.world) task.world rfl
        obtain ⟨w, hw⟩ := SyncFsm.writeBatch_early nowMs msg.entries h.hashing
        rw [SyncFsm.apply_entries nowMs hentries hsaw, hw] at hcall ⊢
        exact hcall

/-- Whenever the running task is fed a frame after the handshake, the frame has no
page entries, or only ones that `pages` repeats. -/
def Harmless (pages : Pages) (task : SessionTask InMemorySyncStorage) :
    List (Int64 × WebsocketEvent) → Prop
  | [] => True
  | (nowMs, event) :: events =>
    task.running = true →
      (task.world.fsm.sawHello = true → pages.Repeats event.entries) ∧
      Harmless pages (task.step nowMs event) events

theorem table_run_iff {task : SessionTask InMemorySyncStorage}
    (h : task.running = true → Pulling task.world) (events : List (Int64 × WebsocketEvent)) :
    (∀ before, before <+: events → table (task.run before).world = table task.world) ↔
      Harmless (table task.world) task events := by
  induction events generalizing task with
  | nil =>
    refine ⟨fun _ => trivial, fun _ before hbefore => ?_⟩
    rw [List.prefix_nil.mp hbefore]
    rfl
  | cons event events ih =>
    obtain ⟨nowMs, event⟩ := event
    cases hrun : task.running with
    | false =>
      refine ⟨fun _ h => by simp [hrun] at h, fun _ before _ => ?_⟩
      rw [run_of_stopped hrun]
    | true =>
      have hpull := h hrun
      have hnext := @ih (task.step nowMs event) (pulling_step hpull)
      have htable := pulling_step_table hpull nowMs event
      have hcons : ∀ before, task.run ((nowMs, event) :: before) =
          (task.step nowMs event).run before := fun before => by simp only [run, hrun, if_true]
      constructor
      · intro hsame _
        have hone : table (task.step nowMs event).world = table task.world := by
          have h := hsame [(nowMs, event)] (List.prefix_append [_] events)
          rwa [hcons] at h
        rw [hone] at hnext
        refine ⟨fun hsaw => ?_, hnext.mp fun before hbefore => ?_⟩
        · rw [htable, if_pos hsaw] at hone
          exact Pages.replay_eq_self_iff.mp hone
        · rw [← hcons]
          exact hsame _ (List.prefix_cons_inj _ |>.mpr hbefore)
      · intro hharm before hbefore
        obtain ⟨hfirst, hrest⟩ := hharm hrun
        have hone : table (task.step nowMs event).world = table task.world := by
          rw [htable]
          split
          · next hsaw => exact Pages.replay_eq_self_iff.mpr (hfirst hsaw)
          · rfl
        rw [hone] at hnext
        rcases before with _ | ⟨first, before⟩
        · rfl
        · obtain ⟨rfl, hrestBefore⟩ := List.cons_prefix_cons.mp hbefore
          rw [hcons, hnext.mpr hrest before hrestBefore]

/-- A pull session leaves its store as it was, at every point of its run, exactly
when the page entries it is fed repeat the rows the store began with. -/
theorem pull_store_iff (pages : Pages) (refuses : Nat → Bool)
    (events : List (Int64 × WebsocketEvent)) :
    let task := spawn .pull pages refuses
    (∀ before, before <+: events → (task.run before).world.storage = pages) ↔
      Harmless pages task events :=
  table_run_iff (fun _ => ⟨rfl, rfl, rfl⟩) events

omit [Blake3] in
/-- Page bytes sent to a pull session are written. -/
theorem pull_writes :
    letI := Blake3.onSamples
    ¬ ∀ (pages : Pages) (refuses : Nat → Bool) (events : List (Int64 × WebsocketEvent)),
      ((spawn .pull pages refuses).run events).world.storage = pages := by
  let _ := Blake3.onSamples
  intro h
  have hstore := h ∅ (fun _ => false)
    [(0, .binary (.ok (.hello 1 4096 0))), (0, .binary (.ok (.pageData 1 [1])))]
  have hrow := congrArg (fun pages : Pages => pages[(1 : UInt32)]?) hstore
  exact absurd hrow (by decide)

end SessionTask

end EdgeReplica
