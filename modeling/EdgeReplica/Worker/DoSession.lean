-- SUMMARY: A session of an object whose database is in order does what the session over the pages in memory does.
import EdgeReplica.Worker.DoMigrations
import EdgeReplica.Worker.MappedSession
import EdgeReplica.Worker.SqlSession

/-!
# Sessions of an object

Between a session and its pages stand a schema and a runtime that may raise faults. Past
the migrations, and with no more faults, neither shows: the session does what it would do
over the rows alone, and so what it would do over pages in memory.
-/

namespace EdgeReplica

open DoMigrations (Migrated Quiet)
open Effect (RefinesOn onFst onSnd)

namespace SqlStorage

/-- The table of the pages exists, and the runtime raises no more faults. -/
structure InOrder (sql : SqlStorage) : Prop where
  has : sql.has "pages" = true
  quiet : Quiet sql

theorem inOrder_of_migrated {sql : SqlStorage} (h : Migrated sql) (hquiet : Quiet sql) :
    InOrder sql :=
  ⟨DoMigrations.has_iff.mpr ⟨DoMigrations.schema[1], h _ (by decide), rfl⟩, hquiet⟩

variable {sql : SqlStorage}

theorem InOrder.later (h : InOrder sql) {sql' : SqlStorage} (hlater : Later sql sql') :
    InOrder sql' := by
  refine ⟨?_, h.quiet.mono hlater.faults hlater.calls⟩
  rw [hlater.same]
  exact h.has

/-! ## Calls that succeed -/

theorem InOrder.run_query {α : Type} (h : InOrder sql) (label : String) (f : SqlStorage → α) :
    (labelled label (exec "pages" do return f (← get))).run sql =
      .ok (f { sql with calls := sql.calls + 1 }) { sql with calls := sql.calls + 1 } := by
  rw [Effect.run_adaptExcept, run_exec, h.quiet _ (Nat.le_refl _), h.has]
  rfl

theorem InOrder.run_decode (h : InOrder sql) (label : String) :
    (decode label).run sql = .ok () { sql with calls := sql.calls + 1 } := by
  unfold decode
  rw [Effect.run_adaptExcept, run_attempt, h.quiet _ (Nat.le_refl _)]

/-- A call that reads, and answers what the rows alone do. -/
theorem maps_of_reading {α : Type} {m : StoreM SqlStorage α} {m' : StoreM SqlSyncStorage α}
    (hm : Reading m) (hrun : ∀ sql, InOrder sql → ∃ a sql', m.run sql = .ok a sql' ∧
      m'.run sql.rows = .ok a sql.rows) :
    RefinesOn InOrder rows m m' := by
  intro sql h
  obtain ⟨a, sql', hr, hr'⟩ := hrun sql h
  have hlater := hm sql
  rw [hr] at hlater
  have hrows : sql'.rows = sql.rows := hlater.rows
  rw [hr, hr', Effect.seen_ok, hrows]
  exact ⟨rfl, h.later hlater⟩

theorem InOrder.run_firstBlob (h : InOrder sql) (label : String) (p : UInt32)
    (pick : PageRow → Bytes) :
    ∃ sql', (firstBlob label p pick).run sql = .ok ((sql.rows.row? p).map pick) sql' := by
  unfold firstBlob
  rw [EStateM.run_bind, h.run_query label fun sql => sql.rows.row? p]
  dsimp only
  cases sql.rows.row? p with
  | none => exact ⟨_, rfl⟩
  | some row =>
    rw [EStateM.run_bind, (h.later (Later.next sql)).run_decode]
    exact ⟨_, rfl⟩

theorem InOrder.run_scan (h : InOrder sql) (label : String) (start stop : UInt32) :
    (scan label start stop).run sql =
      .ok (sql.rows.scan start stop) { sql with calls := sql.calls + 1 } :=
  h.run_query label fun sql => sql.rows.scan start stop

theorem InOrder.run_hasher (rows : List PageRow) (hasher : Bytes) (h : InOrder sql) :
    ∃ sql', (rows.foldlM (fun (hasher : Bytes) (row : PageRow) => do
        decode "hash"
        return hasher ++ row.hash) hasher).run sql =
      .ok (rows.foldl (fun hasher row => hasher ++ row.hash) hasher) sql' := by
  induction rows generalizing hasher sql with
  | nil => exact ⟨sql, rfl⟩
  | cons row rows ih =>
    rw [List.foldlM_cons, EStateM.run_bind, EStateM.run_bind, h.run_decode]
    exact ih (hasher ++ row.hash) (h.later (Later.next sql))

/-- The cursor over these rows. -/
theorem maps_cursor {τ : Type} (emit : UInt32 → Bytes → EStateM StoreError τ Unit)
    (found : List PageRow) :
    RefinesOn (fun s : SqlStorage × τ => InOrder s.1) (Prod.map rows id)
      (forM found fun (row : PageRow) => do
        onFst (decode "page")
        onSnd (emit (asU32 (max row.pageNo 0)) row.data))
      (forM found fun (row : PageRow) => onSnd (emit (asU32 (max row.pageNo 0)) row.data)) := by
  refine RefinesOn.forM fun row => ?_
  rintro ⟨sql, t⟩ h
  rw [EStateM.run_bind, Effect.run_onFst, InOrder.run_decode h]
  simp only [Effect.run_onSnd, Prod.map, id_eq]
  have hnext : InOrder { sql with calls := sql.calls + 1 } := InOrder.later h (Later.next sql)
  cases (emit (asU32 (max row.pageNo 0)) row.data).run t <;> exact ⟨rfl, hnext⟩

/-- In order, the database answers what its rows alone do. -/
theorem maps_rows : ScanStorage.Maps InOrder rows where
  getPageHash p := maps_of_reading (firstBlob_reading _ p _) fun sql h =>
    let ⟨sql', hr⟩ := h.run_firstBlob "get_page_hash" p PageRow.hash
    ⟨_, sql', hr, rfl⟩
  getPage p := maps_of_reading (firstBlob_reading _ p _) fun sql h =>
    let ⟨sql', hr⟩ := h.run_firstBlob "get_page" p PageRow.data
    ⟨_, sql', hr, rfl⟩
  putPage p data hash nowMs := by
    intro sql h
    have hput : (putPage p data hash nowMs).run sql =
        .ok () { sql with rows := sql.rows.put p data hash nowMs, calls := sql.calls + 1 } := by
      unfold putPage
      rw [Effect.run_adaptExcept, run_exec, h.quiet _ (Nat.le_refl _), h.has]
      rfl
    rw [show (SyncStorage.putPage p data hash nowMs).run sql = _ from hput]
    exact ⟨rfl, h.has, h.quiet.mono rfl (Nat.le_succ _)⟩
  maxPage := by
    refine maps_of_reading maxPage_reading fun sql h => ?_
    refine ⟨asU32 (max ((sql.rows.table.maxKey.map Int64.ofInt).getD 0) 0),
      { sql with calls := sql.calls + 1 + 1 }, ?_, rfl⟩
    show (maxPage).run sql = _
    unfold maxPage
    rw [EStateM.run_bind, h.run_query _ fun sql => sql.rows.table.maxKey.map Int64.ofInt]
    dsimp only
    rw [EStateM.run_bind, (h.later (Later.next sql)).run_decode]
    rfl
  combinedHash start stop := by
    refine maps_of_reading (combinedHash_reading start stop) fun sql h => ?_
    obtain ⟨sql', hr⟩ := InOrder.run_hasher (sql.rows.scan start stop) [] (h.later (Later.next sql))
    refine ⟨_, sql', ?_, rfl⟩
    show (combinedHash start stop).run sql = _
    unfold combinedHash
    rw [EStateM.run_bind, h.run_scan]
    dsimp only
    rw [EStateM.run_bind, hr]
    rfl
  iterPagesInRange start stop emit := by
    rintro ⟨sql, t⟩ h
    obtain ⟨hrun, hI⟩ := maps_cursor emit (sql.rows.scan start stop)
      ({ sql with calls := sql.calls + 1 }, t) (InOrder.later h (Later.next sql))
    have hstart : (iterPagesInRange start stop emit).run (sql, t) =
        (forM (sql.rows.scan start stop) fun (row : PageRow) => do
          onFst (decode "page")
          onSnd (emit (asU32 (max row.pageNo 0)) row.data)).run
            ({ sql with calls := sql.calls + 1 }, t) := by
      unfold iterPagesInRange
      rw [EStateM.run_bind, Effect.run_onFst, InOrder.run_scan h]
    rw [show (ScanStorage.iterPagesInRange start stop emit).run (sql, t) = _ from hstart]
    exact ⟨hrun, hI⟩

section

variable [Blake3]

/-- A turn of a session on an object in order, seen through its pages. -/
theorem view_step (task : SessionTask SqlStorage) (h : InOrder task.world.storage) (nowMs : Int64)
    (event : WebsocketEvent) :
    (task.mapStorage rows).view.step nowMs event =
      ((ScanSession.step task nowMs event).mapStorage rows).view ∧
      InOrder (ScanSession.step task nowMs event).world.storage := by
  obtain ⟨hmap, hI⟩ := ScanSession.step_map maps_rows task nowMs event h
  rw [← hmap, ScanSession.step_eq SqlSyncStorage.scanFsm_apply_eq, SessionTask.step_view]
  exact ⟨rfl, hI⟩

/-- The session of an object in order, seen through its pages. -/
theorem view_run (h : InOrder sql) (direction : Direction) (refuses : Nat → Bool)
    (events : List (Int64 × WebsocketEvent)) :
    ((ScanSession.run (.spawn direction sql refuses) events).mapStorage rows).view =
      (SessionTask.spawn direction sql.rows.pages refuses).run events := by
  obtain ⟨hmap, -⟩ := ScanSession.run_map maps_rows (.spawn direction sql refuses) events h
  rw [← hmap, ScanSession.run_eq SqlSyncStorage.scanFsm_apply_eq, ← SessionTask.run_view]
  rfl

/-- Past its migrations, and with no more faults of its runtime, the session of an object
hands over the frames, closes as and ends in the machine of the session over the pages in
memory, and leaves the pages that one leaves. -/
theorem object_session_refines (direction : Direction) (sql : SqlStorage)
    (hmigrated : Migrated sql) (hquiet : Quiet sql) (refuses : Nat → Bool)
    (events : List (Int64 × WebsocketEvent)) :
    let object := ScanSession.run (.spawn direction sql refuses) events
    let memory := (SessionTask.spawn direction sql.rows.pages refuses).run events
    object.world.history = memory.world.history ∧
      object.running = memory.running ∧
      object.closed = memory.closed ∧
      object.world.fsm = memory.world.fsm ∧
      object.world.storage.rows.pages = memory.world.storage := by
  intro object memory
  have hview : (object.mapStorage rows).view = memory :=
    view_run (inOrder_of_migrated hmigrated hquiet) direction refuses events
  rw [← hview]
  exact ⟨rfl, rfl, rfl, rfl, rfl⟩

end

def sampleDatabase : SqlStorage where
  tables := DoMigrations.schema
  faults _ := none

/-- A client claims a page, uploads it when it is asked for it, and is done. -/
def samplePush : List (Int64 × WebsocketEvent) :=
  [(0, .binary (.ok (.hello 1 4096 7))), (0, .binary (.ok (.pageHash 7 [1]))),
    (0, .binary (.ok (.complete))), (0, .binary (.ok (.pageData 7 [1])))]

theorem object_session_refines_sample :
    letI := Blake3.onSamples
    (ScanSession.run (.spawn .push sampleDatabase fun _ => false) samplePush).sent =
      [.helloReply 1 4096 0, .requestPage 7, .syncComplete 1 1] := by
  have hhistory := (@object_session_refines Blake3.onSamples .push sampleDatabase (fun _ h => h)
    (fun _ _ => rfl) (fun _ => false) samplePush).1
  unfold SessionTask.sent
  rw [hhistory]
  decide +kernel

end SqlStorage

end EdgeReplica
