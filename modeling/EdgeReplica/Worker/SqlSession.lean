-- SUMMARY: The session of a durable object over its SQL store, scans included, is the session over the pages in memory.
import EdgeReplica.Services.SqlSyncStorage
import EdgeReplica.Worker.ScanSession

/-!
# Sessions over the SQL store

`SqlSyncStorage` overrides both scans of the trait with a single query each. Whatever
arrives, whatever the socket refuses and whatever the table holds, its session does frame
by frame what a session over the pages in memory does with the loops of the trait.
-/

namespace EdgeReplica

open Effect (seen)

namespace SqlSyncStorage

instance : ScanStorage SqlSyncStorage where
  combinedHash := combinedHash
  iterPagesInRange := iterPagesInRange

/-! ## The scans do what the loops do -/

/-- Reading a row changes nothing. -/
theorem run_getPageHash (p : UInt32) (sql : SqlSyncStorage) :
    (SyncStorage.getPageHash p : StoreM SqlSyncStorage (Option Bytes)).run sql =
      .ok ((sql.pages[p]?).map Page.hash) sql := by
  show EStateM.Result.ok ((sql.row? p).map PageRow.hash) sql = _
  rw [getElem?_pages, Option.map_map]
  rfl

theorem run_getPage (p : UInt32) (sql : SqlSyncStorage) :
    (SyncStorage.getPage p : StoreM SqlSyncStorage (Option Bytes)).run sql =
      .ok ((sql.pages[p]?).map Page.data) sql := by
  show EStateM.Result.ok ((sql.row? p).map PageRow.data) sql = _
  rw [getElem?_pages, Option.map_map]
  rfl

theorem combinedHash_eq [Blake3] (start stop : UInt32) :
    SqlSyncStorage.combinedHash start stop = SyncStorage.combinedHash start stop := by
  funext sql
  have hloop : (SyncStorage.combinedHash start stop : StoreM SqlSyncStorage Bytes).run sql =
      .ok (sql.pages.combinedHash start stop) sql := by
    unfold SyncStorage.combinedHash
    rw [EStateM.run_bind,
      Effect.run_foldlM_append fun p => ((sql.pages[p]?).map Page.hash).getD []]
    · rfl
    · intro hasher p
      rw [EStateM.run_bind, run_getPageHash]
      cases (sql.pages[p]?).map Page.hash with
      | none => simp [EStateM.run_pure]
      | some h => rfl
  exact (sql.run_combinedHash start stop).trans hloop.symm

/-- The trait's loop over the table, which its queries leave as it is. -/
theorem run_loop {τ : Type} (emit : UInt32 → Bytes → EStateM StoreError τ Unit)
    (sql : SqlSyncStorage) (start stop : UInt32) (t : τ) :
    (SyncStorage.iterPagesInRange start stop emit).run (sql, t) =
      seen (Prod.mk sql)
        ((forM (sql.pages.inRange start stop) fun found => emit found.1 found.2.data).run t) := by
  unfold SyncStorage.iterPagesInRange Pages.inRange
  induction pageRange start stop generalizing t with
  | nil => rfl
  | cons p rest ih =>
    rw [List.forM_cons, EStateM.run_bind, EStateM.run_bind, Effect.run_onFst, run_getPage,
      List.filterMap_cons]
    cases sql.pages[p]? with
    | none => exact ih t
    | some page =>
      simp only [Option.map_some, Effect.run_onSnd, List.forM_cons, EStateM.run_bind]
      cases (emit p page.data).run t with
      | ok _ t' => exact ih t'
      | error e t' => rfl

theorem iterPagesInRange_eq {τ : Type} (start stop : UInt32)
    (emit : UInt32 → Bytes → EStateM StoreError τ Unit) :
    SqlSyncStorage.iterPagesInRange start stop emit =
      SyncStorage.iterPagesInRange start stop emit := by
  funext ⟨sql, t⟩
  exact (sql.run_iterPagesInRange emit start stop t).trans (run_loop emit sql start stop t).symm

/-! ## The session -/

variable [Blake3]

theorem scanFsm_apply_eq (nowMs : Int64) (msg : SyncMessage) :
    (ScanFsm.apply nowMs msg : FsmM SqlSyncStorage Unit) = SyncFsm.apply nowMs msg :=
  ScanFsm.apply_eq combinedHash_eq (fun start stop => iterPagesInRange_eq start stop _) nowMs msg

/-- Whatever rows the table holds, whatever arrives and whatever the socket refuses, the
session over the table hands over the frames, closes as and ends in the machine of the
session over the pages in memory, and the rows it leaves are the pages that one leaves. -/
theorem sql_session_refines (direction : Direction) (sql : SqlSyncStorage)
    (refuses : Nat → Bool) (events : List (Int64 × WebsocketEvent)) :
    let table := ScanSession.run (.spawn direction sql refuses) events
    let memory := (SessionTask.spawn direction sql.pages refuses).run events
    table.world.history = memory.world.history ∧
      table.running = memory.running ∧
      table.closed = memory.closed ∧
      table.world.fsm = memory.world.fsm ∧
      ∀ p, (table.world.storage.row? p).map toPage = memory.world.storage[p]? := by
  intro table memory
  have hview : table.view = memory := by
    show (ScanSession.run _ events).view = _
    rw [ScanSession.run_eq scanFsm_apply_eq, ← SessionTask.run_view, SessionTask.view_spawn]
    rfl
  rw [← hview]
  exact ⟨rfl, rfl, rfl, rfl, fun p => (getElem?_pages table.world.storage p).symm⟩

end SqlSyncStorage

end EdgeReplica
