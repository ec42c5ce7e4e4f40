-- SUMMARY: The SQL page store of the durable object: its statements, and that it does what the in-memory one does.
import EdgeReplica.Lib.KeyedTable
import EdgeReplica.Services.LawfulStorage

/-!
# The SQL page store

Pages are rows of a table keyed by `page_no`, a signed 64-bit column. Two of the
trait's methods are single scans here. Whatever was put, every call agrees with the
in-memory storage, and the scans with the page by page loops of the trait.
-/

namespace EdgeReplica

open Effect (Refines seen onSnd)

/-! ## Columns -/

/-- `page_no as i64`. -/
def asI64 (pageNo : UInt32) : Int64 := Int64.ofNat pageNo.toNat

/-- `k as u32`: the low bits. -/
def asU32 (k : Int64) : UInt32 := k.toUInt64.toUInt32

theorem toInt_asI64 (p : UInt32) : (asI64 p).toInt = p.toNat := by
  have hp := p.toNat_lt
  rw [asI64, ← Int64.ofInt_eq_ofNat, Int64.toInt_ofInt_of_le] <;> omega

theorem asU32_asI64 (p : UInt32) : asU32 (asI64 p) = p := by
  rw [asU32, asI64, Int64.toUInt64_ofNat', UInt64.toUInt32_ofNat', UInt32.ofNat_toNat]

theorem max_asI64 (p : UInt32) : max (asI64 p) 0 = asI64 p := by
  show (if asI64 p ≤ 0 then 0 else asI64 p) = asI64 p
  split
  · next hle =>
    rw [Int64.le_iff_toInt_le, toInt_asI64] at hle
    have hzero : p.toNat = 0 := by simpa using hle
    rw [asI64, hzero]
    rfl
  · rfl

/-! ## The table -/

/-- A row of `pages`. -/
structure PageRow where
  pageNo : Int64
  data : Bytes
  hash : Bytes
  updatedAtMs : Int64
deriving DecidableEq, Repr

/-- The primary key, as SQL orders it. -/
def PageRow.key (row : PageRow) : Int := row.pageNo.toInt

/-- The table `pages`, in which every row was put under some page number. -/
structure SqlSyncStorage where
  table : Sql.KeyedTable PageRow Int PageRow.key
  written : ∀ row ∈ table.rows, ∃ p, row.pageNo = asI64 p

namespace SqlSyncStorage

def empty : SqlSyncStorage := ⟨.empty, nofun⟩

/-- The blob that `pick` takes from the row of the page, if there is one. -/
def firstBlob (pageNo : UInt32) (pick : PageRow → Bytes) :
    StoreM SqlSyncStorage (Option Bytes) := do
  let sql ← get
  return (sql.table.lookup (asI64 pageNo).toInt).map pick

def getPageHash (pageNo : UInt32) : StoreM SqlSyncStorage (Option Bytes) :=
  firstBlob pageNo PageRow.hash

def getPage (pageNo : UInt32) : StoreM SqlSyncStorage (Option Bytes) :=
  firstBlob pageNo PageRow.data

/-- The table with the row of a page put in place. -/
def put (pageNo : UInt32) (data hash : Bytes) (nowMs : Int64) (sql : SqlSyncStorage) :
    SqlSyncStorage where
  table := sql.table.insertOrReplace ⟨asI64 pageNo, data, hash, nowMs⟩
  written row hrow := by
    rcases Sql.KeyedTable.mem_insertOrReplace.mp hrow with ⟨hold, -⟩ | rfl
    · exact sql.written row hold
    · exact ⟨pageNo, rfl⟩

def putPage (pageNo : UInt32) (data hash : Bytes) (nowMs : Int64) : StoreM SqlSyncStorage Unit :=
  modify (put pageNo data hash nowMs)

def maxPage : StoreM SqlSyncStorage UInt32 := do
  let sql ← get
  let v := sql.table.maxKey.map Int64.ofInt
  return asU32 (max (v.getD 0) 0)

/-- The rows `WHERE page_no BETWEEN start AND stop ORDER BY page_no`. -/
def scan (start stop : UInt32) (sql : SqlSyncStorage) : List PageRow :=
  sql.table.between (asI64 start).toInt (asI64 stop).toInt

/-- A single range scan in place of the trait's loop. -/
def combinedHash [Blake3] (start stop : UInt32) : StoreM SqlSyncStorage Bytes := do
  let sql ← get
  let hasher := (sql.scan start stop).foldl (fun hasher row => hasher ++ row.hash) []
  return Blake3.hash hasher

/-- A single cursor in place of the trait's loop. -/
def iterPagesInRange {τ : Type} (start stop : UInt32)
    (emit : UInt32 → Bytes → EStateM StoreError τ Unit) :
    EStateM StoreError (SqlSyncStorage × τ) Unit := do
  let s ← get
  forM (s.1.scan start stop) fun row => onSnd (emit (asU32 (max row.pageNo 0)) row.data)

instance : SyncStorage SqlSyncStorage where
  getPageHash := getPageHash
  getPage := getPage
  putPage := putPage
  maxPage := maxPage

/-! ## The pages it holds -/

variable {sql : SqlSyncStorage}

/-- The row of a page, by its number. -/
def row? (p : UInt32) (sql : SqlSyncStorage) : Option PageRow :=
  sql.table.lookup (asI64 p).toInt

theorem row?_eq_some {p : UInt32} {row : PageRow} :
    sql.row? p = some row ↔ row ∈ sql.table.rows ∧ row.pageNo = asI64 p := by
  rw [row?, Sql.KeyedTable.lookup_eq_some, PageRow.key, Int64.toInt_inj]

theorem row?_put (pageNo : UInt32) (data hash : Bytes) (nowMs : Int64) (p : UInt32) :
    (sql.put pageNo data hash nowMs).row? p =
      if pageNo = p then some ⟨asI64 pageNo, data, hash, nowMs⟩ else sql.row? p := by
  have hkey : (asI64 p).toInt = PageRow.key ⟨asI64 pageNo, data, hash, nowMs⟩ ↔ pageNo = p := by
    rw [PageRow.key, toInt_asI64, toInt_asI64, Int.ofNat_inj, UInt32.toNat_inj, eq_comm]
  rw [row?, put, Sql.KeyedTable.lookup_insertOrReplace]
  simp only [hkey]
  rfl

/-- A range scan visits the pages of the range in ascending order, as far as there
are rows. -/
theorem scan_eq (start stop : UInt32) (sql : SqlSyncStorage) :
    sql.scan start stop = (pageRange start stop).filterMap fun p => sql.row? p := by
  have hwalk : (pageRange start stop).filterMap (fun p => sql.row? p) =
      ((pageRange start stop).map fun p => (asI64 p).toInt).filterMap
        fun k => sql.table.lookup k := by
    rw [List.filterMap_map]
    rfl
  rw [scan, hwalk]
  refine Sql.KeyedTable.between_eq_filterMap ?_ ?_
  · refine List.pairwise_map.mpr ((pageRange_ascending start stop).imp ?_)
    intro p q hlt
    rw [toInt_asI64, toInt_asI64, Int.ofNat_lt]
    exact UInt32.lt_iff_toNat_lt.mp hlt
  · intro row hrow
    obtain ⟨p, hp⟩ := sql.written row hrow
    have hmem : row.key ∈ (pageRange start stop).map (fun p => (asI64 p).toInt) ↔
        p ∈ pageRange start stop := by
      rw [PageRow.key, hp, List.mem_map]
      constructor
      · rintro ⟨q, hq, heq⟩
        rw [toInt_asI64, toInt_asI64, Int.ofNat_inj, UInt32.toNat_inj] at heq
        exact heq ▸ hq
      · exact fun hmem => ⟨p, hmem, rfl⟩
    rw [hmem, mem_pageRange, PageRow.key, hp, toInt_asI64, toInt_asI64, toInt_asI64, Int.ofNat_le,
      Int.ofNat_le, UInt32.le_iff_toNat_le, UInt32.le_iff_toNat_le]

/-- What the store keeps of a row beside its number. -/
def toPage (row : PageRow) : Page := ⟨row.data, row.hash⟩

/-- The pages as the in-memory storage keeps them. -/
def pages (sql : SqlSyncStorage) : Pages :=
  .ofList (sql.table.rows.map fun row => (asU32 row.pageNo, toPage row))

theorem getElem?_pages (sql : SqlSyncStorage) (p : UInt32) :
    sql.pages[p]? = (sql.row? p).map toPage := by
  unfold pages
  cases hfound : sql.row? p with
  | some row =>
    obtain ⟨hrow, hp⟩ := row?_eq_some.mp hfound
    refine Std.ExtTreeMap.getElem?_ofList_of_mem (k := p) Std.ReflCmp.compare_self ?_ ?_
    · rw [List.pairwise_map]
      refine (List.pairwise_map.mp sql.table.nodup).imp_of_mem ?_
      intro row row' hrow hrow' hne heq
      obtain ⟨q, hq⟩ := sql.written row hrow
      obtain ⟨q', hq'⟩ := sql.written row' hrow'
      have hsame : q = q' := by
        simpa only [hq, hq', asU32_asI64] using Std.LawfulEqCmp.eq_of_compare heq
      exact hne (by rw [PageRow.key, PageRow.key, hq, hq', hsame])
    · refine List.mem_map.mpr ⟨row, hrow, ?_⟩
      rw [hp, asU32_asI64]
  | none =>
    refine Std.ExtTreeMap.getElem?_ofList_of_contains_eq_false (Bool.eq_false_iff.mpr ?_)
    intro hcontains
    rw [List.contains_iff_mem, List.map_map] at hcontains
    obtain ⟨row, hrow, hp⟩ := List.mem_map.mp hcontains
    obtain ⟨q, hq⟩ := sql.written row hrow
    have hsame : q = p := by simpa only [Function.comp, hq, asU32_asI64] using hp
    rw [row?_eq_some.mpr ⟨hrow, hsame ▸ hq⟩] at hfound
    cases hfound

/-- The highest key is that of the last page. -/
theorem maxKey_eq (sql : SqlSyncStorage) :
    sql.table.maxKey = sql.pages.maxKey?.map fun p => (asI64 p).toInt := by
  have hmem : ∀ p, p ∈ sql.pages ↔ ∃ row ∈ sql.table.rows, row.pageNo = asI64 p := by
    intro p
    rw [Pages.mem_iff_ne_none, getElem?_pages, ← Option.isSome_iff_ne_none, Option.isSome_map,
      Option.isSome_iff_exists]
    simp only [row?_eq_some]
  cases hmax : sql.pages.maxKey? with
  | none =>
    refine Sql.KeyedTable.maxKey_eq_none.mpr (List.eq_nil_iff_forall_not_mem.mpr ?_)
    intro row hrow
    obtain ⟨p, hp⟩ := sql.written row hrow
    have hrows := (hmem p).mpr ⟨row, hrow, hp⟩
    rw [Std.ExtTreeMap.maxKey?_eq_none_iff.mp hmax] at hrows
    exact Std.ExtTreeMap.not_mem_empty hrows
  | some p =>
    obtain ⟨hp, hle⟩ := Std.ExtTreeMap.maxKey?_eq_some_iff_mem_and_forall.mp hmax
    obtain ⟨row, hrow, hrowp⟩ := (hmem p).mp hp
    refine Sql.KeyedTable.maxKey_eq_some.mpr ⟨⟨row, hrow, congrArg Int64.toInt hrowp⟩, ?_⟩
    intro row' hrow'
    obtain ⟨q, hq⟩ := sql.written row' hrow'
    have hqp : q ≤ p := Std.isLE_compare.mp (hle q ((hmem q).mpr ⟨row', hrow', hq⟩))
    show row'.pageNo.toInt ≤ (asI64 p).toInt
    rw [hq, toInt_asI64, toInt_asI64, Int.ofNat_le]
    exact UInt32.le_iff_toNat_le.mp hqp

/-! ## Every call does what the in-memory storage does -/

instance : LawfulStorage SqlSyncStorage where
  pages := pages
  getPageHash_refines p sql := by
    show EStateM.Result.ok ((sql.pages[p]?).map Page.hash) sql.pages =
      .ok ((sql.row? p).map PageRow.hash) sql.pages
    rw [getElem?_pages, Option.map_map]
    rfl
  getPage_refines p sql := by
    show EStateM.Result.ok ((sql.pages[p]?).map Page.data) sql.pages =
      .ok ((sql.row? p).map PageRow.data) sql.pages
    rw [getElem?_pages, Option.map_map]
    rfl
  putPage_refines pageNo data hash nowMs sql := by
    show EStateM.Result.ok () (sql.pages.insert pageNo ⟨data, hash⟩) =
      .ok () (sql.put pageNo data hash nowMs).pages
    congr 1
    refine Std.ExtTreeMap.ext_getElem? fun p => ?_
    rw [Std.ExtTreeMap.getElem?_insert, getElem?_pages, getElem?_pages, row?_put]
    simp only [Std.LawfulEqCmp.compare_eq_iff_eq]
    split <;> rfl
  maxPage_refines sql := by
    show EStateM.Result.ok (sql.pages.keys.getLast?.getD 0) sql.pages =
      .ok (asU32 (max ((sql.table.maxKey.map Int64.ofInt).getD 0) 0)) sql.pages
    rw [← Std.ExtTreeMap.maxKey?_eq_getLast?_keys, maxKey_eq]
    cases sql.pages.maxKey? with
    | none => rfl
    | some p =>
      rw [Option.map_some, Option.map_some, Option.getD_some, Option.getD_some, Int64.ofInt_toInt,
        max_asI64, asU32_asI64]

end SqlSyncStorage

/-! ## The two back ends -/

/-- What is put under a page number. -/
structure Put where
  pageNo : UInt32
  data : Bytes
  hash : Bytes
  nowMs : Int64

/-- Put the pages one after the other. -/
def putAll {σ : Type} [SyncStorage σ] (puts : List Put) : StoreM σ Unit :=
  forM puts fun put => SyncStorage.putPage put.pageNo put.data put.hash put.nowMs

/-- Both calls return the same and change nothing. -/
def Agree {σ τ α : Type} (s : σ) (t : τ) (m : StoreM σ α) (m' : StoreM τ α) : Prop :=
  ∃ a, m.run s = .ok a s ∧ m'.run t = .ok a t

/-- Both walks come to the same for the callback, and leave their storages alone. -/
def AgreeOnWalk {σ τ υ : Type} (s : σ) (t : τ) (u : υ)
    (m : EStateM StoreError (σ × υ) Unit) (m' : EStateM StoreError (τ × υ) Unit) : Prop :=
  ∃ r : EStateM.Result StoreError υ Unit,
    m.run (s, u) = seen (Prod.mk s) r ∧ m'.run (t, u) = seen (Prod.mk t) r

/-- The pages of the range that the store has, in ascending order. -/
def Pages.inRange (pages : Pages) (start stop : UInt32) : List (UInt32 × Page) :=
  (pageRange start stop).filterMap fun p => (pages[p]?).map fun page => (p, page)

section

variable {τ : Type} (emit : UInt32 → Bytes → EStateM StoreError τ Unit)

/-- The trait's loop calls back once for each page of the range. -/
theorem run_iterPagesInRange (pages : Pages) (start stop : UInt32) (t : τ) :
    (SyncStorage.iterPagesInRange start stop emit).run ((pages : InMemorySyncStorage), t) =
      seen (Prod.mk pages)
        ((forM (pages.inRange start stop) fun found => emit found.1 found.2.data).run t) := by
  unfold SyncStorage.iterPagesInRange Pages.inRange
  induction pageRange start stop generalizing t with
  | nil => rfl
  | cons p rest ih =>
    rw [List.forM_cons, EStateM.run_bind, EStateM.run_bind, Effect.run_onFst, SyncFsm.run_getPage,
      List.filterMap_cons]
    cases pages[p]? with
    | none => exact ih t
    | some page =>
      simp only [Option.map_some, Effect.run_onSnd, List.forM_cons, EStateM.run_bind]
      cases (emit p page.data).run t with
      | ok _ t' => exact ih t'
      | error e t' => rfl

/-- So does the cursor. -/
theorem SqlSyncStorage.run_iterPagesInRange (sql : SqlSyncStorage) (start stop : UInt32) (t : τ) :
    (SqlSyncStorage.iterPagesInRange start stop emit).run (sql, t) =
      seen (Prod.mk sql)
        ((forM (sql.pages.inRange start stop) fun found => emit found.1 found.2.data).run t) := by
  show (forM (sql.scan start stop) fun row =>
    onSnd (emit (asU32 (max row.pageNo 0)) row.data)).run (sql, t) = _
  rw [scan_eq]
  unfold Pages.inRange
  induction pageRange start stop generalizing t with
  | nil => rfl
  | cons p rest ih =>
    rw [List.filterMap_cons, List.filterMap_cons, getElem?_pages]
    cases hfound : sql.row? p with
    | none => exact ih t
    | some row =>
      have hp : asU32 (max row.pageNo 0) = p := by
        rw [(row?_eq_some.mp hfound).2, max_asI64, asU32_asI64]
      simp only [Option.map_some, List.forM_cons, EStateM.run_bind, Effect.run_onSnd, hp, toPage]
      cases (emit p row.data).run t with
      | ok _ t' => exact ih t'
      | error e t' => rfl

end

theorem SqlSyncStorage.run_combinedHash [Blake3] (sql : SqlSyncStorage) (start stop : UInt32) :
    (SqlSyncStorage.combinedHash start stop).run sql =
      .ok (sql.pages.combinedHash start stop) sql := by
  have hscan : (sql.scan start stop).foldl (fun hasher row => hasher ++ row.hash) [] =
      (pageRange start stop).flatMap fun p => ((sql.pages[p]?).map Page.hash).getD [] := by
    rw [← List.flatMap_eq_foldl, scan_eq]
    induction pageRange start stop with
    | nil => rfl
    | cons p rest ih =>
      rw [List.filterMap_cons, List.flatMap_cons, getElem?_pages]
      cases sql.row? p with
      | none => exact ih
      | some row =>
        rw [List.flatMap_cons, ih]
        rfl
  show EStateM.Result.ok _ sql = _
  rw [hscan]
  rfl

theorem exists_putAll (puts : List Put) (sql : SqlSyncStorage) :
    ∃ sql' : SqlSyncStorage, (putAll puts).run sql = .ok () sql' := by
  induction puts generalizing sql with
  | nil => exact ⟨sql, rfl⟩
  | cons put puts ih => exact ih (sql.put put.pageNo put.data put.hash put.nowMs)

/-- A call that only reads the table reads the same from the pages. -/
theorem Agree.of_refines {α : Type} {m : StoreM SqlSyncStorage α}
    {m' : StoreM InMemorySyncStorage α} (h : Refines SqlSyncStorage.pages m m')
    {sql : SqlSyncStorage} {a : α} (hrun : m.run sql = .ok a sql) : Agree sql sql.pages m m' :=
  ⟨a, hrun, by rw [h sql, hrun]; rfl⟩

/-- After any puts the SQL storage answers every call as the in-memory storage does,
and its two scans do what the trait's loops do over the in-memory storage. -/
theorem sql_agrees [Blake3] (puts : List Put) :
    ∃ (sql : SqlSyncStorage) (mem : InMemorySyncStorage),
      (putAll puts).run SqlSyncStorage.empty = .ok () sql ∧
      (putAll puts).run (∅ : InMemorySyncStorage) = .ok () mem ∧
      (∀ p, Agree sql mem (SyncStorage.getPageHash p) (SyncStorage.getPageHash p)) ∧
      (∀ p, Agree sql mem (SyncStorage.getPage p) (SyncStorage.getPage p)) ∧
      Agree sql mem SyncStorage.maxPage SyncStorage.maxPage ∧
      (∀ start stop, Agree sql mem (SqlSyncStorage.combinedHash start stop)
        (SyncStorage.combinedHash start stop)) ∧
      ∀ (τ : Type) (start stop : UInt32) (emit : UInt32 → Bytes → EStateM StoreError τ Unit)
        (t : τ), AgreeOnWalk sql mem t (SqlSyncStorage.iterPagesInRange start stop emit)
          (SyncStorage.iterPagesInRange start stop emit) := by
  obtain ⟨sql, hsql⟩ := exists_putAll puts .empty
  have hputs : Refines (LawfulStorage.pages (σ := SqlSyncStorage)) (putAll puts) (putAll puts) :=
    Refines.forM fun put =>
      LawfulStorage.putPage_refines put.pageNo put.data put.hash put.nowMs
  have hmem := hputs .empty
  rw [hsql] at hmem
  refine ⟨sql, sql.pages, hsql, hmem, ?_, ?_, ?_, ?_, ?_⟩
  · exact fun p => .of_refines (LawfulStorage.getPageHash_refines p) rfl
  · exact fun p => .of_refines (LawfulStorage.getPage_refines p) rfl
  · exact .of_refines LawfulStorage.maxPage_refines rfl
  · intro start stop
    exact ⟨sql.pages.combinedHash start stop, sql.run_combinedHash start stop,
      sql.pages.run_combinedHash start stop⟩
  · intro τ start stop emit t
    exact ⟨_, sql.run_iterPagesInRange emit start stop t,
      run_iterPagesInRange emit sql.pages start stop t⟩

end EdgeReplica
