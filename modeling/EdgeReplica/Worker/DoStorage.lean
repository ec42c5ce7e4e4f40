-- SUMMARY: The database of a durable object: its tables, the calls that may fail, and the page store on top.
import EdgeReplica.Lib.Text
import EdgeReplica.Services.SqlSyncStorage
import EdgeReplica.Worker.Hosted

/-!
# The database of an object

Beside the rows the database has a schema. A statement on a table that was not created
fails, as does any call to the runtime that is due to. A call that fails changes nothing.
-/

namespace EdgeReplica

open Effect (Outcome final onFst onSnd)

/-! ## The schema -/

/-- A table, as `CREATE TABLE` declares it. -/
structure TableDef where
  name : String
  columns : List (List String)
deriving DecidableEq, Repr

namespace TableDef

def words (s : String) : List String := (Text.split s ' ').filter (· ≠ "")

/-- `CREATE TABLE IF NOT EXISTS name ( column, … )`, the one kind of statement in the
scripts. -/
def parse (statement : String) : Option TableDef :=
  match words statement with
  | "CREATE" :: "TABLE" :: "IF" :: "NOT" :: "EXISTS" :: name :: "(" :: rest =>
    if rest.getLast? = some ")" then
      some ⟨name, (Text.split (String.intercalate " " rest.dropLast) ',').map words⟩
    else none
  | _ => none

end TableDef

/-- A row of `schema_version`. -/
structure VersionRow where
  version : Int64
  appliedAtMs : Int64
deriving DecidableEq

def VersionRow.key (row : VersionRow) : Int := row.version.toInt

/-- The database. Its `k`-th call to the runtime fails with `faults k`, if there is one. -/
structure SqlStorage where
  tables : List TableDef := []
  versions : Sql.KeyedTable VersionRow Int VersionRow.key := .empty
  rows : SqlSyncStorage := .empty
  faults : Nat → Option String
  calls : Nat := 0

/-- A call to the runtime: it may fail with a text. -/
abbrev SqlM := EStateM String SqlStorage

namespace SqlStorage

def has (name : String) (sql : SqlStorage) : Bool := sql.tables.any fun table => table.name = name

/-- Call the runtime, which may fail. -/
def attempt : SqlM Unit := fun sql =>
  match sql.faults sql.calls with
  | some e => .error e { sql with calls := sql.calls + 1 }
  | none => .ok () { sql with calls := sql.calls + 1 }

/-- `sql.exec` of a statement on the table. -/
def exec {α : Type} (table : String) (m : SqlM α) : SqlM α := do
  attempt
  if (← get).has table then m else throw s!"no such table: {table}"

/-- `sql.exec` of a statement of a script. -/
def execScript (statement : String) : SqlM Unit := do
  attempt
  match TableDef.parse statement with
  | none => throw "syntax error"
  | some table =>
    modify fun sql =>
      if sql.has table.name then sql else { sql with tables := sql.tables ++ [table] }

/-! ## The page store -/

def err (label e : String) : StoreError := .backend s!"{label}: {e}"

/-- The call under the label of its error. -/
abbrev labelled {α : Type} (label : String) (m : SqlM α) : StoreM SqlStorage α :=
  EStateM.adaptExcept (err label) m

/-- Take a row from a cursor and decode it. -/
def decode (label : String) : StoreM SqlStorage Unit := labelled s!"decode {label}" attempt

/-- The blob that `pick` takes from the row of the page, if there is one. -/
def firstBlob (label : String) (pageNo : UInt32) (pick : PageRow → Bytes) :
    StoreM SqlStorage (Option Bytes) := do
  match ← labelled label (exec "pages" do return (← get).rows.row? pageNo) with
  | some row =>
    decode label
    return some (pick row)
  | none => return none

def getPageHash (pageNo : UInt32) : StoreM SqlStorage (Option Bytes) :=
  firstBlob "get_page_hash" pageNo PageRow.hash

def getPage (pageNo : UInt32) : StoreM SqlStorage (Option Bytes) :=
  firstBlob "get_page" pageNo PageRow.data

def putPage (pageNo : UInt32) (data hash : Bytes) (nowMs : Int64) : StoreM SqlStorage Unit :=
  labelled "put_page"
    (exec "pages" (modify fun sql => { sql with rows := sql.rows.put pageNo data hash nowMs }))

def maxPage : StoreM SqlStorage UInt32 := do
  let v ← labelled "max_page" (exec "pages" do return (← get).rows.table.maxKey.map Int64.ofInt)
  decode "max"
  return asU32 (max (v.getD 0) 0)

/-- The rows of the range, in the order of their numbers. -/
def scan (label : String) (start stop : UInt32) : StoreM SqlStorage (List PageRow) :=
  labelled label (exec "pages" do return (← get).rows.scan start stop)

def combinedHash [Blake3] (start stop : UInt32) : StoreM SqlStorage Bytes := do
  let rows ← scan "combined_hash" start stop
  let hasher ← rows.foldlM (fun hasher row => do
    decode "hash"
    return hasher ++ row.hash) []
  return Blake3.hash hasher

def iterPagesInRange {τ : Type} (start stop : UInt32)
    (emit : UInt32 → Bytes → EStateM StoreError τ Unit) :
    EStateM StoreError (SqlStorage × τ) Unit := do
  let rows ← onFst (scan "iter_pages_in_range" start stop)
  forM rows fun row => do
    onFst (decode "page")
    onSnd (emit (asU32 (max row.pageNo 0)) row.data)

instance : ScanStorage SqlStorage where
  getPageHash := getPageHash
  getPage := getPage
  putPage := putPage
  maxPage := maxPage
  combinedHash := combinedHash
  iterPagesInRange := iterPagesInRange

/-! ## What a call changes -/

/-- The database after some calls that only read. -/
structure Later (sql sql' : SqlStorage) : Prop where
  same : sql' = { sql with calls := sql'.calls }
  calls : sql.calls ≤ sql'.calls

theorem Later.refl (sql : SqlStorage) : Later sql sql := ⟨rfl, Nat.le_refl _⟩

theorem Later.next (sql : SqlStorage) : Later sql { sql with calls := sql.calls + 1 } :=
  ⟨rfl, Nat.le_succ _⟩

theorem Later.trans {sql sql' sql'' : SqlStorage} (h : Later sql sql') (h' : Later sql' sql'') :
    Later sql sql'' :=
  ⟨by rw [h'.same, h.same], Nat.le_trans h.calls h'.calls⟩

theorem Later.rows {sql sql' : SqlStorage} (h : Later sql sql') : sql'.rows = sql.rows := by
  rw [h.same]

theorem Later.faults {sql sql' : SqlStorage} (h : Later sql sql') : sql'.faults = sql.faults := by
  rw [h.same]

/-- A computation that only reads. -/
def Reading {ε α : Type} (m : EStateM ε SqlStorage α) : Prop :=
  ∀ sql, Later sql (final (m.run sql))

namespace Reading

variable {ε α β : Type} {m : EStateM ε SqlStorage α}

theorem pure (a : α) : Reading (pure a : EStateM ε SqlStorage α) := Later.refl

theorem throw (e : ε) : Reading (throw e : EStateM ε SqlStorage α) := Later.refl

theorem bind {f : α → EStateM ε SqlStorage β} (hm : Reading m) (hf : ∀ a, Reading (f a)) :
    Reading (m >>= f) := by
  intro sql
  have hfirst := hm sql
  rw [EStateM.run_bind]
  cases hr : m.run sql with
  | ok a sql' => rw [hr] at hfirst; exact hfirst.trans (hf a sql')
  | error e sql' => rw [hr] at hfirst; exact hfirst

theorem get_bind {f : SqlStorage → EStateM ε SqlStorage α} (hf : ∀ sql, Reading (f sql)) :
    Reading (get >>= f) := fun sql => hf sql sql

theorem foldlM {l : List β} {f : α → β → EStateM ε SqlStorage α} (hf : ∀ a b, Reading (f a b))
    (a : α) : Reading (l.foldlM f a) := by
  induction l generalizing a with
  | nil => exact Reading.pure a
  | cons b l ih =>
    rw [List.foldlM_cons]
    exact Reading.bind (hf a b) ih

theorem adapt {ε' : Type} (hm : Reading m) (f : ε → ε') : Reading (EStateM.adaptExcept f m) := by
  intro sql
  have hread := hm sql
  rw [Effect.run_adaptExcept]
  cases hr : m.run sql <;> (rw [hr] at hread; exact hread)

theorem labelled {m : SqlM α} (hm : Reading m) (label : String) :
    Reading (SqlStorage.labelled label m) := hm.adapt _

end Reading

theorem attempt_reading : Reading attempt := by
  intro sql
  show Later sql (final (attempt sql))
  unfold attempt
  cases sql.faults sql.calls <;> exact .next sql

theorem exec_reading {α : Type} (table : String) {m : SqlM α} (hm : Reading m) :
    Reading (exec table m) := by
  refine Reading.bind attempt_reading fun _ => Reading.get_bind fun sql => ?_
  split
  · exact hm
  · exact Reading.throw _

theorem decode_reading (label : String) : Reading (decode label) := attempt_reading.labelled _

theorem scan_reading (label : String) (start stop : UInt32) : Reading (scan label start stop) :=
  (exec_reading "pages" (Reading.get_bind fun _ => Reading.pure _)).labelled _

theorem firstBlob_reading (label : String) (pageNo : UInt32) (pick : PageRow → Bytes) :
    Reading (firstBlob label pageNo pick) := by
  refine Reading.bind ((exec_reading "pages" (Reading.get_bind fun _ => Reading.pure _)).labelled _)
    fun found => ?_
  cases found with
  | some row => exact Reading.bind (decode_reading label) fun _ => Reading.pure _
  | none => exact Reading.pure _

theorem maxPage_reading : Reading maxPage := by
  refine Reading.bind ((exec_reading "pages" (Reading.get_bind fun _ => Reading.pure _)).labelled _)
    fun v => ?_
  exact Reading.bind (decode_reading "max") fun _ => Reading.pure _

theorem reading_of_readCall {α : Type} {m : StoreM SqlStorage α} (hm : SyncFsm.ReadCall m) :
    Reading m := by
  cases hm with
  | getPageHash p => exact firstBlob_reading _ p _
  | getPage p => exact firstBlob_reading _ p _
  | maxPage => exact maxPage_reading

theorem combinedHash_reading [Blake3] (start stop : UInt32) :
    Reading (combinedHash start stop) := by
  refine Reading.bind (scan_reading _ start stop) fun rows => ?_
  refine Reading.bind (Reading.foldlM (fun hasher row => ?_) _) fun _ => Reading.pure _
  exact Reading.bind (decode_reading "hash") fun _ => Reading.pure _

/-! ## What a call returns -/

theorem adapt_eq_ok {ε ε' α : Type} {f : ε → ε'} {m : EStateM ε SqlStorage α}
    {sql sql' : SqlStorage} {a : α} :
    (EStateM.adaptExcept f m).run sql = .ok a sql' ↔ m.run sql = .ok a sql' := by
  rw [Effect.run_adaptExcept]
  cases m.run sql <;> simp

theorem run_attempt (sql : SqlStorage) :
    attempt.run sql = match sql.faults sql.calls with
      | some e => .error e { sql with calls := sql.calls + 1 }
      | none => .ok () { sql with calls := sql.calls + 1 } := rfl

theorem run_exec {α : Type} (table : String) (m : SqlM α) (sql : SqlStorage) :
    (exec table m).run sql = match sql.faults sql.calls with
      | some e => .error e { sql with calls := sql.calls + 1 }
      | none =>
        if sql.has table then m.run { sql with calls := sql.calls + 1 }
        else .error s!"no such table: {table}" { sql with calls := sql.calls + 1 } := by
  show EStateM.run (attempt >>= fun _ => _) sql = _
  rw [EStateM.run_bind, run_attempt]
  cases sql.faults sql.calls with
  | some e => rfl
  | none =>
    show EStateM.run (if sql.has table then m else _) _ = _
    split <;> rfl

theorem exec_eq_ok {α : Type} {table : String} {m : SqlM α} {sql sql' : SqlStorage} {a : α}
    (h : (exec table m).run sql = .ok a sql') :
    m.run { sql with calls := sql.calls + 1 } = .ok a sql' := by
  rw [run_exec] at h
  split at h
  · cases h
  · split at h
    · exact h
    · cases h

/-- A query answers from the rows. -/
theorem query_eq_ok {ε α : Type} {error : String → ε} {table : String} {f : SqlStorage → α}
    (hf : ∀ sql calls, f { sql with calls } = f sql) {sql sql' : SqlStorage} {a : α}
    (h : (EStateM.adaptExcept error (exec table do return f (← get))).run sql = .ok a sql') :
    a = f sql := by
  have hrun := exec_eq_ok (adapt_eq_ok.mp h)
  obtain ⟨rfl, -⟩ := EStateM.Result.ok.inj hrun
  exact hf sql _

theorem scan_eq_ok {label : String} {start stop : UInt32} {sql sql' : SqlStorage}
    {rows : List PageRow} (h : (scan label start stop).run sql = .ok rows sql') :
    rows = sql.rows.scan start stop :=
  query_eq_ok (f := fun sql => sql.rows.scan start stop) (fun _ _ => rfl) h

theorem firstBlob_eq_ok {label : String} {p : UInt32} {pick : PageRow → Bytes}
    {sql sql' : SqlStorage} {data : Bytes}
    (h : (firstBlob label p pick).run sql = .ok (some data) sql') :
    ∃ row, sql.rows.row? p = some row ∧ pick row = data := by
  unfold firstBlob at h
  rw [EStateM.run_bind] at h
  cases hr : (labelled label (exec "pages" do return (← get).rows.row? p)).run sql with
  | error e sql₁ => rw [hr] at h; cases h
  | ok found sql₁ =>
    obtain rfl := query_eq_ok (f := fun sql => sql.rows.row? p) (fun _ _ => rfl) hr
    rw [hr] at h
    cases hfound : sql.rows.row? p with
    | none =>
      simp only [hfound] at h
      cases h
    | some row =>
      simp only [hfound] at h
      rw [EStateM.run_bind] at h
      cases hd : (decode label).run sql₁ with
      | error e sql₂ => rw [hd] at h; cases h
      | ok u sql₂ =>
        rw [hd] at h
        obtain ⟨hdata, -⟩ := EStateM.Result.ok.inj h
        exact ⟨row, rfl, Option.some.inj hdata⟩

/-! ## The store shows its table -/

/-- A put writes its row, or changes nothing. -/
theorem putPage_cases (p : UInt32) (data hash : Bytes) (nowMs : Int64) (sql : SqlStorage) :
    (∃ e sql', (putPage p data hash nowMs).run sql = .error e sql' ∧ Later sql sql') ∨
      (putPage p data hash nowMs).run sql =
        .ok () { sql with rows := sql.rows.put p data hash nowMs, calls := sql.calls + 1 } := by
  unfold putPage labelled
  rw [Effect.run_adaptExcept, run_exec]
  cases sql.faults sql.calls with
  | some e => exact .inl ⟨_, _, rfl, .next sql⟩
  | none =>
    cases hhas : sql.has "pages" with
    | true => exact .inr (by rw [if_pos rfl]; rfl)
    | false =>
      exact .inl ⟨_, _, by rw [if_neg Bool.false_ne_true], .next sql⟩

theorem pages_put (p : UInt32) (data hash : Bytes) (nowMs : Int64) (rows : SqlSyncStorage) :
    (rows.put p data hash nowMs).pages = rows.pages.insert p ⟨data, hash⟩ := by
  have hput : (InMemorySyncStorage.putPage p data hash nowMs).run rows.pages =
      .ok () (rows.put p data hash nowMs).pages :=
    LawfulStorage.putPage_refines (σ := SqlSyncStorage) p data hash nowMs rows
  exact (EStateM.Result.ok.inj hput).2.symm

instance : PageStore SqlStorage where
  pages sql := sql.rows.pages
  pages_read hm sql := congrArg SqlSyncStorage.pages (reading_of_readCall hm sql).rows
  pages_put p data hash nowMs sql := by
    show Outcome _ _ ((putPage p data hash nowMs).run sql)
    rcases putPage_cases p data hash nowMs sql with ⟨e, sql', hrun, hlater⟩ | hrun
    · rw [hrun]
      exact congrArg SqlSyncStorage.pages hlater.rows
    · rw [hrun]
      exact pages_put p data hash nowMs sql.rows

/-- A scan yields rows under the number of their page. -/
theorem page_of_mem_scan {rows : SqlSyncStorage} {start stop : UInt32} {row : PageRow}
    (h : row ∈ rows.scan start stop) :
    rows.pages[asU32 (max row.pageNo 0)]? = some (SqlSyncStorage.toPage row) := by
  rw [SqlSyncStorage.scan_eq, List.mem_filterMap] at h
  obtain ⟨p, -, hrow⟩ := h
  rw [(SqlSyncStorage.row?_eq_some.mp hrow).2, max_asI64, asU32_asI64,
    SqlSyncStorage.getElem?_pages, hrow, Option.map_some]

/-- The cursor calls back with rows of the table. -/
theorem iterPagesInRange_reads {τ : Type} {J : τ → Prop} (start stop : UInt32)
    (emit : UInt32 → Bytes → EStateM StoreError τ Unit) {sql : SqlStorage}
    (hemit : ∀ p page, sql.rows.pages[p]? = some page → ∀ t, J t →
      J (final ((emit p page.data).run t))) {t : τ} (ht : J t) :
    let walked := final ((iterPagesInRange start stop emit).run (sql, t))
    Later sql walked.1 ∧ J walked.2 := by
  have hwalk : ∀ (rows : List PageRow) (sql' : SqlStorage) (t : τ),
      (∀ row ∈ rows, row ∈ sql.rows.scan start stop) → Later sql sql' → J t →
      let walked := final ((forM rows fun (row : PageRow) => do
        onFst (decode "page")
        onSnd (emit (asU32 (max row.pageNo 0)) row.data)).run (sql', t))
      Later sql walked.1 ∧ J walked.2 := by
    intro rows
    induction rows with
    | nil => exact fun sql' t _ hlater ht => ⟨hlater, ht⟩
    | cons row rows ih =>
      intro sql' t hrows hlater ht
      obtain ⟨hrow, hrows⟩ := List.forall_mem_cons.mp hrows
      have hdecode := hlater.trans (decode_reading "page" sql')
      rw [List.forM_cons, EStateM.run_bind, EStateM.run_bind, Effect.run_onFst]
      cases hd : (decode "page").run sql' with
      | error e sql₁ =>
        rw [hd] at hdecode
        exact ⟨hdecode, ht⟩
      | ok u sql₁ =>
        rw [hd] at hdecode
        have hnext := hemit _ _ (page_of_mem_scan hrow) t ht
        simp only [Effect.run_onSnd]
        cases he : (emit (asU32 (max row.pageNo 0)) row.data).run t with
        | error e t' =>
          rw [show (SqlSyncStorage.toPage row).data = row.data from rfl, he] at hnext
          exact ⟨hdecode, hnext⟩
        | ok u t' =>
          rw [show (SqlSyncStorage.toPage row).data = row.data from rfl, he] at hnext
          exact ih sql₁ t' hrows hdecode hnext
  have hscan := scan_reading "iter_pages_in_range" start stop sql
  unfold iterPagesInRange
  rw [EStateM.run_bind, Effect.run_onFst]
  cases hr : (scan "iter_pages_in_range" start stop).run sql with
  | error e sql₁ =>
    rw [hr] at hscan
    exact ⟨hscan, ht⟩
  | ok rows sql₁ =>
    rw [hr] at hscan
    exact hwalk rows sql₁ t (fun row hmem => scan_eq_ok hr ▸ hmem) hscan ht

instance : ReadStore SqlStorage where
  reads {p data sql sql'} h := by
    obtain ⟨row, hrow, rfl⟩ := firstBlob_eq_ok h
    exact ⟨SqlSyncStorage.toPage row, by
      rw [show PageStore.pages sql = sql.rows.pages from rfl, SqlSyncStorage.getElem?_pages, hrow]
      rfl, rfl⟩
  combinedHash_reads start stop sql :=
    congrArg SqlSyncStorage.pages (combinedHash_reading start stop sql).rows
  iterPagesInRange_reads := by
    intro τ J start stop emit sql hemit t ht
    obtain ⟨hlater, hJ⟩ := iterPagesInRange_reads start stop emit hemit ht
    exact ⟨congrArg SqlSyncStorage.pages hlater.rows, hJ⟩

/-! ## The schema under sessions and scripts -/

/-- The schema, and the versions it is stamped with. -/
def Schema (tables : List TableDef) (versions : Sql.KeyedTable VersionRow Int VersionRow.key)
    (sql : SqlStorage) : Prop :=
  sql.tables = tables ∧ sql.versions = versions

section

variable {tables : List TableDef} {versions : Sql.KeyedTable VersionRow Int VersionRow.key}

theorem Later.schema {sql sql' : SqlStorage} (h : Later sql sql')
    (hs : Schema tables versions sql) :
    Schema tables versions sql' := by
  rw [h.same]
  exact hs

/-- A session leaves the schema as it is. -/
theorem schemaKept : ScanFsm.StorageKeeps (Schema tables versions) where
  combinedHash start stop := (combinedHash_reading start stop _).schema
  iterPagesInRange start stop emit t := (iterPagesInRange_reads start stop emit
    (J := fun _ => True) (fun _ _ _ _ _ => trivial) (t := t) trivial).1.schema
  read hm := (reading_of_readCall hm _).schema
  put p data hash nowMs := by
    intro sql h
    show Schema tables versions (final ((putPage p data hash nowMs).run sql))
    rcases putPage_cases p data hash nowMs sql with ⟨e, sql', hrun, hlater⟩ | hrun
    · rw [hrun]
      exact hlater.schema h
    · rw [hrun]
      exact h

end

theorem run_execScript (statement : String) (sql : SqlStorage) :
    (execScript statement).run sql = match sql.faults sql.calls with
      | some e => .error e { sql with calls := sql.calls + 1 }
      | none => match TableDef.parse statement with
        | none => .error "syntax error" { sql with calls := sql.calls + 1 }
        | some table =>
          if sql.has table.name then .ok () { sql with calls := sql.calls + 1 }
          else .ok () { sql with calls := sql.calls + 1, tables := sql.tables ++ [table] } := by
  show EStateM.run (attempt >>= fun _ => _) sql = _
  rw [EStateM.run_bind, run_attempt]
  cases sql.faults sql.calls with
  | some e => rfl
  | none =>
    cases TableDef.parse statement with
    | none => rfl
    | some table =>
      show EStateM.Result.ok () (if sql.has table.name then _ else _) =
        if sql.has table.name then _ else _
      cases sql.has table.name <;> rfl

end SqlStorage

end EdgeReplica
