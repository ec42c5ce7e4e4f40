-- SUMMARY: The schema of a durable object: its migrations, and what holds past them over the life of the object.
import EdgeReplica.Lib.Migrations
import EdgeReplica.Services.SqlStatements
import EdgeReplica.Worker.DoGate
import EdgeReplica.Worker.DoStorage

/-!
# Migrations of an object

An instance migrates its own database before it serves its first request, and remembers
that it has. Any statement may fail, the version may fail to be read, and the instance may
be dropped at any time; the database stays.
-/

namespace EdgeReplica

open Effect (Outcome Spec final)
open SqlStorage (Reading attempt exec execScript)

namespace DoMigrations

structure Migration where
  version : Int64
  sql : String

def MIGRATIONS : List Migration := [{
  version := 1
  sql := "
        CREATE TABLE IF NOT EXISTS schema_version (
            version INTEGER PRIMARY KEY,
            applied_at_ms INTEGER NOT NULL
        );
        CREATE TABLE IF NOT EXISTS pages (
            page_no INTEGER PRIMARY KEY,
            data BLOB NOT NULL,
            -- 32-byte BLAKE3 digest of `data`
            hash BLOB NOT NULL,
            updated_at_ms INTEGER NOT NULL
        );
    " }]

def currentVersion : SqlM Int64 := do
  let v ← EStateM.adaptExcept (fun e => s!"read version: {e}")
    (exec "schema_version" do return (← get).versions.maxKey.map Int64.ofInt)
  EStateM.adaptExcept (fun e => s!"decode version: {e}") attempt
  return v.getD 0

def execStatement (version : Int64) (statement : String) : SqlM Unit :=
  EStateM.adaptExcept (fun e => s!"v{version}: {e} [{statement}]") (execScript statement)

def stamp (nowMs version : Int64) : SqlM Unit :=
  EStateM.adaptExcept (fun e => s!"v{version} stamp: {e}") (exec "schema_version"
    (modify fun sql => { sql with versions := sql.versions.insertOrReplace ⟨version, nowMs⟩ }))

def calls (nowMs : Int64) : Migrations.Calls String SqlStorage String where
  current := currentVersion
  exec := execStatement
  stamp := stamp nowMs

def scripts : List (Migrations.Migration String) :=
  MIGRATIONS.map fun m => ⟨m.version, SqlStatements.splitSqlStatements m.sql⟩

def ensureSchema (nowMs : Int64) : SqlM Unit := (calls nowMs).ensure scripts

/-! ## The schema -/

/-- The tables that the scripts create. -/
def schema : List TableDef := [
  ⟨"schema_version",
    [["version", "INTEGER", "PRIMARY", "KEY"], ["applied_at_ms", "INTEGER", "NOT", "NULL"]]⟩,
  ⟨"pages",
    [["page_no", "INTEGER", "PRIMARY", "KEY"], ["data", "BLOB", "NOT", "NULL"],
      ["hash", "BLOB", "NOT", "NULL"], ["updated_at_ms", "INTEGER", "NOT", "NULL"]]⟩]

theorem parse_scripts :
    scripts.map (fun m => (m.version, m.statements.map TableDef.parse)) =
      [(1, schema.map some)] := by
  decide +kernel

/-! ## What the calls do -/

/-- The table of the statement exists. -/
def Created (statement : String) (sql : SqlStorage) : Prop :=
  ∃ table, TableDef.parse statement = some table ∧ sql.has table.name = true

def Stamped (version : Int64) (sql : SqlStorage) : Prop :=
  ∃ row ∈ sql.versions.rows, row.version = version

/-- What a statement of a script leaves. -/
structure Grown (statement : String) (sql sql' : SqlStorage) : Prop where
  versions : sql'.versions = sql.versions
  rows : sql'.rows = sql.rows
  faults : sql'.faults = sql.faults
  calls : sql.calls ≤ sql'.calls
  kept : sql.tables ⊆ sql'.tables
  new : ∀ table ∈ sql'.tables, table ∈ sql.tables ∨ TableDef.parse statement = some table

/-- What a stamp leaves. -/
structure Marked (version : Int64) (sql sql' : SqlStorage) : Prop where
  tables : sql'.tables = sql.tables
  rows : sql'.rows = sql.rows
  faults : sql'.faults = sql.faults
  calls : sql.calls ≤ sql'.calls
  new : ∀ row ∈ sql'.versions.rows, row ∈ sql.versions.rows ∨ row.version = version

theorem has_iff {name : String} {sql : SqlStorage} :
    sql.has name = true ↔ ∃ table ∈ sql.tables, table.name = name := by
  simp [SqlStorage.has]

theorem has_mono {name : String} {sql sql' : SqlStorage} (h : sql.tables ⊆ sql'.tables)
    (hhas : sql.has name = true) : sql'.has name = true := by
  obtain ⟨table, hmem, hname⟩ := has_iff.mp hhas
  exact has_iff.mpr ⟨table, h hmem, hname⟩

theorem execStatement_outcome (version : Int64) (statement : String) (sql : SqlStorage) :
    Outcome (fun _ sql' => Grown statement sql sql' ∧ Created statement sql')
      (fun _ sql' => Grown statement sql sql') ((execStatement version statement).run sql) := by
  have hsame : Grown statement sql { sql with calls := sql.calls + 1 } :=
    ⟨rfl, rfl, rfl, Nat.le_succ _, List.Subset.refl _, fun table h => .inl h⟩
  unfold execStatement
  rw [Effect.run_adaptExcept, SqlStorage.run_execScript]
  cases sql.faults sql.calls with
  | some e => exact hsame
  | none =>
    cases hparse : TableDef.parse statement with
    | none => exact hsame
    | some table =>
      dsimp only
      cases hhas : sql.has table.name with
      | true =>
        rw [if_pos rfl]
        exact ⟨hsame, table, hparse, hhas⟩
      | false =>
        rw [if_neg Bool.false_ne_true]
        have hcreated : table ∈ sql.tables ++ [table] :=
          List.mem_append_right _ (List.mem_singleton_self _)
        refine ⟨⟨rfl, rfl, rfl, Nat.le_succ _, List.subset_append_left _ _, fun t ht => ?_⟩,
          table, hparse, has_iff.mpr ⟨table, hcreated, rfl⟩⟩
        rcases List.mem_append.mp ht with hold | hnew
        · exact .inl hold
        · obtain rfl := List.mem_singleton.mp hnew
          exact .inr hparse

theorem grown (version : Int64) (statement : String) (sql : SqlStorage) :
    Grown statement sql (final ((execStatement version statement).run sql)) := by
  have h := execStatement_outcome version statement sql
  cases hr : (execStatement version statement).run sql with
  | ok a sql' => rw [hr] at h; exact h.1
  | error e sql' => rw [hr] at h; exact h

theorem marked (nowMs version : Int64) (sql : SqlStorage) :
    Marked version sql (final ((stamp nowMs version).run sql)) := by
  have hsame : Marked version sql { sql with calls := sql.calls + 1 } :=
    ⟨rfl, rfl, rfl, Nat.le_succ _, fun row h => .inl h⟩
  unfold stamp
  rw [Effect.run_adaptExcept, SqlStorage.run_exec]
  cases sql.faults sql.calls with
  | some e => exact hsame
  | none =>
    cases sql.has "schema_version" with
    | false => exact hsame
    | true =>
      refine ⟨rfl, rfl, rfl, Nat.le_succ _, fun row hrow => ?_⟩
      rcases Sql.KeyedTable.mem_insertOrReplace.mp hrow with ⟨hold, -⟩ | rfl
      · exact .inl hold
      · exact .inr rfl

theorem currentVersion_reading : Reading currentVersion := by
  refine Reading.bind ?_ fun v => Reading.bind ?_ fun _ => Reading.pure _
  · exact (SqlStorage.exec_reading _ (Reading.get_bind fun _ => Reading.pure _)).adapt _
  · exact SqlStorage.attempt_reading.adapt _

/-- The version that is read is one that is stamped, or none. -/
theorem currentVersion_outcome (sql : SqlStorage) :
    Outcome (fun v _ => v ≤ 0 ∨ ∃ v', Stamped v' sql ∧ v ≤ v') (fun _ _ => True)
      (currentVersion.run sql) := by
  unfold currentVersion
  rw [EStateM.run_bind]
  cases hread : (EStateM.adaptExcept (fun e => s!"read version: {e}")
      (exec "schema_version" do return (← get).versions.maxKey.map Int64.ofInt)).run sql with
  | error e sql₁ => trivial
  | ok v sql₁ =>
    obtain rfl := SqlStorage.query_eq_ok
      (f := fun sql => sql.versions.maxKey.map Int64.ofInt) (fun _ _ => rfl) hread
    dsimp only
    rw [EStateM.run_bind, Effect.run_adaptExcept]
    cases attempt.run sql₁ with
    | error e sql₂ => trivial
    | ok u sql₂ =>
      show _ ∨ _
      cases hmax : sql.versions.maxKey with
      | none => exact .inl (Std.le_refl 0)
      | some k =>
        obtain ⟨⟨row, hrow, rfl⟩, -⟩ := Sql.KeyedTable.maxKey_eq_some.mp hmax
        refine .inr ⟨row.version, ⟨row, hrow, rfl⟩, ?_⟩
        rw [Option.map_some, Option.getD_some, VersionRow.key, Int64.ofInt_toInt]
        exact Std.le_refl _

theorem calls_lawful (nowMs : Int64) : (calls nowMs).Lawful Created Stamped where
  current_holds := by
    rintro statement sql ⟨table, hparse, hhas⟩
    refine ⟨table, hparse, has_mono ?_ hhas⟩
    show sql.tables ⊆ (final (currentVersion.run sql)).tables
    rw [(currentVersion_reading sql).same]
    exact List.Subset.refl _
  current_stamped := by
    intro v sql h
    change Stamped v (final (currentVersion.run sql)) at h
    rw [(currentVersion_reading sql).same] at h
    exact h
  current_le := currentVersion_outcome
  exec_holds version {statement statement' sql} := by
    rintro ⟨table, hparse, hhas⟩
    exact ⟨table, hparse, has_mono (grown version statement' sql).kept hhas⟩
  exec_stamped := by
    intro version v statement sql h
    change Stamped v (final ((execStatement version statement).run sql)) at h
    unfold Stamped at h
    rwa [(grown version statement sql).versions] at h
  exec_ok version statement sql :=
    (execStatement_outcome version statement sql).imp (fun _ _ h => h.2) fun _ _ _ => trivial
  stamp_holds version {statement sql} := by
    rintro ⟨table, hparse, hhas⟩
    refine ⟨table, hparse, has_mono ?_ hhas⟩
    rw [show (final (((calls nowMs).stamp version).run sql)).tables = sql.tables from
      (marked nowMs version sql).tables]
    exact List.Subset.refl _
  stamp_stamped := by
    rintro version v sql ⟨row, hrow, rfl⟩
    rcases (marked nowMs version sql).new row hrow with hold | hnew
    · exact .inl ⟨row, hold, rfl⟩
    · exact .inr hnew

/-! ## The runner -/

/-- Every table of the schema exists, with its columns. -/
def Migrated (sql : SqlStorage) : Prop := ∀ table ∈ schema, table ∈ sql.tables

/-- What holds of a database whatever attempts to migrate it came to. -/
structure Sound (sql : SqlStorage) : Prop where
  stamps : Migrations.Calls.Sound Created Stamped scripts sql
  listed : ∀ table ∈ sql.tables, table ∈ schema

/-- The runtime raises no more faults. -/
def Quiet (sql : SqlStorage) : Prop := ∀ k, sql.calls ≤ k → sql.faults k = none

theorem exists_statements :
    ∃ first second, scripts = [⟨1, [first, second]⟩] ∧
      schema.map some = [TableDef.parse first, TableDef.parse second] := by
  have h := parse_scripts
  obtain ⟨m, rest, hscripts, hm, hrest⟩ := List.map_eq_cons_iff.mp h
  obtain rfl := List.map_eq_nil_iff.mp hrest
  obtain ⟨version, statements⟩ := m
  obtain ⟨rfl, hparse⟩ := Prod.mk.inj hm
  obtain ⟨first, rest, rfl, hfirst, hrest⟩ := List.map_eq_cons_iff.mp hparse
  obtain ⟨second, rest, rfl, hsecond, hnil⟩ := List.map_eq_cons_iff.mp hrest
  obtain rfl := List.map_eq_nil_iff.mp hnil
  exact ⟨first, second, hscripts, by rw [← hparse]; rfl⟩

/-- The statements of the scripts create the tables of the schema. -/
theorem mem_schema {table : TableDef} :
    table ∈ schema ↔ ∃ m ∈ scripts, ∃ statement ∈ m.statements,
      TableDef.parse statement = some table := by
  obtain ⟨first, second, hscripts, hparse⟩ := exists_statements
  have hmem : table ∈ schema ↔ some table ∈ schema.map some := by simp
  rw [hmem, hparse, hscripts]
  simp [eq_comm]

theorem eq_of_name : ∀ table ∈ schema, ∀ table' ∈ schema, table.name = table'.name →
    table = table' := by decide

theorem migrated_of_created {sql : SqlStorage} (hlisted : ∀ table ∈ sql.tables, table ∈ schema)
    (h : ∀ m ∈ scripts, ∀ statement ∈ m.statements, Created statement sql) : Migrated sql := by
  intro table htable
  obtain ⟨m, hm, statement, hstatement, hparse⟩ := mem_schema.mp htable
  obtain ⟨table₁, hparse₁, hhas⟩ := h m hm statement hstatement
  obtain rfl : table = table₁ := Option.some.inj (hparse.symm.trans hparse₁)
  obtain ⟨table', hmem, hname⟩ := has_iff.mp hhas
  rwa [eq_of_name table htable table' (hlisted table' hmem) hname.symm]

/-- A stamp is never ahead of its scripts, whatever fails; past the runner the schema is
there. -/
theorem spec_ensureSchema (nowMs : Int64) :
    Spec Sound (ensureSchema nowMs) (fun _ sql => Sound sql ∧ Migrated sql) (fun _ => Sound) := by
  obtain ⟨first, second, hscripts, -⟩ := exists_statements
  intro sql hsound
  have hlisted : ∀ table ∈ (final ((ensureSchema nowMs).run sql)).tables, table ∈ schema := by
    refine Migrations.Calls.ensure_keeps (calls nowMs)
      (I := fun sql => ∀ table ∈ sql.tables, table ∈ schema) ?_ ?_ ?_ hsound.listed
    · intro sql h
      show ∀ table ∈ (final (currentVersion.run sql)).tables, _
      rw [(currentVersion_reading sql).same]
      exact h
    · intro m hm statement hstatement sql h table htable
      rcases (grown m.version statement sql).new table htable with hold | hparse
      · exact h table hold
      · exact mem_schema.mpr ⟨m, hm, statement, hstatement, hparse⟩
    · intro version sql h
      show ∀ table ∈ (final ((stamp nowMs version).run sql)).tables, _
      rw [(marked nowMs version sql).tables]
      exact h
  have hrun := (calls_lawful nowMs).spec_ensure scripts
    (by rw [hscripts]; exact List.pairwise_singleton _ _)
    (by rw [hscripts]; simp) sql hsound.stamps
  cases hr : (ensureSchema nowMs).run sql with
  | ok a sql' =>
    rw [hr] at hlisted
    change Outcome _ _ ((ensureSchema nowMs).run sql) at hrun
    rw [hr] at hrun
    exact ⟨⟨hrun.1, hlisted⟩, migrated_of_created hlisted hrun.2⟩
  | error e sql' =>
    rw [hr] at hlisted
    change Outcome _ _ ((ensureSchema nowMs).run sql) at hrun
    rw [hr] at hrun
    exact ⟨hrun, hlisted⟩

/-- The runner leaves the rows of the pages as they are. -/
theorem rows_ensureSchema (nowMs : Int64) (sql : SqlStorage) :
    (final ((ensureSchema nowMs).run sql)).rows = sql.rows := by
  refine Migrations.Calls.ensure_keeps (calls nowMs) (I := fun sql' => sql'.rows = sql.rows)
    ?_ ?_ ?_ rfl
  · exact fun sql' h => (currentVersion_reading sql').rows.trans h
  · exact fun m _ statement _ sql' h => (grown m.version statement sql').rows.trans h
  · exact fun version sql' h => (marked nowMs version sql').rows.trans h

/-- No table is dropped. -/
theorem tables_ensureSchema (nowMs : Int64) (sql : SqlStorage) :
    sql.tables ⊆ (final ((ensureSchema nowMs).run sql)).tables := by
  refine Migrations.Calls.ensure_keeps (calls nowMs)
    (I := fun sql' => sql.tables ⊆ sql'.tables) ?_ ?_ ?_ (List.Subset.refl _)
  · intro sql' h
    show sql.tables ⊆ (final (currentVersion.run sql')).tables
    rw [(currentVersion_reading sql').same]
    exact h
  · exact fun m _ statement _ sql' h =>
      List.Subset.trans h (grown m.version statement sql').kept
  · intro version sql' h
    show sql.tables ⊆ (final ((stamp nowMs version).run sql')).tables
    rwa [(marked nowMs version sql').tables]

theorem Quiet.mono {sql sql' : SqlStorage} (h : Quiet sql) (hfaults : sql'.faults = sql.faults)
    (hcalls : sql.calls ≤ sql'.calls) : Quiet sql' := by
  intro k hk
  rw [hfaults]
  exact h k (Nat.le_trans hcalls hk)

/-- An attempt may fail for want of a table, and brings no new faults. -/
theorem quiet_ensureSchema (nowMs : Int64) (sql : SqlStorage) (h : Quiet sql) :
    Quiet (final ((ensureSchema nowMs).run sql)) := by
  refine Migrations.Calls.ensure_keeps (calls nowMs) (I := Quiet) ?_ ?_ ?_ h
  · intro sql h
    exact h.mono (currentVersion_reading sql).faults (currentVersion_reading sql).calls
  · intro m _ statement _ sql h
    exact h.mono (grown m.version statement sql).faults (grown m.version statement sql).calls
  · intro version sql h
    exact h.mono (marked nowMs version sql).faults (marked nowMs version sql).calls

theorem Quiet.execStatement {sql : SqlStorage} (h : Quiet sql) (version : Int64)
    {statement : String} {table : TableDef} (hparse : TableDef.parse statement = some table) :
    ∃ sql', (execStatement version statement).run sql = .ok () sql' ∧ Quiet sql' ∧
      sql.tables ⊆ sql'.tables ∧ sql'.has table.name = true := by
  obtain ⟨sql', hrun⟩ :
      ∃ sql', (DoMigrations.execStatement version statement).run sql = .ok () sql' := by
    unfold DoMigrations.execStatement
    rw [Effect.run_adaptExcept, SqlStorage.run_execScript, h _ (Nat.le_refl _), hparse]
    dsimp only
    by_cases hhas : sql.has table.name = true
    · exact ⟨_, by rw [if_pos hhas]⟩
    · exact ⟨_, by rw [if_neg hhas]⟩
  have houtcome := execStatement_outcome version statement sql
  rw [hrun] at houtcome
  obtain ⟨hgrown, table', hparse', hhas⟩ := houtcome
  obtain rfl : table = table' := Option.some.inj (hparse.symm.trans hparse')
  exact ⟨sql', hrun, h.mono hgrown.faults hgrown.calls, hgrown.kept, hhas⟩

theorem Quiet.stamp {sql : SqlStorage} (h : Quiet sql) (nowMs version : Int64)
    (hhas : sql.has "schema_version" = true) :
    ∃ sql', (stamp nowMs version).run sql = .ok () sql' ∧ Quiet sql' := by
  obtain ⟨sql', hrun⟩ : ∃ sql', (DoMigrations.stamp nowMs version).run sql = .ok () sql' := by
    unfold DoMigrations.stamp
    rw [Effect.run_adaptExcept, SqlStorage.run_exec, h _ (Nat.le_refl _), hhas]
    exact ⟨_, rfl⟩
  have hmarked := marked nowMs version sql
  rw [hrun] at hmarked
  exact ⟨sql', hrun, h.mono hmarked.faults hmarked.calls⟩

/-- An attempt that meets no fault succeeds, whatever came before. -/
theorem Quiet.ensureSchema {sql : SqlStorage} (h : Quiet sql) (nowMs : Int64) :
    ∃ sql', (ensureSchema nowMs).run sql = .ok () sql' ∧ Quiet sql' := by
  refine Migrations.Calls.ensure_ok (calls nowMs) (I := Quiet) ?_ ?_ h
  · intro sql h
    exact h.mono (currentVersion_reading sql).faults (currentVersion_reading sql).calls
  · intro m hm sql h
    obtain ⟨first, second, hscripts, hparse⟩ := exists_statements
    rw [hscripts] at hm
    obtain rfl := List.mem_singleton.mp hm
    obtain ⟨hfirst, hsecond⟩ : TableDef.parse first = some schema[0] ∧
        TableDef.parse second = some schema[1] := by simpa [schema, eq_comm] using hparse
    obtain ⟨sql₁, hrun₁, hquiet₁, -, hhas⟩ := h.execStatement 1 hfirst
    obtain ⟨sql₂, hrun₂, hquiet₂, hkept, -⟩ := hquiet₁.execStatement 1 hsecond
    obtain ⟨sql₃, hrun₃, hquiet₃⟩ := hquiet₂.stamp nowMs 1 (has_mono hkept hhas)
    refine ⟨sql₃, ?_, hquiet₃⟩
    show EStateM.run (do
      forM [first, second] (DoMigrations.execStatement 1)
      DoMigrations.stamp nowMs 1) sql = _
    rw [EStateM.run_bind, List.forM_cons, EStateM.run_bind, hrun₁]
    dsimp only
    rw [List.forM_cons, EStateM.run_bind, hrun₂]
    exact hrun₃

/-- A database of the same schema is as sound. -/
theorem Sound.of_schema {sql sql' : SqlStorage} (h : Sound sql)
    (hschema : SqlStorage.Schema sql.tables sql.versions sql') : Sound sql' where
  stamps := by
    intro v hstamped m hm hle statement hstatement
    obtain ⟨table, hparse, hhas⟩ := h.stamps v (by
      obtain ⟨row, hrow, rfl⟩ := hstamped
      exact ⟨row, hschema.2 ▸ hrow, rfl⟩) m hm hle statement hstatement
    exact ⟨table, hparse, has_mono (by rw [hschema.1]; exact List.Subset.refl _) hhas⟩
  listed := by
    rw [hschema.1]
    exact h.listed

theorem sound_new (faults : Nat → Option String) : Sound { faults } where
  stamps := by
    rintro v ⟨row, hrow, -⟩
    exact absurd hrow List.not_mem_nil
  listed := nofun

end DoMigrations

/-! ## The object -/

/-- The platform, with the migrations of this module. -/
def Platform.migrating (platform : Platform SqlStorage) : Platform SqlStorage :=
  { platform with ensureSchema := DoMigrations.ensureSchema }

namespace EdgeReplicaObject

open DoMigrations (Migrated Quiet)

/-- The instance has migrated the database that it believes to have migrated. -/
structure Ready (object : EdgeReplicaObject SqlStorage) : Prop where
  sound : DoMigrations.Sound object.sql
  ready : object.schemaReady = true → Migrated object.sql

/-- What a request leaves of an object. -/
structure Kept (before after : EdgeReplicaObject SqlStorage) : Prop where
  ready : after.Ready
  keyring : after.keyring = before.keyring
  rows : after.sql.rows = before.sql.rows
  migrated : Migrated before.sql → Migrated after.sql
  quiet : Quiet before.sql → Quiet after.sql

variable {self : EdgeReplicaObject SqlStorage}

theorem ensureSchema_outcome (platform : Platform SqlStorage) (nowMs : Int64) (h : self.Ready) :
    Outcome (fun _ self' => Kept self self' ∧ Migrated self'.sql) (fun _ self' => Kept self self')
      ((ensureSchema platform.migrating nowMs).run self) := by
  show Outcome _ _ (ensureSchema platform.migrating nowMs self)
  unfold ensureSchema
  split
  · next hready => exact ⟨⟨h, rfl, rfl, id, id⟩, h.ready hready⟩
  · next hready =>
    have hrun := DoMigrations.spec_ensureSchema nowMs self.sql h.sound
    have hrows := DoMigrations.rows_ensureSchema nowMs self.sql
    have htables := DoMigrations.tables_ensureSchema nowMs self.sql
    have hquiet := DoMigrations.quiet_ensureSchema nowMs self.sql
    have hmigrating : platform.migrating.ensureSchema = DoMigrations.ensureSchema := rfl
    rw [hmigrating]
    cases hr : (DoMigrations.ensureSchema nowMs).run self.sql with
    | ok u sql =>
      rw [hr] at hrun hrows hquiet
      exact ⟨⟨⟨hrun.1, fun _ => hrun.2⟩, rfl, hrows, fun _ => hrun.2, hquiet⟩, hrun.2⟩
    | error e sql =>
      rw [hr] at hrun hrows htables hquiet
      exact ⟨⟨hrun, fun hr => absurd hr hready⟩, rfl, hrows,
        fun hold table htable => htables (hold table htable), hquiet⟩

variable [TokenClaimsCodec]

/-- A request that does not get past the schema opens no session, and every session opens
on the tables. -/
theorem fetch_outcome (platform : Platform SqlStorage) (nowMs nowUnix : Int64) (req : Request)
    (h : self.Ready) :
    Outcome (fun answer self' => Kept self self' ∧ ∀ task ∈ answer.2, Migrated self'.sql ∧
        ∃ direction refuses, task = .spawn direction self'.sql refuses)
      (fun _ self' => Kept self self')
      ((fetch platform.migrating nowMs nowUnix req).run self) := by
  have hschema := ensureSchema_outcome platform nowMs h
  unfold fetch
  rw [EStateM.run_bind]
  cases hr : (ensureSchema platform.migrating nowMs).run self with
  | error e self' =>
    rw [hr] at hschema
    exact hschema
  | ok u self' =>
    rw [hr] at hschema
    obtain ⟨hkept, hmigrated⟩ := hschema
    dsimp only
    by_cases hupgrade : req.isWebsocketUpgrade = true
    · rw [if_pos hupgrade, EStateM.run_bind, EStateM.run_get]
      dsimp only
      cases hhandled :
        DoSyncWs.handleUpgrade platform.migrating self'.sql nowUnix self'.keyring req with
      | error e => exact hkept
      | ok answer =>
        refine ⟨hkept, fun task htask => ⟨hmigrated, ?_⟩⟩
        obtain ⟨response, session⟩ := answer
        obtain rfl : session = some task := htask
        obtain ⟨m, ctx, refuses, -, htask⟩ := DoSyncWs.session_of_handleUpgrade hhandled
        exact ⟨ctx.direction, refuses, htask⟩
    · rw [if_neg hupgrade]
      exact ⟨hkept, nofun⟩

end EdgeReplicaObject

end EdgeReplica
