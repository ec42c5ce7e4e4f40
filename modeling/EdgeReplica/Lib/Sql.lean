-- SUMMARY: Relational tables with unique keys and references: queries, statements that keep the rules, and batches.
import Mathlib.Data.List.Sort
import EdgeReplica.Lib.Effect

/-!
# Statements over tables

A database is a type with tables in it; a table is a list of rows, in the order in
which they were inserted, with the rules that its rows keep. A statement takes
effect as a whole or fails with the rule it would break.
-/

namespace Sql

/-- The order in which a query without `ORDER BY` visits the rows. -/
class ScanOrder where
  scan {R : Type} : List R → List R
  scan_perm {R : Type} (rows : List R) : (scan rows).Perm rows

/-- The oldest row first. -/
abbrev ScanOrder.oldestFirst : ScanOrder := ⟨fun rows => rows, fun _ => .rfl⟩

/-- `LOWER` folds the letters of ASCII only. -/
def lower (s : String) : String := .ofList (s.toList.map Char.toLower)

/-- The rule that a statement would break. -/
inductive Violation where
  | unique (columns : String)
  | foreignKey

def Violation.text : Violation → String
  | .unique columns => s!"UNIQUE constraint failed: {columns}"
  | .foreignKey => "FOREIGN KEY constraint failed"

/-- No two rows of a table are the same in some columns. -/
structure Unique (R : Type) where
  columns : String
  same : R → R → Bool

def Unique.on {R K : Type} [DecidableEq K] (columns : String) (key : R → K) : Unique R :=
  ⟨columns, fun row row' => key row = key row'⟩

/-- A table of a database, and the rules of its rows. -/
structure Table (D R : Type) where
  rows : D → List R
  setRows : List R → D → D
  rows_setRows : ∀ l d, rows (setRows l d) = l
  uniques : List (Unique R)
  /-- The rows that the row refers to are there. -/
  references : R → D → Bool

abbrev Stmt (D : Type) := EStateM Violation D

variable {D R R' : Type}

namespace Table

variable (t : Table D R)

/-- The rule that a new row would break. -/
def violation (row : R) (d : D) : Option Violation :=
  match t.uniques.find? fun rule => (t.rows d).any fun old => rule.same old row with
  | some rule => some (.unique rule.columns)
  | none => if t.references row d then none else some .foreignKey

/-- The database with one more row. -/
def add (row : R) (d : D) : D := t.setRows (t.rows d ++ [row]) d

def insert (row : R) : Stmt D Unit := do
  let d ← get
  match t.violation row d with
  | some rule => throw rule
  | none => set (t.add row d)

/-- The rows that `p` holds of. -/
def select [ScanOrder] (p : R → Bool) : Stmt D (List R) := do
  let d ← get
  return (ScanOrder.scan (t.rows d)).filter p

/-- Change the rows that `p` holds of, in columns that no rule is about. -/
def update (p : R → Bool) (f : R → R) : Stmt D Unit :=
  modify fun d => t.setRows ((t.rows d).map fun row => if p row then f row else row) d

/-- Delete the rows that `p` holds of and return them; no other row may refer to
them. -/
def delete [ScanOrder] (p : R → Bool) : Stmt D (List R) := do
  let d ← get
  set (t.setRows ((t.rows d).filter fun row => !p row) d)
  return (ScanOrder.scan (t.rows d)).filter p

/-- The pairs of rows that `on` holds of. -/
def join [ScanOrder] (t' : Table D R') (on : R → R' → Bool) : Stmt D (List (R × R')) := do
  let d ← get
  return ScanOrder.scan ((t.rows d).flatMap fun row => ((t'.rows d).filter (on row)).map (row, ·))

end Table

/-- All the statements, or none of them. -/
def batch (stmts : List (Stmt D Unit)) : Stmt D Unit := fun d =>
  match EStateM.run (forM stmts id) d with
  | .ok a d' => .ok a d'
  | .error rule _ => .error rule d

/-! ## What statements do -/

namespace Table

variable (t : Table D R)

theorem run_insert (row : R) (d : D) :
    (t.insert row).run d = match t.violation row d with
      | some rule => .error rule d
      | none => .ok () (t.add row d) := by
  simp only [insert, EStateM.run_bind, EStateM.run_get]
  cases t.violation row d <;> rfl

/-- A row is admitted if it is new in the columns of every rule and what it refers to
is there. -/
theorem violation_eq_none {row : R} {d : D} :
    t.violation row d = none ↔
      (∀ rule ∈ t.uniques, ∀ old ∈ t.rows d, rule.same old row = false) ∧
        t.references row d = true := by
  unfold violation
  cases hfind : t.uniques.find? fun rule => (t.rows d).any fun old => rule.same old row with
  | some rule =>
    have hmem := List.mem_of_find?_eq_some hfind
    have hany := List.find?_some hfind
    obtain ⟨old, hold, hsame⟩ := List.any_eq_true.mp hany
    constructor
    · intro h
      cases h
    · rintro ⟨hnew, -⟩
      rw [hnew rule hmem old hold] at hsame
      cases hsame
  | none =>
    have hnew := List.find?_eq_none.mp hfind
    simp only [List.any_eq_true, not_exists, not_and, Bool.not_eq_true] at hnew
    cases href : t.references row d with
    | true => simpa using hnew
    | false => simp

/-- The rule of a table that has rows like the new one is what the insertion fails
with, whatever the new row refers to. -/
theorem violation_unique {row : R} {d : D} {rule : Unique R} {old : R} (hrule : rule ∈ t.uniques)
    (hold : old ∈ t.rows d) (hsame : rule.same old row = true) :
    ∃ rule' ∈ t.uniques, t.violation row d = some (.unique rule'.columns) := by
  have hsome :
      (t.uniques.find? fun rule => (t.rows d).any fun old => rule.same old row).isSome := by
    rw [List.find?_isSome]
    exact ⟨rule, hrule, List.any_eq_true.mpr ⟨old, hold, hsame⟩⟩
  obtain ⟨rule', hfind⟩ := Option.isSome_iff_exists.mp hsome
  exact ⟨rule', List.mem_of_find?_eq_some hfind, by rw [violation, hfind]⟩

/-- A row that refers to nothing that is missing can only be a duplicate. -/
theorem unique_of_violation {row : R} {d : D} {rule : Violation} (href : t.references row d = true)
    (h : t.violation row d = some rule) : ∃ columns, rule = .unique columns := by
  unfold violation at h
  split at h
  · exact ⟨_, (Option.some.inj h).symm⟩
  · rw [if_pos href] at h
    cases h

/-- The rows keep the rules of their table. -/
def Distinct (d : D) : Prop :=
  ∀ rule ∈ t.uniques, (t.rows d).Pairwise fun row row' => rule.same row row' = false

variable {t}

theorem Distinct.insert {row : R} {d : D} (h : t.Distinct d) (hnew : t.violation row d = none) :
    t.Distinct (t.add row d) := by
  intro rule hrule
  rw [add, t.rows_setRows, List.pairwise_append]
  refine ⟨h rule hrule, List.pairwise_singleton _ _, ?_⟩
  intro old hold row' hrow'
  obtain rfl := List.mem_singleton.mp hrow'
  exact (t.violation_eq_none.mp hnew).1 rule hrule old hold

theorem Distinct.delete {d : D} (h : t.Distinct d) (p : R → Bool) :
    t.Distinct (t.setRows ((t.rows d).filter fun row => !p row) d) := by
  intro rule hrule
  rw [t.rows_setRows]
  exact (h rule hrule).sublist List.filter_sublist

/-- Rows with the same columns are one row. -/
theorem Distinct.eq_of_key {K : Type} [DecidableEq K] {columns : String} {key : R → K} {d : D}
    (h : t.Distinct d) (hrule : Unique.on columns key ∈ t.uniques) {row row' : R}
    (hrow : row ∈ t.rows d) (hrow' : row' ∈ t.rows d) (hkey : key row = key row') : row = row' := by
  have hkeys : ((t.rows d).map key).Nodup :=
    List.pairwise_map.mpr ((h _ hrule).imp fun hdiff => of_decide_eq_false hdiff)
  exact List.inj_on_of_nodup_map hkeys hrow hrow' hkey

/-- A change of columns that no rule looks at. -/
theorem Distinct.update {d : D} (h : t.Distinct d) (p : R → Bool) {f : R → R}
    (hf : ∀ rule ∈ t.uniques, ∀ row row', rule.same (f row) row' = rule.same row row' ∧
      rule.same row (f row') = rule.same row row') :
    t.Distinct (t.setRows ((t.rows d).map fun row => if p row then f row else row) d) := by
  intro rule hrule
  rw [t.rows_setRows, List.pairwise_map]
  refine (h rule hrule).imp ?_
  intro row row' hdiff
  have hleft := fun row' => (hf rule hrule row row').1
  have hright := fun row => (hf rule hrule row row').2
  split <;> split <;> simp only [hleft, hright, hdiff]

/-- A table keeps its rules when its rows stay. -/
theorem Distinct.congr {d d' : D} (h : t.Distinct d) (hrows : t.rows d' = t.rows d) :
    t.Distinct d' := by
  intro rule hrule
  rw [hrows]
  exact h rule hrule

end Table

theorem run_batch (stmts : List (Stmt D Unit)) (d : D) :
    (batch stmts).run d = match (forM stmts id : Stmt D PUnit).run d with
      | .ok a d' => .ok a d'
      | .error rule _ => .error rule d := rfl

/-- An insertion in front of other statements. -/
theorem run_insert_cons (t : Table D R) (row : R) (stmts : List (Stmt D Unit)) (d : D) :
    (forM (t.insert row :: stmts) id : Stmt D PUnit).run d = match t.violation row d with
      | some rule => .error rule d
      | none => (forM stmts id : Stmt D PUnit).run (t.add row d) := by
  rw [List.forM_cons, EStateM.run_bind, id, t.run_insert]
  cases t.violation row d <;> rfl

end Sql
