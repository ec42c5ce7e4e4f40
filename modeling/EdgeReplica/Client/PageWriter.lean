-- SUMMARY: The client's page writer with its transaction, and what SQLite's documentation says of the file that a commit leaves.
import EdgeReplica.Client.Pages
import EdgeReplica.Lib.SqliteHeader

/-!
# Page writer

The writer holds a transaction of SQLite open and writes pages into it through
`sqlite_dbpage`. SQLite is a parameter: what it refuses, and the file that a `COMMIT`
leaves, are its own. What its documentation says of that file is stated apart, as a
class of laws.
-/

namespace EdgeReplica

/-- What SQLite makes of a transaction of the writer. A file is the database that
`sqlite_dbpage` shows of it. -/
class Sqlite where
  /-- The file can be opened for reading and writing. -/
  opens (file : Database) : Bool
  /-- `BEGIN DEFERRED` succeeds. -/
  begins (file : Database) : Bool
  /-- `INSERT OR REPLACE INTO sqlite_dbpage(pgno, data)` succeeds after the rows `written`. -/
  inserts (file : Database) (written : List PageDataEntry) (entry : PageDataEntry) : Bool
  /-- The file after the `COMMIT` of the rows `written`, if it succeeds. -/
  commit (file : Database) (written : List PageDataEntry) : Option Database

/-- SQLite refused the writer something. -/
def ClientError.ofWriter : ClientError → Bool
  | .openRw | .beginTransaction | .writePage _ | .commit => true
  | _ => false

/-- The file as others see it, and the rows of the open transaction. -/
structure PageWriter where
  file : Database
  written : List PageDataEntry
  committed : Bool

namespace PageWriter

/-- `Drop`: `ROLLBACK`, if nothing was committed. -/
def drop (w : PageWriter) : PageWriter := if w.committed then w else { w with written := [] }

theorem file_drop (w : PageWriter) : w.drop.file = w.file := by
  unfold drop
  split <;> rfl

variable [Sqlite]

def openDb (file : Database) : Except ClientError PageWriter :=
  if Sqlite.opens file then
    if Sqlite.begins file then .ok { file, written := [], committed := false }
    else .error .beginTransaction
  else .error .openRw

def write (w : PageWriter) (pageNo : UInt32) (data : Bytes) : Except ClientError PageWriter :=
  if Sqlite.inserts w.file w.written ⟨pageNo, data⟩ then
    .ok { w with written := w.written ++ [⟨pageNo, data⟩] }
  else .error (.writePage pageNo)

def commit (w : PageWriter) : Except ClientError PageWriter :=
  match Sqlite.commit w.file w.written with
  | some file => .ok { file, written := [], committed := true }
  | none => .error .commit

/-! ## Writing many rows -/

/-- Write the rows of a list, one after the other. -/
def writes (w : PageWriter) (entries : List PageDataEntry) : Except ClientError PageWriter :=
  entries.foldlM (fun w entry => w.write entry.pageNo entry.data) w

/-- Open a transaction on the file, and write the rows into it. -/
def fill (file : Database) (entries : List PageDataEntry) : Except ClientError PageWriter :=
  (openDb file).bind fun w => w.writes entries

variable {file : Database} {entries more : List PageDataEntry} {w w' : PageWriter}
  {error : ClientError}

theorem openDb_eq_ok (h : openDb file = .ok w) : w = ⟨file, [], false⟩ := by
  unfold openDb at h
  split at h
  · split at h
    · exact (Except.ok.inj h).symm
    · cases h
  · cases h

theorem ofWriter_of_openDb (h : openDb file = .error error) : error.ofWriter = true := by
  unfold openDb at h
  split at h
  · split at h
    · cases h
    · obtain rfl := Except.error.inj h
      rfl
  · obtain rfl := Except.error.inj h
    rfl

theorem write_eq_ok {pageNo : UInt32} {data : Bytes} (h : w.write pageNo data = .ok w') :
    w' = { w with written := w.written ++ [⟨pageNo, data⟩] } := by
  unfold write at h
  split at h
  · exact (Except.ok.inj h).symm
  · cases h

theorem ofWriter_of_write {pageNo : UInt32} {data : Bytes}
    (h : w.write pageNo data = .error error) : error.ofWriter = true := by
  unfold write at h
  split at h
  · cases h
  · obtain rfl := Except.error.inj h
    rfl

theorem commit_eq_ok (h : w.commit = .ok w') :
    ∃ after, Sqlite.commit w.file w.written = some after ∧ w' = ⟨after, [], true⟩ := by
  unfold commit at h
  split at h
  · next after hafter => exact ⟨after, hafter, (Except.ok.inj h).symm⟩
  · cases h

theorem commit_eq_error (h : w.commit = .error error) :
    Sqlite.commit w.file w.written = none ∧ error = .commit := by
  unfold commit at h
  split at h
  · cases h
  · next hnone => exact ⟨hnone, (Except.error.inj h).symm⟩

theorem writes_cons (entry : PageDataEntry) :
    w.writes (entry :: entries) =
      (w.write entry.pageNo entry.data).bind fun w => w.writes entries := by
  rw [writes, List.foldlM_cons]
  rfl

theorem writes_singleton (entry : PageDataEntry) :
    w.writes [entry] = w.write entry.pageNo entry.data := by
  rw [writes_cons]
  cases w.write entry.pageNo entry.data <;> rfl

theorem writes_append :
    w.writes (entries ++ more) = (w.writes entries).bind fun w => w.writes more := by
  rw [writes, List.foldlM_append]
  rfl

theorem writes_eq_ok (h : w.writes entries = .ok w') :
    w' = { w with written := w.written ++ entries } := by
  induction entries generalizing w with
  | nil =>
    obtain rfl : w = w' := Except.ok.inj h
    rw [List.append_nil]
  | cons entry entries ih =>
    rw [writes_cons] at h
    cases hwrite : w.write entry.pageNo entry.data with
    | error e =>
      rw [hwrite] at h
      cases h
    | ok w₁ =>
      rw [hwrite] at h
      rw [ih h, write_eq_ok hwrite]
      simp

theorem fill_nil : fill file [] = openDb file := by
  unfold fill
  cases openDb file <;> rfl

theorem fill_append :
    fill file (entries ++ more) = (fill file entries).bind fun w => w.writes more := by
  unfold fill
  cases openDb file with
  | error e => rfl
  | ok w => exact writes_append

/-- A writer that took some rows holds them, on the file as it was. -/
theorem fill_eq_ok (h : fill file entries = .ok w) : w = ⟨file, entries, false⟩ := by
  unfold fill at h
  cases hopen : openDb file with
  | error e =>
    rw [hopen] at h
    cases h
  | ok w₁ =>
    rw [hopen] at h
    rw [writes_eq_ok h, openDb_eq_ok hopen, List.nil_append]

end PageWriter

/-! ## What SQLite takes -/

namespace Sqlite

variable [Sqlite] {file : Database} {entries more : List PageDataEntry} {w : PageWriter}
  {error : ClientError}

/-- The transaction on the file takes all of the rows. -/
def Takes (file : Database) (entries : List PageDataEntry) : Prop :=
  (PageWriter.fill file entries).isOk = true

/-- The file takes the rows, and their `COMMIT`. -/
def Accepts (file : Database) (entries : List PageDataEntry) : Prop :=
  Takes file entries ∧ (Sqlite.commit file entries).isSome = true

theorem takes_iff :
    Takes file entries ↔ PageWriter.fill file entries = .ok ⟨file, entries, false⟩ := by
  unfold Takes
  constructor
  · intro h
    cases hfill : PageWriter.fill file entries with
    | error e =>
      rw [hfill] at h
      cases h
    | ok w => rw [PageWriter.fill_eq_ok hfill]
  · intro h
    rw [h]
    rfl

theorem Takes.of_fill (h : PageWriter.fill file entries = .ok w) : Takes file entries :=
  takes_iff.mpr (PageWriter.fill_eq_ok h ▸ h)

/-- A file on which no transaction can be opened takes nothing. -/
theorem not_takes_of_openDb (h : PageWriter.openDb file = .error error) : ¬ Takes file entries := by
  unfold Takes PageWriter.fill
  rw [h]
  nofun

/-- What is taken in one go is taken piece by piece. -/
theorem takes_append_iff (h : Takes file entries) (more : List PageDataEntry) :
    Takes file (entries ++ more) ↔
      ((⟨file, entries, false⟩ : PageWriter).writes more).isOk = true := by
  unfold Takes
  rw [PageWriter.fill_append, takes_iff.mp h]
  rfl

/-- What takes the rows takes the first of them. -/
theorem Takes.of_append (h : Takes file (entries ++ more)) : Takes file entries := by
  unfold Takes at h ⊢
  rw [PageWriter.fill_append] at h
  cases hfill : PageWriter.fill file entries with
  | error e =>
    rw [hfill] at h
    cases h
  | ok w => rfl

end Sqlite

/-! ## What is documented of a commit -/

/-- The table has all pages up to `n`. -/
def PageTable.Covers (table : PageTable) (n : Nat) : Prop :=
  ∀ p : UInt32, p ≠ 0 → p.toNat ≤ n → table p ≠ none

/-- The first page of a table. -/
def PageTable.first (table : PageTable) : Bytes := (table 1).getD []

namespace Sqlite

open SqliteHeader

/-- The file vacuums itself, and the first page that it was given leaves it something to do. -/
def Vacuums (file : Database) (first : Bytes) : Prop :=
  AutoVacuum (file.bytes 1) ∧ freePages first ≠ 0

instance (file : Database) (first : Bytes) : Decidable (Vacuums file first) := by
  unfold Vacuums
  infer_instance

/-- The file has the pages `1..=n` of `image`, but for what a commit stamps on the first. -/
structure Left (image : PageTable) (n : Nat) (file : Database) : Prop where
  length : file.pages.length = n
  first : SameButStamps image.first (file.bytes 1)
  recorded : recorded (file.bytes 1) = some n
  rest (p : UInt32) (hfirst : p ≠ 1) (hle : p.toNat ≤ n) (hzero : p ≠ 0) : file.table p = image p

/-- The documented behaviour of a commit. A file ends where its first page says. -/
class Documented [Sqlite] : Prop where
  commit_nil {file after : Database} (h : Sqlite.commit file [] = some after) : after = file
  commit_left {file after : Database} {written : List PageDataEntry} {n : Nat}
    (htakes : Takes file written) (hwritten : written ≠ [])
    (hcommit : Sqlite.commit file written = some after)
    (hrecorded : SqliteHeader.recorded (file.table.replay written).first = some n)
    (hcovers : (file.table.replay written).Covers n)
    (hvacuum : ¬ Vacuums file (file.table.replay written).first) :
    Left (file.table.replay written) n after

/-- Only the pages that the file has matter. -/
theorem Left.congr {image image' : PageTable} {n : Nat} {file : Database} (h : Left image n file)
    (heq : ∀ p : UInt32, p ≠ 0 → p.toNat ≤ n → image' p = image p) : Left image' n file := by
  have hpos : 1 ≤ n := Nat.one_le_iff_ne_zero.mpr (recorded_eq_some.mp h.recorded).2.2.1
  have hfirst : image'.first = image.first := by
    rw [PageTable.first, PageTable.first, heq 1 (by decide) hpos]
  refine ⟨h.length, hfirst ▸ h.first, h.recorded, fun p hp hle hzero => ?_⟩
  rw [h.rest p hp hle hzero, heq p hzero hle]

/-- What the commit of `image` over `old` leaves. -/
structure Settles (old : Database) (image : PageTable) (new : Database) : Prop where
  same (h : image = old.table) : new = old
  left (h : image ≠ old.table) {n : Nat} (hrecorded : SqliteHeader.recorded image.first = some n)
    (hcovers : image.Covers n) (hvacuum : ¬ Vacuums old image.first) : Left image n new

end Sqlite

/-! ## Files of pages that are given -/

namespace Database

/-- The file has as many pages as its header records. -/
def Counted (file : Database) : Prop :=
  ∀ n, SqliteHeader.recorded (file.bytes 1) = some n → file.pages.length = n

/-- The database whose pages `1..=n` are those of `f`. -/
def tabulate (n : Nat) (h : n ≤ 4294967294) (f : UInt32 → Bytes) : Database where
  pages := (List.range n).map fun i => f (UInt32.ofNat (i + 1))
  bounded := by simpa using h

variable {n : Nat} {h : n ≤ 4294967294} {f : UInt32 → Bytes}

theorem length_tabulate : (tabulate n h f).pages.length = n := by simp [tabulate]

theorem table_tabulate {p : UInt32} (hzero : p ≠ 0) (hle : p.toNat ≤ n) :
    (tabulate n h f).table p = some (f p) := by
  have hpos : p.toNat ≠ 0 := fun h0 => hzero (UInt32.toNat_inj.mp h0)
  have hpage : UInt32.ofNat (p.toNat - 1 + 1) = p := by
    rw [Nat.sub_add_cancel (Nat.pos_of_ne_zero hpos), UInt32.ofNat_toNat]
  rw [table, if_neg hzero, tabulate, List.getElem?_map, List.getElem?_range (by omega),
    Option.map_some, hpage]

/-- The size of the pages of the file. An empty file will have SQLite's default. -/
def pageSize (file : Database) : Nat := (file.pages.head?.map List.length).getD 4096

end Database

namespace Sqlite

open SqliteHeader

/-- The version of the library, as a commit writes it. -/
def VERSION_NUMBER : Nat := 3049001

/-- What a commit writes as page `p`. A page that it was never given is a hole of zeros. -/
def committedPage (file : Database) (image : PageTable) (p : UInt32) : Bytes :=
  if p = 1 then stamp (changeCounter (file.bytes 1) + 1) VERSION_NUMBER image.first
  else (image p).getD (List.replicate file.pageSize 0)

/-- SQLite on a file that does not vacuum itself and that no one else has open, when the
first page records the number of pages. -/
abbrev dbpage : Sqlite where
  opens _ := true
  begins _ := true
  inserts file _ entry := decide (entry.pageNo ≠ 0 ∧ entry.data.length = file.pageSize)
  commit file written :=
    if written = [] then some file
    else
      (SqliteHeader.recorded (file.table.replay written).first).bind fun n =>
        if h : n ≤ 4294967294 then
          some (.tabulate n h (committedPage file (file.table.replay written)))
        else none

/-- A commit of some rows leaves as many pages as the first page says. -/
theorem commit_dbpage {file after : Database} {written : List PageDataEntry} {n : Nat}
    (hwritten : written ≠ []) (hcommit : @Sqlite.commit dbpage file written = some after)
    (hrecorded : SqliteHeader.recorded (file.table.replay written).first = some n) :
    ∃ h : n ≤ 4294967294,
      after = .tabulate n h (committedPage file (file.table.replay written)) := by
  have hdef : @Sqlite.commit dbpage file written = _ := if_neg hwritten
  rw [hdef, hrecorded, Option.bind_some] at hcommit
  split at hcommit
  · next h => exact ⟨h, (Option.some.inj hcommit).symm⟩
  · cases hcommit

theorem dbpage_documented : @Documented dbpage := by
  let _ := dbpage
  refine ⟨fun h => (Option.some.inj h).symm, ?_⟩
  intro file after written n _ hwritten hcommit hrecorded hcovers _
  obtain ⟨hle, rfl⟩ := commit_dbpage hwritten hcommit hrecorded
  have hpos : 1 ≤ n := Nat.one_le_iff_ne_zero.mpr (recorded_eq_some.mp hrecorded).2.2.1
  have hfirst : (Database.tabulate n hle
      (committedPage file (file.table.replay written))).bytes 1 =
        stamp (changeCounter (file.bytes 1) + 1) VERSION_NUMBER
          (file.table.replay written).first := by
    rw [Database.bytes, Database.table_tabulate (by decide) hpos]
    rfl
  refine ⟨Database.length_tabulate, ?_, ?_, fun p hp hpn hzero => ?_⟩
  · rw [hfirst]
    exact sameButStamps_stamp
  · rw [hfirst]
    exact recorded_stamp hrecorded
  · obtain ⟨data, hdata⟩ := Option.ne_none_iff_exists'.mp (hcovers p hzero hpn)
    rw [Database.table_tabulate hzero hpn, committedPage, if_neg hp, hdata]
    rfl

/-- A file that ends where its header says is counted. -/
theorem Left.counted {image : PageTable} {n : Nat} {file : Database} (h : Left image n file) :
    file.Counted := by
  intro m hm
  rw [h.length]
  exact Option.some.inj (h.recorded.symm.trans hm)

/-- A commit does not decide whether the file vacuums itself. -/
theorem Left.vacuums_iff {source file : Database} {n : Nat} (h : Left source.table n file)
    (first : Bytes) : Vacuums file first ↔ Vacuums source first := by
  have hfield : field (file.bytes 1) 52 4 = field (source.bytes 1) 52 4 :=
    h.first.field_eq fun i _ _ => by unfold IsStamp; omega
  rw [Vacuums, Vacuums, AutoVacuum, AutoVacuum, hfield]

/-! ### Small databases -/

/-- A number in four bytes of a header. -/
def word (n : Nat) : Bytes := [byte n 3, byte n 2, byte n 1, byte n 0]

/-- The first page of a database of `count` pages and no tables, with its change counter,
and the first and the number of its free pages. -/
def firstPage (count counter trunk free : Nat) : Bytes :=
  magic ++ [2, 0, 1, 1, 0, 64, 32, 32] ++ word counter ++ word count ++ word trunk ++ word free ++
    word 1 ++ word 4 ++ List.replicate 8 0 ++ word 1 ++ List.replicate 32 0 ++ word counter ++
    word VERSION_NUMBER ++ [13, 0, 0, 0, 0, 2, 0] ++ List.replicate 405 0

/-- The list of free pages ends on this page. -/
def freePage : Bytes := List.replicate 512 0

/-- A database of two pages, one of them free. -/
def twoPages : Database := ⟨[firstPage 2 5 2 1, freePage], by simp⟩

/-- An older database of one page. -/
def onePage : Database := .single (firstPage 1 1 0 0)

end Sqlite

/-- What BLAKE3 makes of the pages of small databases. -/
def Blake3.pages : List (Bytes × Bytes) :=
  [(Sqlite.firstPage 2 5 2 1,
    [7, 42, 102, 81, 116, 240, 205, 61, 168, 3, 58, 188, 135, 53, 244, 130,
      231, 200, 247, 92, 55, 0, 140, 186, 24, 108, 130, 218, 137, 5, 223, 57]),
   (Sqlite.freePage,
    [191, 166, 18, 21, 82, 0, 63, 230, 143, 108, 7, 39, 165, 179, 157, 56,
      10, 137, 19, 151, 176, 84, 148, 144, 31, 134, 68, 96, 57, 197, 108, 36]),
   (Sqlite.firstPage 1 1 0 0,
    [254, 13, 100, 2, 216, 230, 181, 100, 210, 61, 233, 16, 113, 232, 62, 149,
      185, 64, 155, 134, 215, 224, 171, 105, 245, 23, 246, 180, 244, 180, 75, 81]),
   (Sqlite.firstPage 2 6 2 1,
    [248, 209, 28, 134, 211, 138, 27, 219, 165, 149, 229, 239, 225, 7, 44, 49,
      209, 236, 185, 254, 137, 213, 90, 203, 113, 100, 7, 2, 151, 203, 49, 91]),
   (Sqlite.firstPage 2 2 2 1,
    [164, 255, 188, 71, 41, 37, 147, 24, 120, 8, 227, 167, 245, 161, 120, 107,
      226, 28, 86, 158, 72, 163, 121, 122, 184, 144, 67, 209, 131, 206, 126, 96])]

/-- The digest on these pages, for runs on fixed inputs. -/
abbrev Blake3.onPages : Blake3 where
  hash data := (Blake3.pages.lookup data).getD []

theorem Blake3.onPages_injOn :
    Set.InjOn (@pageHash Blake3.onPages) { data | data ∈ Blake3.pages.map Prod.fst } := by
  intro a ha b hb hab
  have hpages : ∀ a ∈ Blake3.pages.map Prod.fst, ∀ b ∈ Blake3.pages.map Prod.fst,
      @pageHash Blake3.onPages a = @pageHash Blake3.onPages b → a = b := by decide +kernel
  exact hpages a ha b hb hab

end EdgeReplica
