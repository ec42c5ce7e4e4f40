-- SUMMARY: The client's database as its pages, the errors a sync ends in, and the page reader.
import Mathlib.Logic.Function.Basic
import EdgeReplica.Services.SyncStorage

/-!
# Client pages

The client reads and writes its database through the `sqlite_dbpage` table, which
shows the pages `1..=n` of the file.
-/

namespace EdgeReplica

/-- The bytes of each page, by page number. -/
abbrev PageTable := UInt32 → Option Bytes

/-- The page table of a store. -/
def Pages.bytes (pages : Pages) : PageTable := fun p => (pages[p]?).map Page.data

/-- The bytes of page `p`, if the store has it. -/
def Pages.data (pages : Pages) (p : UInt32) : Bytes := (pages.bytes p).getD []

/-- The pages of `new`, and those of `old` that `new` does not have. -/
def PageTable.overlay (new old : PageTable) : PageTable := fun p => (new p).or (old p)

/-- The table after entries were written over it. -/
def PageTable.replay (table : PageTable) (entries : List PageDataEntry) : PageTable :=
  entries.foldl (fun table entry => Function.update table entry.pageNo (some entry.data)) table

/-- A SQLite database: page `p` is `pages[p - 1]`. The bound is SQLite's own. -/
@[ext]
structure Database where
  pages : List Bytes
  bounded : pages.length ≤ 4294967294

namespace Database

/-- A database of one page. -/
abbrev single (page : Bytes) : Database := ⟨[page], by simp⟩

/-- `SELECT data FROM sqlite_dbpage('main') WHERE pgno = ?`. -/
def table (db : Database) : PageTable := fun p =>
  if p = 0 then none else db.pages[p.toNat - 1]?

/-- `SELECT IFNULL(MAX(pgno), 0) FROM sqlite_dbpage('main')`. -/
def maxPage (db : Database) : UInt32 := UInt32.ofNat db.pages.length

/-- The bytes of page `p`, if the database has it. -/
def bytes (db : Database) (p : UInt32) : Bytes := (db.table p).getD []

/-- The numbers of its pages, in order. -/
def pageNumbers (db : Database) : List UInt32 := pageRange 1 db.maxPage

variable (db : Database)

theorem toNat_maxPage : db.maxPage.toNat = db.pages.length :=
  toNat_pageNo (Nat.lt_of_le_of_lt db.bounded (by decide))

theorem length_pageNumbers : db.pageNumbers.length = db.pages.length := by
  rw [pageNumbers, length_pageRange_one, db.toNat_maxPage]

theorem pageNumbers_nodup : db.pageNumbers.Nodup := pageRange_nodup 1 db.maxPage

theorem mem_pageNumbers {p : UInt32} :
    p ∈ db.pageNumbers ↔ p ≠ 0 ∧ p.toNat ≤ db.pages.length := by
  rw [pageNumbers, mem_pageRange, UInt32.le_iff_toNat_le, UInt32.le_iff_toNat_le, toNat_maxPage,
    ← UInt32.toNat_inj.ne]
  simp only [UInt32.toNat_one, UInt32.toNat_zero]
  omega

theorem table_of_mem {p : UInt32} (h : p ∈ db.pageNumbers) : db.table p = some (db.bytes p) := by
  obtain ⟨hzero, hle⟩ := db.mem_pageNumbers.mp h
  have hpos : 0 < p.toNat := Nat.pos_of_ne_zero fun h0 => hzero (UInt32.toNat_inj.mp h0)
  have hlt : p.toNat - 1 < db.pages.length := by omega
  have hsome : db.table p = some db.pages[p.toNat - 1] := by
    rw [table, if_neg hzero, List.getElem?_eq_getElem]
  rw [bytes, hsome]
  rfl

theorem mem_of_table {db : Database} {p : UInt32} {data : Bytes} (h : db.table p = some data) :
    data ∈ db.pages := by
  unfold table at h
  split at h
  · simp at h
  · exact List.mem_of_getElem? h

theorem table_of_notMem {p : UInt32} (h : p ∉ db.pageNumbers) : db.table p = none := by
  rw [mem_pageNumbers] at h
  unfold table
  split
  · rfl
  · next hzero =>
    have hlt : ¬ p.toNat ≤ db.pages.length := fun hle => h ⟨hzero, hle⟩
    rw [List.getElem?_eq_none]
    omega

end Database

/-- Why a sync ends on the client. `debug` is the debug text of a message. -/
inductive ClientError where
  | ended
  | read
  | decode
  | closedByServer (frame : Option (UInt16 × String))
  | text (content : String)
  | server (message : String)
  | versionMismatch (theirs : UInt32)
  | expectedHelloReply (got : SyncMessage)
  | endedHashing
  | midHash (got : SyncMessage)
  | duringPush (got : SyncMessage)
  | duringPull (got : SyncMessage)
  | readPage (pageNo : UInt32)
  | send
  | openRw
  | beginTransaction
  | writePage (pageNo : UInt32)
  | commit
deriving DecidableEq, Repr

/-- The outermost context of the error, of a sync of the file at `path`. -/
def ClientError.toString (debug : SyncMessage → String) (path : String) : ClientError → String
  | .ended => "ws closed before SyncComplete"
  | .read => "ws read"
  | .decode => "decode frame"
  | .closedByServer frame =>
    let reason := (frame.map fun f => s!"{f.1} {f.2}").getD ""
    s!"server closed connection: {reason}"
  | .text content => s!"unexpected text frame: {content}"
  | .server message => s!"server error: {message}"
  | .versionMismatch theirs =>
    s!"protocol_version mismatch: client={HANDSHAKE_VERSION}, server={theirs}"
  | .expectedHelloReply got => s!"expected HelloReply, got {debug got}"
  | .endedHashing => "ws closed during hash phase"
  | .midHash got => s!"unexpected mid-hash message: {debug got}"
  | .duringPush got => s!"unexpected message during push drain: {debug got}"
  | .duringPull got => s!"unexpected message during pull: {debug got}"
  | .readPage pageNo => s!"read page {pageNo}"
  | .send => "ws send"
  | .openRw | .beginTransaction => s!"open rw {path}"
  | .writePage pageNo => s!"write page {pageNo}"
  | .commit => "commit page batch"

/-! ## Reading -/

structure PageReader where
  conn : Database
  nextPage : UInt32
  maxPage : UInt32

namespace PageReader

def openDb (db : Database) : PageReader where
  conn := db
  nextPage := 1
  maxPage := db.maxPage

def readPage (r : PageReader) (pageNo : UInt32) : Except ClientError Bytes :=
  match r.conn.table pageNo with
  | some data => .ok data
  | none => .error (.readPage pageNo)

/-- The next page's number and hash, or nothing when all pages were read. -/
def nextHash [Blake3] (r : PageReader) :
    Except ClientError (Option (UInt32 × Bytes) × PageReader) :=
  if r.nextPage > r.maxPage then .ok (none, r)
  else do
    let data ← r.readPage r.nextPage
    return (some (r.nextPage, pageHash data), { r with nextPage := r.nextPage + 1 })

/-- The reader after it read the first `i` pages. -/
def after (db : Database) (i : Nat) : PageReader := ⟨db, UInt32.ofNat (i + 1), db.maxPage⟩

theorem readPage_of_mem {db : Database} {i : Nat} {p : UInt32} (h : p ∈ db.pageNumbers) :
    (after db i).readPage p = .ok (db.bytes p) := by
  unfold readPage
  rw [show (after db i).conn.table p = some (db.bytes p) from db.table_of_mem h]

/-- With pages left the reader goes on to the first of them. -/
theorem nextHash_more [Blake3] {db : Database} {before rest : List UInt32} {p : UInt32}
    (h : db.pageNumbers = before ++ p :: rest) :
    (after db before.length).nextHash =
      .ok (some (p, pageHash (db.bytes p)), after db (before.length + 1)) := by
  have hp : p = UInt32.ofNat (before.length + 1) := pageRange_one_split h
  have hmem : p ∈ db.pageNumbers := by simp [h]
  have hle : ¬ p > db.maxPage := UInt32.not_lt.mpr (mem_pageRange.mp hmem).2
  have hread := readPage_of_mem (i := before.length) hmem
  unfold nextHash
  rw [show (after db before.length).nextPage = p from hp.symm, hread]
  rw [if_neg (show ¬ p > (after db before.length).maxPage from hle)]
  simp only [after, hp, UInt32.ofNat_add]
  rfl

/-- After the last page there is nothing left to read. -/
theorem nextHash_done [Blake3] (db : Database) :
    (after db db.pageNumbers.length).nextHash = .ok (none, after db db.pageNumbers.length) := by
  have hlen : db.pageNumbers.length = db.pages.length := by
    rw [Database.pageNumbers, length_pageRange_one, db.toNat_maxPage]
  have hbound := db.bounded
  unfold nextHash
  rw [if_pos]
  show db.maxPage < UInt32.ofNat (db.pageNumbers.length + 1)
  rw [UInt32.lt_iff_toNat_lt, db.toNat_maxPage, toNat_pageNo (by omega)]
  omega

end PageReader

end EdgeReplica
