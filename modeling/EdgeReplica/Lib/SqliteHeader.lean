-- SUMMARY: The header on the first page of a SQLite database: its fields, the page count it records, and what a commit stamps on it.
import Mathlib.Algebra.Order.Group.Nat
import Mathlib.Data.List.Basic

/-!
# The header of a SQLite database

The first hundred bytes of the first page are the header of the file. A database whose
change counter is still the one that its page count was written with has as many pages as
the header says. Every commit of a change counts the counter up, and writes the version of
the library beside it; the rest of the page is the user's.
-/

namespace SqliteHeader

/-- The big-endian number in `width` bytes of the header. -/
def field (page : List UInt8) (offset width : Nat) : Nat :=
  ((page.drop offset).take width).foldl (fun n b => n * 256 + b.toNat) 0

/-- `SQLite format 3`, and a zero. -/
def magic : List UInt8 :=
  [0x53, 0x51, 0x4c, 0x69, 0x74, 0x65, 0x20, 0x66, 0x6f, 0x72, 0x6d, 0x61, 0x74, 0x20, 0x33, 0x00]

/-- The largest size does not fit in its two bytes. -/
def pageSize (page : List UInt8) : Nat :=
  if field page 16 2 = 1 then 65536 else field page 16 2

/-- A first page of a database that can be read and written. -/
structure Valid (page : List UInt8) : Prop where
  magic : page.take 16 = magic
  size : pageSize page = page.length
  power : page.length ∈ [512, 1024, 2048, 4096, 8192, 16384, 32768, 65536]
  formats : field page 18 1 ≤ 2 ∧ field page 19 1 ≤ 2
  reserved : field page 20 1 + 480 ≤ page.length
  fractions : (page.drop 21).take 3 = [64, 32, 32]

instance decidableValid (page : List UInt8) : Decidable (Valid page) :=
  decidable_of_iff
    (page.take 16 = magic ∧ pageSize page = page.length ∧
      page.length ∈ [512, 1024, 2048, 4096, 8192, 16384, 32768, 65536] ∧
      (field page 18 1 ≤ 2 ∧ field page 19 1 ≤ 2) ∧ field page 20 1 + 480 ≤ page.length ∧
      (page.drop 21).take 3 = [64, 32, 32])
    ⟨fun ⟨h₁, h₂, h₃, h₄, h₅, h₆⟩ => ⟨h₁, h₂, h₃, h₄, h₅, h₆⟩,
      fun ⟨h₁, h₂, h₃, h₄, h₅, h₆⟩ => ⟨h₁, h₂, h₃, h₄, h₅, h₆⟩⟩

def changeCounter (page : List UInt8) : Nat := field page 24 4

/-- The number of pages of the database, where the header records it. -/
def recorded (page : List UInt8) : Option Nat :=
  if Valid page ∧ changeCounter page = field page 92 4 ∧ field page 28 4 ≠ 0 then
    some (field page 28 4)
  else none

theorem recorded_eq_some {page : List UInt8} {n : Nat} :
    recorded page = some n ↔
      Valid page ∧ changeCounter page = field page 92 4 ∧ n ≠ 0 ∧ field page 28 4 = n := by
  unfold recorded
  split
  · next h =>
    rw [Option.some.injEq]
    exact ⟨fun heq => ⟨h.1, h.2.1, heq ▸ h.2.2, heq⟩, fun h => h.2.2.2⟩
  · next h =>
    refine ⟨nofun, fun ⟨hvalid, hcounter, hne, heq⟩ => ?_⟩
    exact absurd ⟨hvalid, hcounter, heq ▸ hne⟩ h

/-- Commits move pages of such a database into its free ones. -/
def AutoVacuum (page : List UInt8) : Prop := field page 52 4 ≠ 0

/-- The number of free pages. -/
def freePages (page : List UInt8) : Nat := field page 36 4

instance (page : List UInt8) : Decidable (AutoVacuum page) := by
  unfold AutoVacuum
  infer_instance

/-! ## What a commit stamps -/

/-- The bytes of the change counter, of its copy, and of the version behind it. -/
def IsStamp (i : Nat) : Prop := 24 ≤ i ∧ i < 28 ∨ 92 ≤ i ∧ i < 100

instance : DecidablePred IsStamp := fun i => by
  unfold IsStamp
  infer_instance

/-- The pages differ only where a commit writes. -/
def SameButStamps (page page' : List UInt8) : Prop :=
  page'.length = page.length ∧ ∀ i, ¬ IsStamp i → page'[i]? = page[i]?

theorem SameButStamps.refl (page : List UInt8) : SameButStamps page page :=
  ⟨rfl, fun _ _ => rfl⟩

section

variable {page page' : List UInt8}

/-- Bytes that are not stamped are the same as before. -/
theorem SameButStamps.slice_eq (h : SameButStamps page page') {offset width : Nat}
    (hrange : ∀ i, offset ≤ i → i < offset + width → ¬ IsStamp i) :
    (page'.drop offset).take width = (page.drop offset).take width := by
  refine List.ext_getElem? fun i => ?_
  rw [List.getElem?_take, List.getElem?_take]
  split
  · next hlt =>
    rw [List.getElem?_drop, List.getElem?_drop]
    exact h.2 (offset + i) (hrange _ (by omega) (by omega))
  · rfl

theorem SameButStamps.field_eq (h : SameButStamps page page') {offset width : Nat}
    (hrange : ∀ i, offset ≤ i → i < offset + width → ¬ IsStamp i) :
    field page' offset width = field page offset width := by
  rw [field, field, h.slice_eq hrange]

theorem SameButStamps.valid (h : SameButStamps page page') (hvalid : Valid page) :
    Valid page' := by
  have hfield (offset width : Nat) (hend : offset + width ≤ 24) :
      field page' offset width = field page offset width :=
    h.field_eq fun i _ hi => by unfold IsStamp; omega
  have hslice (offset width : Nat) (hend : offset + width ≤ 24) :
      (page'.drop offset).take width = (page.drop offset).take width :=
    h.slice_eq fun i _ hi => by unfold IsStamp; omega
  have hmagic : page'.take 16 = page.take 16 := hslice 0 16 (by decide)
  have hsize : pageSize page' = pageSize page := by
    rw [pageSize, pageSize, hfield 16 2 (by decide)]
  refine ⟨hmagic.trans hvalid.magic, ?_, ?_, ?_, ?_, ?_⟩
  · rw [hsize, h.1, hvalid.size]
  · rw [h.1]
    exact hvalid.power
  · rw [hfield 18 1 (by decide), hfield 19 1 (by decide)]
    exact hvalid.formats
  · rw [hfield 20 1 (by decide), h.1]
    exact hvalid.reserved
  · rw [hslice 21 3 (by decide)]
    exact hvalid.fractions

/-- The page count stays recorded when the counter and its copy are stamped together. -/
theorem SameButStamps.recorded (h : SameButStamps page page') {n : Nat}
    (hrecorded : recorded page = some n) (hcounter : changeCounter page' = field page' 92 4) :
    recorded page' = some n := by
  obtain ⟨hvalid, -, hne, hcount⟩ := recorded_eq_some.mp hrecorded
  refine recorded_eq_some.mpr ⟨h.valid hvalid, hcounter, hne, ?_⟩
  rw [h.field_eq fun i _ hi => by unfold IsStamp; omega, hcount]

end

/-- A byte of a number, counted from its last one. -/
def byte (n place : Nat) : UInt8 := UInt8.ofNat (n / 256 ^ place)

/-- The byte that is written at a place of the header. -/
def stampAt (counter version : Nat) (i : Nat) (b : UInt8) : UInt8 :=
  if 24 ≤ i ∧ i < 28 then byte counter (27 - i)
  else if 92 ≤ i ∧ i < 96 then byte counter (95 - i)
  else if 96 ≤ i ∧ i < 100 then byte version (99 - i)
  else b

def stamp (counter version : Nat) (page : List UInt8) : List UInt8 :=
  page.zipIdx.map fun x => stampAt counter version x.2 x.1

variable {counter version : Nat} {page : List UInt8}

theorem getElem?_stamp (i : Nat) :
    (stamp counter version page)[i]? = page[i]?.map (stampAt counter version i) := by
  rw [stamp, List.getElem?_map, List.getElem?_zipIdx, Option.map_map, Nat.zero_add]
  rfl

theorem sameButStamps_stamp : SameButStamps page (stamp counter version page) := by
  refine ⟨by simp [stamp], fun i hi => ?_⟩
  have hid : stampAt counter version i = id := by
    funext b
    unfold IsStamp at hi
    rw [stampAt, if_neg (by omega), if_neg (by omega), if_neg (by omega), id]
  rw [getElem?_stamp, hid, Option.map_id, id]

/-- The counter and its copy are the same. -/
theorem changeCounter_stamp (hlength : 100 ≤ page.length) :
    changeCounter (stamp counter version page) = field (stamp counter version page) 92 4 := by
  have hslice : ((stamp counter version page).drop 24).take 4 =
      ((stamp counter version page).drop 92).take 4 := by
    refine List.ext_getElem? fun i => ?_
    rw [List.getElem?_take, List.getElem?_take]
    split
    · next hlt =>
      rw [List.getElem?_drop, List.getElem?_drop, getElem?_stamp, getElem?_stamp,
        List.getElem?_eq_getElem (by omega), List.getElem?_eq_getElem (by omega), Option.map_some,
        Option.map_some]
      congr 1
      rw [stampAt, stampAt, if_pos (by omega), if_neg (by omega), if_pos (by omega)]
      congr 1
      omega
    · rfl
  rw [changeCounter, field, field, hslice]

theorem recorded_stamp {n : Nat} (h : recorded page = some n) :
    recorded (stamp counter version page) = some n := by
  have hpower := (recorded_eq_some.mp h).1.power
  refine sameButStamps_stamp.recorded h (changeCounter_stamp ?_)
  simp only [List.mem_cons, List.not_mem_nil, or_false] at hpower
  omega

end SqliteHeader
