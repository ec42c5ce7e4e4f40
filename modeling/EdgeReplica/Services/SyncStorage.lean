-- SUMMARY: The page store behind a sync session: the storage trait, its provided methods, and the in-memory implementation.
import Mathlib.Data.List.Basic
import Mathlib.Data.List.Nodup
import Std.Data.ExtTreeMap
import EdgeReplica.Error
import EdgeReplica.Lib.Effect
import EdgeReplica.Protocol.Sync

/-!
# Page storage

The operations the sync FSM relies on, as a class over the storage's state, with
the trait's provided methods on top. `InMemorySyncStorage` never fails;
`Faulty` is any storage whose calls may fail, at any call and with any error.
-/

namespace EdgeReplica

/-- The trait `SyncStorage`, without its provided methods. -/
class SyncStorage (σ : Type) where
  getPageHash (pageNo : UInt32) : StoreM σ (Option Bytes)
  getPage (pageNo : UInt32) : StoreM σ (Option Bytes)
  putPage (pageNo : UInt32) (data hash : Bytes) (nowMs : Int64) : StoreM σ Unit
  maxPage : StoreM σ UInt32

/-- The inclusive range `start..=stop`. -/
def pageRange (start stop : UInt32) : List UInt32 :=
  (List.range' start.toNat (stop.toNat + 1 - start.toNat)).map UInt32.ofNat

theorem toNat_pageNo {n : Nat} (h : n < 4294967296) : (UInt32.ofNat n).toNat = n :=
  UInt32.toNat_ofNat_of_lt' h

theorem mem_pageRange {start stop p : UInt32} :
    p ∈ pageRange start stop ↔ start ≤ p ∧ p ≤ stop := by
  have hstop := stop.toNat_lt
  simp only [pageRange, List.mem_map, List.mem_range'_1, UInt32.le_iff_toNat_le]
  constructor
  · rintro ⟨n, hn, rfl⟩
    rw [toNat_pageNo (by omega)]
    omega
  · intro h
    exact ⟨p.toNat, by omega, UInt32.ofNat_toNat⟩

theorem pageRange_nodup (start stop : UInt32) : (pageRange start stop).Nodup := by
  have hstop := stop.toNat_lt
  refine List.Nodup.map_on ?_ (List.nodup_range' 1)
  intro m hm n hn heq
  simp only [List.mem_range'_1] at hm hn
  have h := congrArg UInt32.toNat heq
  rwa [toNat_pageNo (by omega), toNat_pageNo (by omega)] at h

theorem pageRange_ascending (start stop : UInt32) : (pageRange start stop).Pairwise (· < ·) := by
  have hstop := stop.toNat_lt
  refine List.pairwise_map.mpr (List.Pairwise.imp_of_mem ?_ (List.pairwise_lt_range' 1))
  intro m n hm hn hlt
  simp only [List.mem_range'_1] at hm hn
  rw [UInt32.lt_iff_toNat_lt, toNat_pageNo (by omega), toNat_pageNo (by omega)]
  exact hlt

/-- Pages are numbered from one: what stands behind `i` pages of the range is page
`i + 1`. -/
theorem pageRange_one_split {stop p : UInt32} {before after : List UInt32}
    (h : pageRange 1 stop = before ++ p :: after) : p = UInt32.ofNat (before.length + 1) := by
  have hget : (pageRange 1 stop)[before.length]? = some p := by rw [h]; simp
  simp only [pageRange, List.getElem?_map, Option.map_eq_some_iff] at hget
  obtain ⟨n, hn, rfl⟩ := hget
  obtain ⟨-, rfl⟩ := List.getElem?_eq_some_iff.mp hn
  simp [Nat.add_comm]

theorem length_pageRange_one (stop : UInt32) : (pageRange 1 stop).length = stop.toNat := by
  simp [pageRange]

namespace SyncStorage

variable {σ τ : Type} [SyncStorage σ]

/-- Digest over the page hashes in `start..=stop`, in page order. -/
def combinedHash [Blake3] (start stop : UInt32) : StoreM σ Bytes := do
  let hasher ← (pageRange start stop).foldlM (fun hasher pageNo => do
    match ← getPageHash pageNo with
    | some h => return hasher ++ h
    | none => return hasher) []
  return Blake3.hash hasher

/-- Call `emit` once for each stored page of `start..=stop`, in ascending order.
The callback has a state of its own and its failure ends the walk. -/
def iterPagesInRange (start stop : UInt32) (emit : UInt32 → Bytes → EStateM StoreError τ Unit) :
    EStateM StoreError (σ × τ) Unit :=
  forM (pageRange start stop) fun pageNo => do
    match ← Effect.onFst (getPage pageNo) with
    | some data => Effect.onSnd (emit pageNo data)
    | none => return ()

end SyncStorage

/-! ## The in-memory storage -/

structure Page where
  data : Bytes
  hash : Bytes
deriving DecidableEq, Repr

/-- `BTreeMap<u32, Page>`. -/
abbrev Pages := Std.ExtTreeMap UInt32 Page

/-- The host-side storage. It mirrors the SQL one: every call succeeds, and a
put replaces the row of its page. -/
abbrev InMemorySyncStorage := Pages

namespace InMemorySyncStorage

def getPageHash (pageNo : UInt32) : StoreM InMemorySyncStorage (Option Bytes) := do
  let pages ← get
  return (pages[pageNo]?).map Page.hash

def getPage (pageNo : UInt32) : StoreM InMemorySyncStorage (Option Bytes) := do
  let pages ← get
  return (pages[pageNo]?).map Page.data

def putPage (pageNo : UInt32) (data hash : Bytes) (_nowMs : Int64) :
    StoreM InMemorySyncStorage Unit :=
  modify fun pages => pages.insert pageNo ⟨data, hash⟩

def maxPage : StoreM InMemorySyncStorage UInt32 := do
  let pages ← get
  return pages.keys.getLast?.getD 0

end InMemorySyncStorage

instance : SyncStorage InMemorySyncStorage where
  getPageHash := InMemorySyncStorage.getPageHash
  getPage := InMemorySyncStorage.getPage
  putPage := InMemorySyncStorage.putPage
  maxPage := InMemorySyncStorage.maxPage

/-! ## A storage whose calls may fail -/

/-- A storage `inner` together with the faults it will raise: `faults k` is the
error of the `k`-th call, if that call fails. A call that fails leaves `inner`
as it was, as a failed SQL statement does. -/
structure Faulty (σ : Type) where
  inner : σ
  faults : Nat → Option StoreError
  calls : Nat := 0

namespace Faulty

variable {σ α : Type}

def new (inner : σ) (faults : Nat → Option StoreError) : Faulty σ := { inner, faults }

/-- Make one storage call, or raise the fault that is due. -/
def attempt (m : StoreM σ α) : StoreM (Faulty σ) α := fun s =>
  match s.faults s.calls with
  | some e => .error e { s with calls := s.calls + 1 }
  | none =>
    match m.run s.inner with
    | .ok a inner => .ok a { s with inner, calls := s.calls + 1 }
    | .error e inner => .error e { s with inner, calls := s.calls + 1 }

instance [SyncStorage σ] : SyncStorage (Faulty σ) where
  getPageHash pageNo := attempt (SyncStorage.getPageHash pageNo)
  getPage pageNo := attempt (SyncStorage.getPage pageNo)
  putPage pageNo data hash nowMs := attempt (SyncStorage.putPage pageNo data hash nowMs)
  maxPage := attempt SyncStorage.maxPage

end Faulty

end EdgeReplica
