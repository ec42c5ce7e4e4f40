-- SUMMARY: Finite maps whose rows can be listed: association lists without duplicate keys.
import Mathlib.Data.List.AList

/-!
# Hash maps

A map is a list of rows with distinct keys. Its rows are listed in an order that is
a parameter, so that nothing can rely on it.
-/

abbrev HashMap (K V : Type) := AList fun _ : K => V

/-- The order in which the rows of a map are visited. -/
class HashOrder where
  arrange {α : Type} : List α → List α
  arrange_perm {α : Type} (rows : List α) : (arrange rows).Perm rows

/-- The newest row first. -/
abbrev HashOrder.newestFirst : HashOrder := ⟨id, fun _ => .rfl⟩

namespace HashMap

variable {K V : Type} [DecidableEq K]

section

variable [HashOrder]

/-- The rows as pairs. -/
def rows (m : HashMap K V) : List (K × V) :=
  (HashOrder.arrange m.entries).map fun row => (row.1, row.2)

def values (m : HashMap K V) : List V := (HashOrder.arrange m.entries).map fun row => row.2

theorem mem_rows {m : HashMap K V} {k : K} {v : V} : (k, v) ∈ rows m ↔ m.lookup k = some v := by
  rw [rows, List.mem_map]
  constructor
  · rintro ⟨⟨k', v'⟩, hrow, heq⟩
    obtain ⟨rfl, rfl⟩ := Prod.mk.inj heq
    exact AList.mem_lookup_iff.mpr ((HashOrder.arrange_perm _).mem_iff.mp hrow)
  · intro h
    exact ⟨⟨k, v⟩, (HashOrder.arrange_perm _).mem_iff.mpr (AList.mem_lookup_iff.mp h), rfl⟩

theorem mem_values {m : HashMap K V} {v : V} : v ∈ values m ↔ ∃ k, m.lookup k = some v := by
  rw [values, List.mem_map]
  constructor
  · rintro ⟨⟨k, v'⟩, hrow, rfl⟩
    exact ⟨k, AList.mem_lookup_iff.mpr ((HashOrder.arrange_perm _).mem_iff.mp hrow)⟩
  · rintro ⟨k, h⟩
    exact ⟨⟨k, v⟩, (HashOrder.arrange_perm _).mem_iff.mpr (AList.mem_lookup_iff.mp h), rfl⟩

/-- Of two rows with some property one has another key than `k`. -/
theorem exists_ne_of_two {p : V → Bool} {m : HashMap K V}
    (h : 1 < ((values m).filter p).length) (k : K) :
    ∃ k' v, k' ≠ k ∧ m.lookup k' = some v ∧ p v = true := by
  by_contra hnone
  have hall : ∀ row ∈ m.entries.filter fun row => p row.2, row.1 = k := by
    intro row hmem
    obtain ⟨hrow, hp⟩ := List.mem_filter.mp hmem
    by_contra hne
    exact hnone ⟨row.1, row.2, hne, AList.mem_lookup_iff.mpr hrow, hp⟩
  have hkeys : (m.entries.filter fun row => p row.2).keys =
      List.replicate (m.entries.filter fun row => p row.2).keys.length k := by
    refine List.eq_replicate_iff.mpr ⟨rfl, ?_⟩
    intro key hkey
    obtain ⟨row, hrow, rfl⟩ := List.mem_map.mp hkey
    exact hall row hrow
  have hnodup : (m.entries.filter fun row => p row.2).keys.Nodup :=
    m.nodupKeys.sublist List.filter_sublist
  rw [hkeys, List.nodup_replicate, List.keys, List.length_map] at hnodup
  have hcount : ((values m).filter p).length = (m.entries.filter fun row => p row.2).length := by
    rw [values, List.filter_map, List.length_map]
    exact ((HashOrder.arrange_perm m.entries).filter _).length_eq
  omega

end

/-- Keep the rows that `p` holds of. -/
def retain (p : K → V → Bool) (m : HashMap K V) : HashMap K V :=
  ⟨m.entries.filter fun row => p row.1 row.2, m.nodupKeys.sublist (List.filter_sublist)⟩

theorem lookup_retain {p : K → V → Bool} {m : HashMap K V} {k : K} {v : V} :
    (retain p m).lookup k = some v ↔ m.lookup k = some v ∧ p k v = true := by
  rw [← Option.mem_def, ← Option.mem_def, AList.mem_lookup_iff, AList.mem_lookup_iff]
  exact List.mem_filter

/-- What a map holds after one more row. -/
theorem lookup_insert_eq (m : HashMap K V) (k k' : K) (v : V) :
    (m.insert k v).lookup k' = if k' = k then some v else m.lookup k' := by
  split
  · next h => rw [h, AList.lookup_insert]
  · next h => exact AList.lookup_insert_ne h

theorem lookup_erase_eq (m : HashMap K V) (k k' : K) :
    (m.erase k).lookup k' = if k' = k then none else m.lookup k' := by
  split
  · next h => rw [h, AList.lookup_erase]
  · next h => exact AList.lookup_erase_ne h

theorem lookup_insert_eq_some {m : HashMap K V} {k k' : K} {v v' : V} :
    (m.insert k v).lookup k' = some v' ↔ k' = k ∧ v' = v ∨ k' ≠ k ∧ m.lookup k' = some v' := by
  rw [lookup_insert_eq]
  split
  · next h => simp [h, eq_comm]
  · next h => simp [h]

theorem lookup_erase_eq_some {m : HashMap K V} {k k' : K} {v : V} :
    (m.erase k).lookup k' = some v ↔ k' ≠ k ∧ m.lookup k' = some v := by
  rw [lookup_erase_eq]
  split
  · next h => simp [h]
  · next h => simp [h]

/-- A key without a row keeps the rows of the others from being overwritten. -/
theorem lookup_insert_of_notMem {m : HashMap K V} {k : K} (hk : k ∉ m) {k' : K} {v v' : V}
    (h : m.lookup k' = some v') : (m.insert k v).lookup k' = some v' := by
  have hne : k' ≠ k := fun heq => hk (AList.lookup_isSome.mp (by rw [← heq, h]; rfl))
  rw [AList.lookup_insert_ne hne, h]

end HashMap
