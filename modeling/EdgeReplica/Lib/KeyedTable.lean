-- SUMMARY: A table with a primary key: replacing insertions, lookups, range scans in the order of the key, and the highest key.
import Mathlib.Data.List.Nodup
import Mathlib.Order.MinMax
import EdgeReplica.Lib.Sorted

/-!
# Tables with a primary key

The rows stand in no particular order, and no two of them have the same key. A scan
with `ORDER BY` is the walk over the keys in ascending order that looks up each one.
-/

namespace Sql

structure KeyedTable (R K : Type) (key : R → K) where
  rows : List R
  nodup : (rows.map key).Nodup

namespace KeyedTable

variable {R K : Type} [LinearOrder K] {key : R → K}

omit [LinearOrder K] in
/-- Rows with the same key are one row. -/
theorem eq_of_key (t : KeyedTable R K key) {row row' : R} (hrow : row ∈ t.rows)
    (hrow' : row' ∈ t.rows) (hkey : key row = key row') : row = row' :=
  List.inj_on_of_nodup_map t.nodup hrow hrow' hkey

/-! ## Statements -/

def empty : KeyedTable R K key := ⟨[], List.nodup_nil⟩

/-- `INSERT OR REPLACE`: the row that has the key already is deleted first. -/
def insertOrReplace (row : R) (t : KeyedTable R K key) : KeyedTable R K key where
  rows := t.rows.filter (fun old => key old ≠ key row) ++ [row]
  nodup := by
    rw [List.map_append, List.nodup_append]
    refine ⟨t.nodup.sublist (List.filter_sublist.map key), List.nodup_singleton _, ?_⟩
    intro k hk k' hk'
    obtain ⟨old, hold, rfl⟩ := List.mem_map.mp hk
    obtain rfl := List.mem_singleton.mp hk'
    simpa using (List.mem_filter.mp hold).2

/-- `WHERE key = k`, of which there is one row at most. -/
def lookup (k : K) (t : KeyedTable R K key) : Option R :=
  (t.rows.filter fun row => key row = k).head?

/-- `WHERE key BETWEEN low AND high ORDER BY key`. -/
def between (low high : K) (t : KeyedTable R K key) : List R :=
  (t.rows.filter fun row => low ≤ key row ∧ key row ≤ high).insertionSort
    fun row row' => key row ≤ key row'

/-- `MAX(key)`, which is `NULL` over an empty table. -/
def maxKey (t : KeyedTable R K key) : Option K := (t.rows.map key).max?

/-! ## What they come to -/

variable {t : KeyedTable R K key}

theorem mem_insertOrReplace {row row' : R} :
    row' ∈ (t.insertOrReplace row).rows ↔ row' ∈ t.rows ∧ key row' ≠ key row ∨ row' = row := by
  simp [insertOrReplace]

theorem lookup_eq_some {k : K} {row : R} :
    t.lookup k = some row ↔ row ∈ t.rows ∧ key row = k := by
  unfold lookup
  constructor
  · intro h
    simpa using List.mem_filter.mp (List.mem_of_head? h)
  · rintro ⟨hrow, hkey⟩
    have hmem : row ∈ t.rows.filter fun row => key row = k :=
      List.mem_filter.mpr ⟨hrow, by simpa using hkey⟩
    cases hfound : (t.rows.filter fun row => key row = k) with
    | nil =>
      rw [hfound] at hmem
      cases hmem
    | cons row' rest =>
      obtain ⟨hrow', hkey'⟩ := List.mem_filter.mp (hfound ▸ List.mem_cons_self : row' ∈ _)
      have hkey' := of_decide_eq_true hkey'
      rw [List.head?_cons, t.eq_of_key hrow hrow' (hkey.trans hkey'.symm)]

theorem lookup_eq_none {k : K} : t.lookup k = none ↔ ∀ row ∈ t.rows, key row ≠ k := by
  rw [Option.eq_none_iff_forall_ne_some]
  constructor
  · exact fun h row hrow hkey => h row (lookup_eq_some.mpr ⟨hrow, hkey⟩)
  · exact fun h row hfound => h row (lookup_eq_some.mp hfound).1 (lookup_eq_some.mp hfound).2

theorem lookup_insertOrReplace (row : R) (k : K) :
    (t.insertOrReplace row).lookup k = if k = key row then some row else t.lookup k := by
  split
  · next heq => exact lookup_eq_some.mpr ⟨mem_insertOrReplace.mpr (.inr rfl), heq.symm⟩
  · next hne =>
    cases hfound : t.lookup k with
    | none =>
      rw [lookup_eq_none] at hfound ⊢
      intro row' hrow'
      rcases mem_insertOrReplace.mp hrow' with ⟨hold, -⟩ | rfl
      · exact hfound row' hold
      · exact Ne.symm hne
    | some row' =>
      obtain ⟨hrow', rfl⟩ := lookup_eq_some.mp hfound
      exact lookup_eq_some.mpr ⟨mem_insertOrReplace.mpr (.inl ⟨hrow', hne⟩), rfl⟩

/-- An ordered scan is the walk over keys in ascending order, if these are the keys
of the range as far as there are rows. -/
theorem between_eq_filterMap {low high : K} {ks : List K} (hks : ks.Pairwise (· < ·))
    (hrange : ∀ row ∈ t.rows, low ≤ key row ∧ key row ≤ high ↔ key row ∈ ks) :
    t.between low high = ks.filterMap fun k => t.lookup k := by
  have hmem : ∀ row, row ∈ t.between low high ↔ row ∈ ks.filterMap fun k => t.lookup k := by
    intro row
    rw [between, List.mem_insertionSort, List.mem_filter, List.mem_filterMap, decide_eq_true_iff]
    constructor
    · rintro ⟨hrow, hkey⟩
      exact ⟨key row, (hrange row hrow).mp hkey, lookup_eq_some.mpr ⟨hrow, rfl⟩⟩
    · rintro ⟨k, hk, hfound⟩
      obtain ⟨hrow, rfl⟩ := lookup_eq_some.mp hfound
      exact ⟨hrow, (hrange row hrow).mpr hk⟩
  have hwalk : (ks.filterMap fun k => t.lookup k).Pairwise fun row row' => key row < key row' := by
    refine List.Pairwise.filterMap _ ?_ hks
    intro k k' hlt row hrow row' hrow'
    rw [(lookup_eq_some.mp hrow).2, (lookup_eq_some.mp hrow').2]
    exact hlt
  have hscan : (t.between low high).Pairwise fun row row' => key row ≤ key row' :=
    Sorted.pairwise key (fun _ _ => Iff.rfl) _
  have hnodup : (t.between low high).Nodup := by
    rw [between, (List.perm_insertionSort _ _).nodup_iff]
    exact t.nodup.of_map.sublist List.filter_sublist
  have hdistinct : (ks.filterMap fun k => t.lookup k).Nodup :=
    hwalk.imp fun hlt heq => absurd (heq ▸ hlt) (lt_irrefl _)
  have hperm : (t.between low high).Perm (ks.filterMap fun k => t.lookup k) :=
    (List.perm_ext_iff_of_nodup hnodup hdistinct).mpr hmem
  refine hperm.eq_of_pairwise ?_ hscan (hwalk.imp le_of_lt)
  intro row row' hrow hrow' hle hle'
  rw [between, List.mem_insertionSort] at hrow
  have hrow' := (hmem row').mpr hrow'
  rw [between, List.mem_insertionSort] at hrow'
  exact t.eq_of_key (List.mem_filter.mp hrow).1 (List.mem_filter.mp hrow').1 (le_antisymm hle hle')

theorem maxKey_eq_some {k : K} :
    t.maxKey = some k ↔ (∃ row ∈ t.rows, key row = k) ∧ ∀ row ∈ t.rows, key row ≤ k := by
  rw [maxKey, List.max?_eq_some_iff, List.mem_map]
  simp

theorem maxKey_eq_none : t.maxKey = none ↔ t.rows = [] := by
  rw [maxKey, List.max?_eq_none_iff, List.map_eq_nil_iff]

end KeyedTable

end Sql
