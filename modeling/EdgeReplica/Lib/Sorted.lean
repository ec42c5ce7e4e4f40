-- SUMMARY: Lists sorted by a key: their order, what determines it, and the first row with a property.
import Mathlib.Data.List.Sort

/-!
# Sorted rows

Rows are sorted by a key that need not tell them apart, so the sort fixes the keys of
the result and not the rows.
-/

namespace Sorted

variable {V K : Type} [LE K] [Std.IsLinearOrder K]

theorem pairwise {r : V → V → Prop} [DecidableRel r] (key : V → K)
    (hr : ∀ v w, r v w ↔ key v ≤ key w) (l : List V) :
    (l.insertionSort r).Pairwise fun v w => key v ≤ key w := by
  have htotal : Std.Total r := ⟨fun v w => by rw [hr, hr]; exact Std.le_total⟩
  have htrans : IsTrans V r := ⟨fun v w x => by rw [hr, hr, hr]; exact Std.le_trans⟩
  exact (List.pairwise_insertionSort r l).imp fun h => (hr _ _).mp h

/-- Sorted lists of the same rows differ in the order of rows with equal keys only. -/
theorem keys_eq {key : V → K} {l l' : List V} (h : l.Perm l')
    (hl : l.Pairwise fun v w => key v ≤ key w) (hl' : l'.Pairwise fun v w => key v ≤ key w) :
    l.map key = l'.map key :=
  (h.map key).eq_of_pairwise (fun _ _ _ _ => Std.le_antisymm) (List.pairwise_map.mpr hl)
    (List.pairwise_map.mpr hl')

/-- The first row with a property has the least key of all rows that have it. -/
theorem le_of_find? {key : V → K} {l : List V} {p : V → Bool} {v : V}
    (hl : l.Pairwise fun v w => key v ≤ key w) (h : l.find? p = some v) {w : V} (hw : w ∈ l)
    (hp : p w = true) : key v ≤ key w := by
  obtain ⟨-, before, after, rfl, hbefore⟩ := List.find?_eq_some_iff_append.mp h
  rcases List.mem_append.mp hw with hearlier | hlater
  · have hnot := hbefore w hearlier
    rw [hp] at hnot
    cases hnot
  · rcases List.mem_cons.mp hlater with rfl | hafter
    · exact Std.le_refl _
    · exact (List.pairwise_cons.mp (List.pairwise_append.mp hl).2.1).1 w hafter

end Sorted
