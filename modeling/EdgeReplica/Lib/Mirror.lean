-- SUMMARY: A map and a list of rows that hold the same values, and what searches of the two find.
import EdgeReplica.Lib.HashMap

/-!
# Mirrors of a map

A list of rows mirrors a map when its rows are the values of the map, written by
`toRow`, and the key of a value can be read off its row. Searches of the map and
of the rows then find the same, in whatever order the two are visited.
-/

namespace HashMap

variable {K V R : Type} [DecidableEq K]

structure Mirror (toRow : V → R) (keyOf : R → K) (m : HashMap K V) (rows : List R) : Prop where
  keyed : ∀ k v, m.lookup k = some v → keyOf (toRow v) = k
  mem : ∀ row, row ∈ rows ↔ ∃ k v, m.lookup k = some v ∧ toRow v = row
  nodup : (rows.map keyOf).Nodup

/-- What is alone in a list is what a search finds. -/
theorem find?_eq_some_of_alone {p : R → Bool} {l : List R} {a : R} (ha : a ∈ l)
    (hp : p a = true) (halone : ∀ b ∈ l, p b = true → b = a) : l.find? p = some a := by
  obtain ⟨b, hb⟩ := Option.isSome_iff_exists.mp (List.find?_isSome.mpr ⟨a, ha, hp⟩)
  rw [hb, halone b (List.mem_of_find?_eq_some hb) (List.find?_some hb)]

namespace Mirror

variable {toRow : V → R} {keyOf : R → K} {m : HashMap K V} {rows l : List R}

theorem empty : Mirror toRow keyOf (∅ : HashMap K V) [] where
  keyed k v h := by simp at h
  mem row := by simp
  nodup := List.nodup_nil

theorem mem_of_lookup (h : Mirror toRow keyOf m rows) {k : K} {v : V}
    (hv : m.lookup k = some v) : toRow v ∈ rows :=
  (h.mem _).mpr ⟨k, v, hv, rfl⟩

theorem lookup_of_mem (h : Mirror toRow keyOf m rows) {row : R} (hrow : row ∈ rows) :
    ∃ v, m.lookup (keyOf row) = some v ∧ toRow v = row := by
  obtain ⟨k, v, hv, rfl⟩ := (h.mem row).mp hrow
  exact ⟨v, by rw [h.keyed k v hv, hv], rfl⟩

theorem row_ext (h : Mirror toRow keyOf m rows) {row row' : R} (hrow : row ∈ rows)
    (hrow' : row' ∈ rows) (hkey : keyOf row = keyOf row') : row = row' :=
  List.inj_on_of_nodup_map h.nodup hrow hrow' hkey

theorem notMem_iff (h : Mirror toRow keyOf m rows) {k : K} :
    k ∉ m ↔ ∀ row ∈ rows, keyOf row ≠ k := by
  constructor
  · rintro hk row hrow rfl
    obtain ⟨v, hv, -⟩ := h.lookup_of_mem hrow
    exact hk (AList.lookup_isSome.mp (by rw [hv]; rfl))
  · intro hall hk
    obtain ⟨v, hv⟩ := Option.isSome_iff_exists.mp (AList.lookup_isSome.mpr hk)
    exact hall _ (h.mem_of_lookup hv) (h.keyed k v hv)

/-! ## Writes -/

theorem insert (h : Mirror toRow keyOf m rows) {k : K} {v : V} (hk : k ∉ m)
    (hv : keyOf (toRow v) = k) : Mirror toRow keyOf (m.insert k v) (rows ++ [toRow v]) where
  keyed k' v' h' := by
    rcases lookup_insert_eq_some.mp h' with ⟨rfl, rfl⟩ | ⟨-, hold⟩
    · exact hv
    · exact h.keyed k' v' hold
  mem row := by
    rw [List.mem_append, List.mem_singleton, h.mem]
    constructor
    · rintro (⟨k', v', h', rfl⟩ | rfl)
      · exact ⟨k', v', lookup_insert_of_notMem hk h', rfl⟩
      · exact ⟨k, v, AList.lookup_insert _, rfl⟩
    · rintro ⟨k', v', h', rfl⟩
      rcases lookup_insert_eq_some.mp h' with ⟨-, rfl⟩ | ⟨-, hold⟩
      · exact .inr rfl
      · exact .inl ⟨k', v', hold, rfl⟩
  nodup := by
    rw [List.map_append, List.map_singleton, List.nodup_append]
    refine ⟨h.nodup, List.nodup_singleton _, ?_⟩
    intro key hkey key' hkey'
    obtain ⟨row, hrow, rfl⟩ := List.mem_map.mp hkey
    rw [List.mem_singleton.mp hkey', hv]
    exact h.notMem_iff.mp hk row hrow

theorem erase (h : Mirror toRow keyOf m rows) {k : K} {p : R → Bool}
    (hp : ∀ row, p row = decide (keyOf row = k)) :
    Mirror toRow keyOf (m.erase k) (rows.filter fun row => !p row) where
  keyed k' v' h' := h.keyed k' v' (lookup_erase_eq_some.mp h').2
  mem row := by
    rw [List.mem_filter, h.mem, hp, Bool.not_eq_true', decide_eq_false_iff_not]
    constructor
    · rintro ⟨⟨k', v', h', rfl⟩, hne⟩
      rw [h.keyed k' v' h'] at hne
      exact ⟨k', v', (AList.lookup_erase_ne hne).trans h', rfl⟩
    · rintro ⟨k', v', h', rfl⟩
      obtain ⟨hne, hold⟩ := lookup_erase_eq_some.mp h'
      rw [h.keyed k' v' hold]
      exact ⟨⟨k', v', hold, rfl⟩, hne⟩
  nodup := h.nodup.sublist (List.filter_sublist.map _)

/-- A value is replaced under its key, and its row rewritten in place. -/
theorem replace (h : Mirror toRow keyOf m rows) {k : K} {v v' : V} {p : R → Bool} {f : R → R}
    (hv : m.lookup k = some v) (hp : ∀ row, p row = decide (keyOf row = k))
    (hf : f (toRow v) = toRow v') (hkey : ∀ row, keyOf (f row) = keyOf row) :
    Mirror toRow keyOf (m.insert k v') (rows.map fun row => if p row then f row else row) where
  keyed k' w h' := by
    rcases lookup_insert_eq_some.mp h' with ⟨rfl, rfl⟩ | ⟨-, hold⟩
    · rw [← hf, hkey, h.keyed k' v hv]
    · exact h.keyed k' w hold
  mem row := by
    simp only [List.mem_map, h.mem, hp, decide_eq_true_eq]
    constructor
    · rintro ⟨_, ⟨k', w, h', rfl⟩, rfl⟩
      rw [h.keyed k' w h']
      split
      · next heq =>
        obtain rfl : w = v := Option.some.inj (by rw [← h', heq, hv])
        exact ⟨k, v', AList.lookup_insert _, hf.symm⟩
      · next hne => exact ⟨k', w, (AList.lookup_insert_ne hne).trans h', rfl⟩
    · rintro ⟨k', w, h', rfl⟩
      rcases lookup_insert_eq_some.mp h' with ⟨rfl, rfl⟩ | ⟨hne, hold⟩
      · exact ⟨toRow v, ⟨k', v, hv, rfl⟩, by rw [if_pos (h.keyed k' v hv), hf]⟩
      · exact ⟨toRow w, ⟨k', w, hold, rfl⟩, by rw [if_neg (by rwa [h.keyed k' w hold])]⟩
  nodup := by
    have hkeys : keyOf ∘ (fun row => if p row then f row else row) = keyOf := by
      funext row
      simp only [Function.comp]
      split
      · exact hkey row
      · rfl
    rw [List.map_map, hkeys]
    exact h.nodup

/-! ## Searches -/

theorem perm [HashOrder] (h : Mirror toRow keyOf m rows) : ((values m).map toRow).Perm rows := by
  have hkeys : ((values m).map toRow).map keyOf =
      (HashOrder.arrange m.entries).map fun e => e.1 := by
    rw [values, List.map_map, List.map_map]
    refine List.map_congr_left fun e he => ?_
    exact h.keyed e.1 e.2
      (AList.mem_lookup_iff.mpr ((HashOrder.arrange_perm _).mem_iff.mp he))
  have hnodup : (((values m).map toRow).map keyOf).Nodup := by
    rw [hkeys, ((HashOrder.arrange_perm m.entries).map _).nodup_iff]
    exact m.nodupKeys
  rw [List.perm_ext_iff_of_nodup hnodup.of_map h.nodup.of_map]
  intro row
  rw [h.mem, List.mem_map]
  constructor
  · rintro ⟨v, hv, rfl⟩
    obtain ⟨k, hk⟩ := mem_values.mp hv
    exact ⟨k, v, hk, rfl⟩
  · rintro ⟨k, v, hk, rfl⟩
    exact ⟨v, mem_values.mpr ⟨k, hk⟩, rfl⟩

/-- A search by key. -/
theorem find_key (h : Mirror toRow keyOf m rows) (hl : l.Perm rows) {k : K} {p : R → Bool}
    (hp : ∀ row, p row = decide (keyOf row = k)) : l.find? p = (m.lookup k).map toRow := by
  cases hv : m.lookup k with
  | none =>
    refine List.find?_eq_none.mpr fun row hrow => ?_
    rw [hp, decide_eq_true_eq]
    exact h.notMem_iff.mp (AList.lookup_eq_none.mp hv) row (hl.mem_iff.mp hrow)
  | some v =>
    refine find?_eq_some_of_alone (hl.mem_iff.mpr (h.mem_of_lookup hv)) ?_ ?_
    · rw [hp, h.keyed k v hv, decide_eq_true_eq]
    · intro row hrow hkey
      rw [hp, decide_eq_true_eq] at hkey
      exact h.row_ext (hl.mem_iff.mp hrow) (h.mem_of_lookup hv) (hkey.trans (h.keyed k v hv).symm)

/-- A search by columns that no two rows agree in. -/
theorem find [HashOrder] (h : Mirror toRow keyOf m rows) (hl : l.Perm rows) {p : R → Bool}
    {q : V → Bool} (hp : ∀ v ∈ values m, p (toRow v) = q v)
    (halone : ∀ row ∈ rows, ∀ row' ∈ rows, p row = true → p row' = true → row = row') :
    l.find? p = ((values m).find? q).map toRow := by
  have hrows : ∀ row, row ∈ l ↔ ∃ v ∈ values m, toRow v = row := by
    intro row
    rw [hl.mem_iff, ← h.perm.mem_iff, List.mem_map]
  cases hfind : (values m).find? q with
  | none =>
    refine List.find?_eq_none.mpr fun row hrow => ?_
    obtain ⟨v, hv, rfl⟩ := (hrows row).mp hrow
    rw [hp v hv]
    exact List.find?_eq_none.mp hfind v hv
  | some v =>
    have hv := List.mem_of_find?_eq_some hfind
    have hq := List.find?_some hfind
    have hmem : toRow v ∈ l := (hrows _).mpr ⟨v, hv, rfl⟩
    refine find?_eq_some_of_alone hmem ((hp v hv).trans hq) fun row hrow hprow => ?_
    exact halone row (hl.mem_iff.mp hrow) (toRow v) (hl.mem_iff.mp hmem) hprow
      ((hp v hv).trans hq)

/-- A search for all rows with some property. -/
theorem filter [HashOrder] (h : Mirror toRow keyOf m rows) (hl : l.Perm rows) {p : R → Bool}
    {q : V → Bool} (hp : ∀ v, p (toRow v) = q v) :
    (l.filter p).Perm (((values m).filter q).map toRow) := by
  have hq : q = p ∘ toRow := (funext hp).symm
  rw [hq, ← List.filter_map]
  exact (hl.trans h.perm.symm).filter p

/-- The rows of one key. -/
theorem filter_key (h : Mirror toRow keyOf m rows) {k : K} {p : R → Bool}
    (hp : ∀ row, p row = decide (keyOf row = k)) :
    rows.filter p = ((m.lookup k).map toRow).toList := by
  have hfind := h.find_key (List.Perm.refl rows) hp
  cases hv : m.lookup k with
  | none =>
    rw [hv] at hfind
    exact List.filter_eq_nil_iff.mpr (List.find?_eq_none.mp hfind)
  | some v =>
    refine List.perm_singleton.mp ?_
    rw [List.perm_ext_iff_of_nodup (h.nodup.of_map.filter _) (List.nodup_singleton _)]
    intro row
    rw [List.mem_filter, List.mem_singleton, hp, decide_eq_true_eq]
    constructor
    · rintro ⟨hrow, hkey⟩
      exact h.row_ext hrow (h.mem_of_lookup hv) (hkey.trans (h.keyed k v hv).symm)
    · rintro rfl
      exact ⟨h.mem_of_lookup hv, h.keyed k v hv⟩

/-- The keys of a map can be read off its values. -/
theorem rows_eq [HashOrder] (h : Mirror toRow keyOf m rows) :
    HashMap.rows m = (values m).map fun v => (keyOf (toRow v), v) := by
  rw [HashMap.rows, values, List.map_map]
  refine List.map_congr_left fun e he => ?_
  have hkey := h.keyed e.1 e.2
    (AList.mem_lookup_iff.mpr ((HashOrder.arrange_perm _).mem_iff.mp he))
  exact Prod.ext hkey.symm rfl

end Mirror

end HashMap
