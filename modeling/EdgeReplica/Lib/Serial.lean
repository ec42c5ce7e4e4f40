-- SUMMARY: Conflict serializability: an interleaved run whose conflicts have no cycle does what a serial run does.
import Mathlib.Data.Finset.Sort
import Mathlib.Data.Fintype.Defs
import Mathlib.Logic.Function.Basic
import Mathlib.Logic.Relation
import Mathlib.Order.Extension.Linear
import EdgeReplica.Lib.Machine

/-!
# Conflict serializability

Participants with states of their own take turns over one shared store of cells.
Which cells a turn reads and writes depends on the participant alone. Two turns
of different participants conflict if one writes a cell that the other reads or
writes. Turns without a conflict commute, so a run can be sorted by participant
along any order that its conflicts respect; there is one unless they form a cycle.
-/

namespace Serial

open Machine (run run_cons)
open Relation (ReflTransGen TransGen)

variable {ι L S R A K V : Type}

/-- What participants can do to a shared store of cells. -/
structure System (L S R A K V : Type) where
  step : L → S → R → Option (S × R)
  cell : R → K → V
  cell_injective : Function.Injective cell
  /-- The kind of turn this is, which only the participant's own state decides. -/
  access : L → S → A
  reads : A → Set K
  writes : A → Set K
  /-- A turn leaves alone what it does not write. -/
  outside {l : L} {s s' : S} {r t : R} (h : step l s r = some (s', t)) {k : K}
    (hk : k ∉ writes (access l s)) : cell t k = cell r k
  /-- A turn depends on the cells it reads or writes, and on no other. -/
  inside {l : L} {s s' : S} {r t : R} (h : step l s r = some (s', t)) (r' : R)
    (hr' : ∀ k, k ∈ reads (access l s) ∨ k ∈ writes (access l s) → cell r' k = cell r k) :
    ∃ t', step l s r' = some (s', t') ∧ ∀ k ∈ writes (access l s), cell t' k = cell t k

/-- The states of the participants, and the store they share. -/
structure Conf (ι S R : Type) where
  parts : ι → S
  shared : R

namespace System

variable (sys : System L S R A K V)

/-- A participant on its own over the store. -/
def solo (l : L) (p : S × R) : Option (S × R) := sys.step l p.1 p.2

/-- One writes a cell that the other reads or writes. -/
def Conflict (a b : A) : Prop :=
  ∃ k, (k ∈ sys.writes a ∧ (k ∈ sys.reads b ∨ k ∈ sys.writes b)) ∨
    (k ∈ sys.reads a ∧ k ∈ sys.writes b)

variable [DecidableEq ι]

/-- One participant takes a turn. -/
def turn (label : ι × L) (c : Conf ι S R) : Option (Conf ι S R) :=
  (sys.step label.2 (c.parts label.1) c.shared).map fun next =>
    ⟨Function.update c.parts label.1 next.1, next.2⟩

/-- Who took which kind of turn, in order. -/
def trace : List (ι × L) → Conf ι S R → List (ι × A)
  | [], _ => []
  | label :: labels, c =>
    (label.1, sys.access label.2 (c.parts label.1)) ::
      ((sys.turn label c).map (trace labels)).getD []

/-- A turn of `i` comes before a turn of another participant `j` that it conflicts with. -/
def Precedes (turns : List (ι × A)) (i j : ι) : Prop :=
  i ≠ j ∧ ∃ a b, [(i, a), (j, b)].Sublist turns ∧ sys.Conflict a b

/-- No participant precedes itself, directly or through others. -/
def Acyclic (turns : List (ι × A)) : Prop := ∀ i, ¬ TransGen (sys.Precedes turns) i i

/-- The participants run one after the other, each by labels that are `allowed` from
its state in `init` to its state in `final`, over the store that the one before it left. -/
inductive SerialRun (allowed : L → Prop) (init final : ι → S) : List ι → R → R → Prop
  | nil (r : R) : SerialRun allowed init final [] r r
  | cons {i : ι} {order : List ι} {labels : List L} {r r' r'' : R}
      (hlabels : ∀ l ∈ labels, allowed l)
      (hsolo : run sys.solo labels (init i, r) = some (final i, r'))
      (hrest : SerialRun allowed init final order r' r'') :
      SerialRun allowed init final (i :: order) r r''

variable {sys}

/-! ## One turn -/

theorem turn_eq_some {i : ι} {l : L} {c c' : Conf ι S R} :
    sys.turn (i, l) c = some c' ↔ ∃ s r, sys.step l (c.parts i) c.shared = some (s, r) ∧
      c' = ⟨Function.update c.parts i s, r⟩ := by
  rw [turn, Option.map_eq_some_iff]
  constructor
  · rintro ⟨⟨s, r⟩, hstep, rfl⟩
    exact ⟨s, r, hstep, rfl⟩
  · rintro ⟨s, r, hstep, rfl⟩
    exact ⟨(s, r), hstep, rfl⟩

theorem trace_cons {label : ι × L} {labels : List (ι × L)} {c c₁ : Conf ι S R}
    (h : sys.turn label c = some c₁) :
    sys.trace (label :: labels) c =
      (label.1, sys.access label.2 (c.parts label.1)) :: sys.trace labels c₁ := by
  rw [trace, h]
  rfl

/-- A turn leaves the other participants alone. -/
theorem parts_of_turn {label : ι × L} {c c' : Conf ι S R} (h : sys.turn label c = some c') {j : ι}
    (hj : label.1 ≠ j) : c'.parts j = c.parts j := by
  obtain ⟨s, r, -, rfl⟩ := turn_eq_some.mp h
  exact Function.update_of_ne hj.symm s c.parts

/-- Turns of different participants that do not conflict commute. -/
theorem turn_swap {i j : ι} (hij : i ≠ j) {l m : L} {c c₁ c₂ : Conf ι S R}
    (hi : sys.turn (i, l) c = some c₁) (hj : sys.turn (j, m) c₁ = some c₂)
    (hfree : ¬ sys.Conflict (sys.access l (c.parts i)) (sys.access m (c.parts j))) :
    ∃ c', sys.turn (j, m) c = some c' ∧ sys.turn (i, l) c' = some c₂ := by
  have hpart : c₁.parts j = c.parts j := parts_of_turn hi hij
  obtain ⟨s, r, hstep, rfl⟩ := turn_eq_some.mp hi
  obtain ⟨s₂, r₂, hstep₂, rfl⟩ := turn_eq_some.mp hj
  rw [hpart] at hstep₂
  generalize hai : sys.access l (c.parts i) = a at hfree
  generalize hbj : sys.access m (c.parts j) = b at hfree
  have hsafe : ∀ k, k ∈ sys.reads b ∨ k ∈ sys.writes b → k ∉ sys.writes a :=
    fun k hk hmem => hfree ⟨k, .inl ⟨hmem, hk⟩⟩
  have hsafe' : ∀ k, k ∈ sys.reads a ∨ k ∈ sys.writes a → k ∉ sys.writes b := by
    rintro k (hk | hk) hmem
    · exact hfree ⟨k, .inr ⟨hk, hmem⟩⟩
    · exact hfree ⟨k, .inl ⟨hk, .inr hmem⟩⟩
  -- `j` goes first: what it reads or writes `i` had not touched.
  obtain ⟨r', hfirst, hwrites⟩ := sys.inside hstep₂ c.shared fun k hk =>
    (sys.outside hstep (hai ▸ hsafe k (hbj ▸ hk))).symm
  -- `i` goes second: what it reads or writes `j` has not touched.
  obtain ⟨t, hsecond, hwrites'⟩ := sys.inside hstep r' fun k hk =>
    sys.outside hfirst (hbj ▸ hsafe' k (hai ▸ hk))
  have hshared : t = r₂ := by
    refine sys.cell_injective (funext fun k => ?_)
    by_cases hk : k ∈ sys.writes a
    · have hkb : k ∉ sys.writes b := hsafe' k (.inr hk)
      rw [hwrites' k (hai ▸ hk), sys.outside hstep₂ (hbj ▸ hkb)]
    · rw [sys.outside hsecond (hai ▸ hk)]
      by_cases hkb : k ∈ sys.writes b
      · exact hwrites k (hbj ▸ hkb)
      · rw [sys.outside hfirst (hbj ▸ hkb), sys.outside hstep₂ (hbj ▸ hkb),
          sys.outside hstep (hai ▸ hk)]
  refine ⟨⟨Function.update c.parts j s₂, r'⟩, turn_eq_some.mpr ⟨s₂, r', hfirst, rfl⟩, ?_⟩
  refine turn_eq_some.mpr ⟨s, t, ?_, ?_⟩
  · rw [← hsecond]
    exact congrArg (sys.step l · r') (Function.update_of_ne hij s₂ c.parts)
  · rw [hshared, Function.update_comm hij]

/-! ## Bringing one participant to the front -/

/-- Who took part in the rest of a run is not touched by turns of others. -/
theorem parts_of_run {labels : List (ι × L)} {c c' : Conf ι S R}
    (h : run sys.turn labels c = some c') {j : ι} (hj : ∀ label ∈ labels, label.1 ≠ j) :
    c'.parts j = c.parts j :=
  Machine.run_keeps (I := fun c₁ => c₁.parts j = c.parts j) h rfl fun label hmem _ _ hturn hI =>
    (parts_of_turn hturn (hj label hmem)).trans hI

/-- A turn that conflicts with none of the turns of `j` after it can come after them. -/
theorem turn_swap_run {i j : ι} (hij : i ≠ j) {l : L} {c c₁ c₂ : Conf ι S R}
    (hi : sys.turn (i, l) c = some c₁) {labels : List (ι × L)}
    (hlabels : ∀ label ∈ labels, label.1 = j) (hrun : run sys.turn labels c₁ = some c₂)
    (hfree : ∀ b ∈ sys.trace labels c₁, ¬ sys.Conflict (sys.access l (c.parts i)) b.2) :
    ∃ c', run sys.turn labels c = some c' ∧ sys.turn (i, l) c' = some c₂ ∧
      sys.trace labels c = sys.trace labels c₁ := by
  induction labels generalizing c c₁ with
  | nil =>
    obtain rfl : c₁ = c₂ := by simpa using hrun
    exact ⟨c, rfl, hi, rfl⟩
  | cons label labels ih =>
    obtain ⟨j', m⟩ := label
    obtain rfl : j' = j := hlabels _ List.mem_cons_self
    obtain ⟨c₃, hturn, hrest⟩ := Option.bind_eq_some_iff.mp hrun
    have hpart : c₁.parts j' = c.parts j' := parts_of_turn hi hij
    rw [trace_cons hturn] at hfree
    obtain ⟨c', hfirst, hsecond⟩ := turn_swap hij hi hturn
      (hpart ▸ hfree _ List.mem_cons_self)
    have hsame : c'.parts i = c.parts i := parts_of_turn hfirst hij.symm
    obtain ⟨c'', hrun', hlast, htrace⟩ := ih hsecond
      (fun label hmem => hlabels label (List.mem_cons_of_mem _ hmem)) hrest
      (fun b hb => hsame.symm ▸ hfree b (List.mem_cons_of_mem _ hb))
    refine ⟨c'', ?_, hlast, ?_⟩
    · rw [run_cons, hfirst]
      exact hrun'
    · rw [trace_cons hfirst, trace_cons hturn, htrace, hpart]

/-- The turns of `j`, if no turn of another one conflicts with a later one of them,
can all come first. -/
theorem run_front {j : ι} {labels : List (ι × L)} {c c' : Conf ι S R}
    (hrun : run sys.turn labels c = some c')
    (hfirst : (sys.trace labels c).Pairwise fun a b =>
      a.1 ≠ j → b.1 = j → ¬ sys.Conflict a.2 b.2) :
    ∃ c₁, run sys.turn (labels.filter (·.1 = j)) c = some c₁ ∧
      run sys.turn (labels.filter (·.1 ≠ j)) c₁ = some c' ∧
      sys.trace (labels.filter (·.1 = j)) c = (sys.trace labels c).filter (·.1 = j) ∧
      sys.trace (labels.filter (·.1 ≠ j)) c₁ = (sys.trace labels c).filter (·.1 ≠ j) := by
  induction labels generalizing c with
  | nil =>
    exact ⟨c, rfl, hrun, rfl, rfl⟩
  | cons label labels ih =>
    obtain ⟨i, l⟩ := label
    obtain ⟨c₂, hturn, hrest⟩ := Option.bind_eq_some_iff.mp hrun
    rw [trace_cons hturn] at hfirst ⊢
    obtain ⟨hhead, htail⟩ := List.pairwise_cons.mp hfirst
    obtain ⟨c₁, hmine, hothers, htraceMine, htraceOthers⟩ := ih hrest htail
    by_cases hij : i = j
    · refine ⟨c₁, ?_, ?_, ?_, ?_⟩
      · rw [List.filter_cons_of_pos (by simpa using hij), run_cons, hturn]
        exact hmine
      · rwa [List.filter_cons_of_neg (by simpa using hij)]
      · rw [List.filter_cons_of_pos (by simpa using hij), trace_cons hturn, htraceMine,
          List.filter_cons_of_pos (by simpa using hij)]
      · rw [List.filter_cons_of_neg (by simpa using hij), htraceOthers,
          List.filter_cons_of_neg (by simpa using hij)]
    · -- The turn of `i` moves behind those of `j`.
      obtain ⟨c₃, hrun₃, hturn₃, htrace₃⟩ := turn_swap_run hij hturn
        (fun label hmem => by simpa using (List.mem_filter.mp hmem).2) hmine fun b hb => by
          rw [htraceMine] at hb
          obtain ⟨hmem, hwho⟩ := List.mem_filter.mp hb
          exact hhead b hmem hij (by simpa using hwho)
      have hpart : c₃.parts i = c.parts i := parts_of_run hrun₃ fun label hmem => by
        have hwho : label.1 = j := by simpa using (List.mem_filter.mp hmem).2
        exact fun heq => hij (heq.symm.trans hwho)
      refine ⟨c₃, ?_, ?_, ?_, ?_⟩
      · rwa [List.filter_cons_of_neg (by simpa using hij)]
      · rw [List.filter_cons_of_pos (by simpa using hij), run_cons, hturn₃]
        exact hothers
      · rw [List.filter_cons_of_neg (by simpa using hij), htrace₃, htraceMine,
          List.filter_cons_of_neg (by simpa using hij)]
      · rw [List.filter_cons_of_pos (by simpa using hij), trace_cons hturn₃, htraceOthers,
          List.filter_cons_of_pos (by simpa using hij), hpart]

/-! ## Serial runs -/

/-- A run in which only `j` takes turns is a run of `j` on its own. -/
theorem solo_of_run {j : ι} {labels : List (ι × L)} (hlabels : ∀ label ∈ labels, label.1 = j)
    {c c' : Conf ι S R} (hrun : run sys.turn labels c = some c') :
    run sys.solo (labels.map Prod.snd) (c.parts j, c.shared) = some (c'.parts j, c'.shared) := by
  induction labels generalizing c with
  | nil =>
    obtain rfl : c = c' := by simpa using hrun
    rfl
  | cons label labels ih =>
    obtain ⟨i, l⟩ := label
    obtain rfl : i = j := hlabels _ List.mem_cons_self
    obtain ⟨c₁, hturn, hrest⟩ := Option.bind_eq_some_iff.mp hrun
    obtain ⟨s, r, hstep, rfl⟩ := turn_eq_some.mp hturn
    have hsolo := ih (fun label hmem => hlabels label (List.mem_cons_of_mem _ hmem)) hrest
    simp only [Function.update_self] at hsolo
    rw [List.map_cons, run_cons, solo, hstep]
    exact hsolo

/-- A run whose conflicts respect an order of its participants does what they do
one after the other in that order. -/
theorem serial_of_sorted {before : ι → ι → Prop} {allowed : L → Prop} {init : ι → S}
    {order : List ι} (hnodup : order.Nodup) (horder : order.Pairwise fun i j => ¬ before j i)
    {labels : List (ι × L)} {c c' : Conf ι S R} (hinit : ∀ i ∈ order, c.parts i = init i)
    (hall : ∀ label ∈ labels, label.1 ∈ order) (hallowed : ∀ label ∈ labels, allowed label.2)
    (hrun : run sys.turn labels c = some c')
    (hbefore : (sys.trace labels c).Pairwise fun a b =>
      a.1 ≠ b.1 → sys.Conflict a.2 b.2 → before a.1 b.1)
    (hwho : ∀ a ∈ sys.trace labels c, a.1 ∈ order) :
    sys.SerialRun allowed init c'.parts order c.shared c'.shared := by
  induction order generalizing labels c with
  | nil =>
    obtain rfl : labels = [] := List.eq_nil_iff_forall_not_mem.mpr fun label hmem => by
      simpa using hall label hmem
    obtain rfl : c = c' := by simpa using hrun
    exact .nil _
  | cons j order ih =>
    obtain ⟨hj, hnodup⟩ := List.nodup_cons.mp hnodup
    obtain ⟨hmin, horder⟩ := List.pairwise_cons.mp horder
    obtain ⟨c₁, hmine, hothers, -, htrace⟩ := run_front (j := j) hrun <|
      hbefore.imp_of_mem fun {a b} ha _ hab hne hb hconf => by
        have hin : a.1 ∈ order := (List.mem_cons.mp (hwho a ha)).resolve_left hne
        exact hmin a.1 hin (hb ▸ hab (fun h => hne (h.trans hb)) hconf)
    have hmineOnly : ∀ label ∈ labels.filter (·.1 = j), label.1 = j := fun label hmem => by
      simpa using (List.mem_filter.mp hmem).2
    have hothersOnly : ∀ label ∈ labels.filter (·.1 ≠ j), label.1 ≠ j ∧ label.1 ∈ order := by
      intro label hmem
      obtain ⟨hmem, hne⟩ := List.mem_filter.mp hmem
      have hne : label.1 ≠ j := by simpa using hne
      exact ⟨hne, (List.mem_cons.mp (hall label hmem)).resolve_left hne⟩
    have hsolo := solo_of_run hmineOnly hmine
    rw [hinit j List.mem_cons_self] at hsolo
    have hfinal : c'.parts j = c₁.parts j :=
      parts_of_run hothers fun label hmem => (hothersOnly label hmem).1
    refine .cons ?_ (hfinal ▸ hsolo) (ih hnodup horder ?_
      (fun label hmem => (hothersOnly label hmem).2)
      (fun label hmem => hallowed label (List.mem_filter.mp hmem).1) hothers
      (htrace ▸ hbefore.filter _) ?_)
    · intro l hl
      obtain ⟨label, hmem, rfl⟩ := List.mem_map.mp hl
      exact hallowed label (List.mem_filter.mp hmem).1
    · intro i hi
      have hij : i ≠ j := fun h => hj (h ▸ hi)
      rw [parts_of_run hmine fun label hmem h => hij (h.symm.trans (hmineOnly label hmem))]
      exact hinit i (List.mem_cons_of_mem _ hi)
    · intro a ha
      rw [htrace] at ha
      obtain ⟨hmem, hne⟩ := List.mem_filter.mp ha
      exact (List.mem_cons.mp (hwho a hmem)).resolve_left (by simpa using hne)

/-- A run whose conflicts form no cycle does what some serial run of all its
participants does. -/
theorem serial_of_acyclic [Fintype ι] (allowed : L → Prop) {labels : List (ι × L)}
    (hallowed : ∀ label ∈ labels, allowed label.2) {c c' : Conf ι S R}
    (hrun : run sys.turn labels c = some c') (hacyclic : sys.Acyclic (sys.trace labels c)) :
    ∃ order : List ι, order.Nodup ∧ (∀ i, i ∈ order) ∧
      sys.SerialRun allowed c.parts c'.parts order c.shared c'.shared := by
  classical
  let reach : ι → ι → Prop := ReflTransGen (sys.Precedes (sys.trace labels c))
  have hpartial : IsPartialOrder ι reach :=
    { refl := fun _ => .refl
      trans := fun _ _ _ => .trans
      antisymm := fun i j hij hji => by
        rcases Relation.reflTransGen_iff_eq_or_transGen.mp hij with heq | hlt
        · exact heq.symm
        · exact absurd (hlt.trans_left hji) (hacyclic i) }
  obtain ⟨before, hlinear, hle⟩ := extend_partialOrder reach
  have hnodup : (Finset.univ.sort before).Nodup := Finset.sort_nodup _ _
  have hmem : ∀ i, i ∈ Finset.univ.sort before :=
    fun i => (Finset.mem_sort _).mpr (Finset.mem_univ i)
  have hsorted : (Finset.univ.sort before).Pairwise fun i j => ¬ before j i :=
    ((Finset.pairwise_sort _ _).and hnodup).imp fun ⟨hij, hne⟩ hji =>
      hne (hlinear.antisymm _ _ hij hji)
  refine ⟨_, hnodup, hmem, serial_of_sorted hnodup hsorted (fun _ _ => rfl) (fun _ _ => hmem _)
    hallowed hrun ?_ fun _ _ => hmem _⟩
  refine List.pairwise_iff_forall_sublist.mpr fun {a b} hsub hne hconf => ?_
  exact hle _ _ (.single ⟨hne, a.2, b.2, hsub, hconf⟩)

omit [DecidableEq ι] in
/-- Conflicts that go up in some rank of the participants have no cycle. -/
theorem acyclic_of_rank {turns : List (ι × A)} (rank : ι → Nat)
    (h : turns.Pairwise fun a b => rank a.1 < rank b.1 ∨ a.1 = b.1 ∨ ¬ sys.Conflict a.2 b.2) :
    sys.Acyclic turns := by
  have hstep : ∀ i j, sys.Precedes turns i j → rank i < rank j := by
    rintro i j ⟨hne, a, b, hsub, hconf⟩
    rcases List.pairwise_iff_forall_sublist.mp h hsub with hlt | heq | hfree
    · exact hlt
    · exact absurd heq hne
    · exact absurd hconf hfree
  have hreach : ∀ i j, TransGen (sys.Precedes turns) i j → rank i < rank j := by
    intro i j hij
    induction hij with
    | single hprec => exact hstep _ _ hprec
    | tail _ hprec ih => exact ih.trans (hstep _ _ hprec)
  exact fun i hi => Nat.lt_irrefl _ (hreach i i hi)

end System

end Serial
