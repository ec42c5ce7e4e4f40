-- SUMMARY: Executable transition systems: runs over labels, reachable states, and the invariant rule.
import Mathlib.Data.List.Basic

/-!
# Machines

A machine is a partial step function over labels: a label that is not enabled in
a state has no next state. Whoever chooses the labels chooses the schedule, so
what holds of every run holds under every interleaving.
-/

namespace Machine

variable {L S : Type} (step : L → S → Option S)

/-- Take the labels one after the other. -/
def run : List L → S → Option S
  | [], s => some s
  | l :: ls, s => (step l s).bind (run ls)

/-- Some label is enabled. -/
def Enabled (s : S) : Prop := ∃ l s', step l s = some s'

@[simp] theorem run_nil (s : S) : run step [] s = some s := rfl

theorem run_cons (l : L) (ls : List L) (s : S) :
    run step (l :: ls) s = (step l s).bind (run step ls) := rfl

theorem run_singleton (l : L) (s : S) : run step [l] s = step l s := by
  rw [run_cons]
  cases step l s <;> rfl

theorem run_append (ls₁ ls₂ : List L) (s : S) :
    run step (ls₁ ++ ls₂) s = (run step ls₁ s).bind (run step ls₂) := by
  induction ls₁ generalizing s with
  | nil => rfl
  | cons l ls ih =>
    rw [List.cons_append, run_cons, run_cons]
    cases step l s with
    | none => rfl
    | some s' => exact ih s'

variable {step}

theorem run_append_some {ls₁ ls₂ : List L} {s s'' : S} (h : run step (ls₁ ++ ls₂) s = some s'') :
    ∃ s', run step ls₁ s = some s' ∧ run step ls₂ s' = some s'' := by
  rw [run_append] at h
  exact Option.bind_eq_some_iff.mp h

/-- A map that takes steps to steps takes runs to runs. -/
theorem run_map {T : Type} {step' : L → T → Option T} {f : S → T}
    (hstep : ∀ l s, step' l (f s) = (step l s).map f) (ls : List L) (s : S) :
    run step' ls (f s) = (run step ls s).map f := by
  induction ls generalizing s with
  | nil => rfl
  | cons l ls ih =>
    rw [run_cons, run_cons, hstep]
    cases step l s with
    | none => rfl
    | some s' => exact ih s'

/-- What holds at the start and is kept by every enabled label of a run holds at
its end. -/
theorem run_keeps {I : S → Prop} {ls : List L} {s s' : S} (h : run step ls s = some s')
    (hs : I s) (hstep : ∀ l ∈ ls, ∀ s s', step l s = some s' → I s → I s') : I s' := by
  induction ls generalizing s with
  | nil =>
    obtain rfl : s = s' := by simpa using h
    exact hs
  | cons l ls ih =>
    obtain ⟨s₁, h₁, hrest⟩ := Option.bind_eq_some_iff.mp h
    refine ih hrest (hstep l List.mem_cons_self s s₁ h₁ hs) ?_
    exact fun l' hl' => hstep l' (List.mem_cons_of_mem l hl')

/-- An invariant that may speak of the labels taken so far. -/
theorem run_traces {I : List L → S → Prop} {ls : List L} {s s' : S}
    (h : run step ls s = some s') (hs : I [] s)
    (hstep : ∀ before l s s', step l s = some s' → I before s → I (before ++ [l]) s') :
    I ls s' := by
  have hfrom : ∀ (ls before : List L) (s : S), run step ls s = some s' → I before s →
      I (before ++ ls) s' := by
    intro ls
    induction ls with
    | nil =>
      intro before s h hs
      obtain rfl : s = s' := by simpa using h
      rwa [List.append_nil]
    | cons l ls ih =>
      intro before s h hs
      obtain ⟨s₁, h₁, hrest⟩ := Option.bind_eq_some_iff.mp h
      rw [← List.singleton_append, ← List.append_assoc]
      exact ih (before ++ [l]) s₁ hrest (hstep before l s s₁ h₁ hs)
  exact hfrom ls [] s h hs

/-! ## Runs whose labels meet a condition -/

variable (step) in
/-- The run goes through states with `P` only. -/
def Throughout (P : S → Prop) : List L → S → Prop
  | [], s => P s
  | l :: ls, s => P s ∧ ∀ s' ∈ step l s, Throughout P ls s'

variable (step) in
/-- Each label of the run is taken in a state in which it meets `C`. -/
def Meets (C : S → L → Prop) : List L → S → Prop
  | [], _ => True
  | l :: ls, s => C s l ∧ ∀ s' ∈ step l s, Meets C ls s'

instance decidableMeets {C : S → L → Prop} [∀ s l, Decidable (C s l)] :
    (ls : List L) → (s : S) → Decidable (Meets step C ls s)
  | [], _ => isTrue trivial
  | l :: ls, s =>
    have : DecidablePred (Meets step C ls) := decidableMeets ls
    inferInstanceAs (Decidable (C s l ∧ ∀ s' ∈ step l s, Meets step C ls s'))

/-- The condition is met if it is wherever the run is cut. -/
theorem meets_iff {C : S → L → Prop} {ls : List L} {s : S} :
    Meets step C ls s ↔
      ∀ before l after t, ls = before ++ l :: after → run step before s = some t → C t l := by
  induction ls generalizing s with
  | nil =>
    refine iff_of_true trivial fun before l after t heq => ?_
    exact absurd heq.symm (List.append_ne_nil_of_right_ne_nil before (List.cons_ne_nil l after))
  | cons l ls ih =>
    constructor
    · rintro ⟨hC, hrest⟩ before l' after t heq hrun
      cases before with
      | nil =>
        obtain ⟨rfl, -⟩ := List.cons.inj heq
        obtain rfl := Option.some.inj hrun
        exact hC
      | cons l₀ before =>
        obtain ⟨rfl, hls⟩ := List.cons.inj heq
        obtain ⟨s', hstep, hrun⟩ := Option.bind_eq_some_iff.mp hrun
        exact ih.mp (hrest s' hstep) before l' after t hls hrun
    · intro h
      refine ⟨h [] l ls s rfl rfl, fun s' hstep => ih.mpr fun before l' after t heq hrun => ?_⟩
      refine h (l :: before) l' after t (by rw [heq, List.cons_append]) ?_
      rw [run_cons, hstep]
      exact hrun

theorem Meets.imp {C C' : S → L → Prop} (himp : ∀ s l, C s l → C' s l) {ls : List L} {s : S}
    (h : Meets step C ls s) : Meets step C' ls s :=
  meets_iff.mpr fun before l after t heq hrun =>
    himp t l (meets_iff.mp h before l after t heq hrun)

/-- What the labels keep that meet the condition holds at the end of such a run. -/
theorem run_keeps_of_meets {I : S → Prop} {C : S → L → Prop} {ls : List L} {s s' : S}
    (h : run step ls s = some s') (hs : I s) (hmeets : Meets step C ls s)
    (hstep : ∀ l s s', step l s = some s' → I s → C s l → I s') : I s' := by
  induction ls generalizing s with
  | nil =>
    obtain rfl : s = s' := by simpa using h
    exact hs
  | cons l ls ih =>
    obtain ⟨s₁, h₁, hrest⟩ := Option.bind_eq_some_iff.mp h
    exact ih hrest (hstep l s s₁ h₁ hs hmeets.1) (hmeets.2 s₁ h₁)

/-- The condition is exact if the labels that meet it keep an invariant, and no other
label leads to a state with `P`. -/
theorem throughout_iff_meets {I P : S → Prop} {C : S → L → Prop} (hI : ∀ s, I s → P s)
    (hkeeps : ∀ l s s', step l s = some s' → I s → C s l → I s')
    (hneeds : ∀ l s s', step l s = some s' → I s → P s' → C s l) {ls : List L} {s s' : S}
    (hrun : run step ls s = some s') (hs : I s) :
    Throughout step P ls s ↔ Meets step C ls s := by
  induction ls generalizing s with
  | nil => exact iff_of_true (hI s hs) trivial
  | cons l ls ih =>
    obtain ⟨s₁, h₁, hrest⟩ := Option.bind_eq_some_iff.mp hrun
    have honly : ∀ t ∈ step l s, t = s₁ := fun t ht => Option.some.inj (ht.symm.trans h₁)
    constructor
    · rintro ⟨-, hafter⟩
      have hP : P s₁ := by
        have hthrough := hafter s₁ h₁
        cases ls with
        | nil => exact hthrough
        | cons l' ls' => exact hthrough.1
      have hC : C s l := hneeds l s s₁ h₁ hs hP
      refine ⟨hC, fun t ht => ?_⟩
      obtain rfl := honly t ht
      exact (ih hrest (hkeeps l s t h₁ hs hC)).mp (hafter t h₁)
    · rintro ⟨hC, hafter⟩
      refine ⟨hI s hs, fun t ht => ?_⟩
      obtain rfl := honly t ht
      exact (ih hrest (hkeeps l s t h₁ hs hC)).mpr (hafter t h₁)

/-! ## Runs that count down -/

/-- Each step of the run takes one off the measure. -/
theorem run_counts {I : S → Prop} {μ : S → Nat} {ls : List L} {s s' : S}
    (h : run step ls s = some s') (hs : I s)
    (hstep : ∀ l ∈ ls, ∀ s s', step l s = some s' → I s → I s' ∧ μ s = μ s' + 1) :
    I s' ∧ μ s = μ s' + ls.length := by
  induction ls generalizing s with
  | nil =>
    obtain rfl : s = s' := by simpa using h
    exact ⟨hs, rfl⟩
  | cons l ls ih =>
    obtain ⟨s₁, h₁, hrest⟩ := Option.bind_eq_some_iff.mp h
    obtain ⟨hI, hone⟩ := hstep l List.mem_cons_self s s₁ h₁ hs
    obtain ⟨hI', hmore⟩ := ih hrest hI fun l' hl' => hstep l' (List.mem_cons_of_mem l hl')
    refine ⟨hI', ?_⟩
    rw [hone, hmore, List.length_cons, Nat.add_assoc]

/-- What is never stuck short of `P`, and cannot go on for ever, can be run until `P`. -/
theorem exists_run_until {I P : S → Prop} {A : L → Prop} {μ : S → Nat}
    (hstep : ∀ l, A l → ∀ s s', step l s = some s' → I s → I s' ∧ μ s = μ s' + 1)
    (henabled : ∀ s, I s → ¬ P s → ∃ l s', A l ∧ step l s = some s') {s : S} (hs : I s) :
    ∃ ls s', (∀ l ∈ ls, A l) ∧ run step ls s = some s' ∧ P s' := by
  induction hn : μ s generalizing s with
  | zero =>
    by_cases hP : P s
    · exact ⟨[], s, nofun, rfl, hP⟩
    · obtain ⟨l, s₁, hA, h₁⟩ := henabled s hs hP
      have hone := (hstep l hA s s₁ h₁ hs).2
      rw [hn] at hone
      cases hone
  | succ n ih =>
    by_cases hP : P s
    · exact ⟨[], s, nofun, rfl, hP⟩
    · obtain ⟨l, s₁, hA, h₁⟩ := henabled s hs hP
      obtain ⟨hI, hone⟩ := hstep l hA s s₁ h₁ hs
      obtain ⟨ls, s', hls, hrun, hP'⟩ := ih hI (Nat.succ.inj (hone.symm.trans hn))
      refine ⟨l :: ls, s', List.forall_mem_cons.mpr ⟨hA, hls⟩, ?_, hP'⟩
      rw [run_cons, h₁]
      exact hrun

/-! ## Two machines side by side -/

/-- A relation that two machines keep in step. Both take the labels that `shown` shows, under
the names it shows them by; the first takes the others alone, and those that meet `A` change
nothing that the relation sees. -/
structure Lockstep {K T : Type} (step : L → S → Option S) (step' : K → T → Option T)
    (shown : L → Option K) (A : L → Prop) (R : S → T → Prop) : Prop where
  both {l : L} {k : K} {s : S} {t : T} (hl : shown l = some k) (h : R s t) :
    Option.Rel R (step l s) (step' k t)
  alone {l : L} {s s' : S} {t : T} (hl : shown l = none) (hA : A l) (h : R s t)
    (hstep : step l s = some s') : R s' t

namespace Lockstep

variable {K T : Type} {step' : K → T → Option T} {shown : L → Option K} {A : L → Prop}
  {R : S → T → Prop}

theorem of_left {s : S} {t : Option T} (h : Option.Rel R (some s) t) :
    ∃ t', t = some t' ∧ R s t' := by
  cases h with
  | some h => exact ⟨_, rfl, h⟩

theorem of_right {s : Option S} {t : T} (h : Option.Rel R s (some t)) :
    ∃ s', s = some s' ∧ R s' t := by
  cases h with
  | some h => exact ⟨_, rfl, h⟩

theorem rel_map {α : Type} {f : α → S} {g : α → T} {o : Option α} (h : ∀ a, R (f a) (g a)) :
    Option.Rel R (o.map f) (o.map g) := by
  cases o with
  | none => exact .none
  | some a => exact .some (h a)

/-- A run of the first machine shows as one of the second. -/
theorem run_shown (h : Lockstep step step' shown A R) {ls : List L} (hls : ∀ l ∈ ls, A l)
    {s s' : S} {t : T} (hrun : run step ls s = some s') (hR : R s t) :
    ∃ t', run step' (ls.filterMap shown) t = some t' ∧ R s' t' := by
  induction ls generalizing s t with
  | nil =>
    obtain rfl := Option.some.inj hrun
    exact ⟨t, rfl, hR⟩
  | cons l ls ih =>
    obtain ⟨hl, hls⟩ := List.forall_mem_cons.mp hls
    obtain ⟨s₁, h₁, hrest⟩ := Option.bind_eq_some_iff.mp hrun
    cases hshown : shown l with
    | none =>
      rw [List.filterMap_cons_none hshown]
      exact ih hls hrest (h.alone hshown hl hR h₁)
    | some k =>
      obtain ⟨t₁, ht, hR₁⟩ := of_left (h₁ ▸ h.both hshown hR)
      obtain ⟨t', hrun', hR'⟩ := ih hls hrest hR₁
      refine ⟨t', ?_, hR'⟩
      rw [List.filterMap_cons_some hshown, run_cons, ht]
      exact hrun'

/-- A run of the second machine is one that the first can take. -/
theorem run_lift (h : Lockstep step step' shown A R) {name : K → L}
    (hname : ∀ k, shown (name k) = some k) {ks : List K} {s : S} {t t' : T}
    (hrun : run step' ks t = some t') (hR : R s t) :
    ∃ s', run step (ks.map name) s = some s' ∧ R s' t' := by
  induction ks generalizing s t with
  | nil =>
    obtain rfl := Option.some.inj hrun
    exact ⟨s, rfl, hR⟩
  | cons k ks ih =>
    obtain ⟨t₁, h₁, hrest⟩ := Option.bind_eq_some_iff.mp hrun
    obtain ⟨s₁, hs, hR₁⟩ := of_right (h₁ ▸ h.both (hname k) hR)
    obtain ⟨s', hrun', hR'⟩ := ih hrest hR₁
    refine ⟨s', ?_, hR'⟩
    rw [List.map_cons, run_cons, hs]
    exact hrun'

end Lockstep

end Machine
