-- SUMMARY: Versioned migrations: scripts that are applied in order, may stop at any statement, and are taken up again.
import EdgeReplica.Lib.Effect

/-!
# Migrations

A store is brought up to date by scripts with ascending versions. The runner reads the
version that is stamped in the store, applies the scripts above it statement by statement
and stamps each. Any call may fail, and a version that cannot be read counts as none. What
a statement establishes must outlast the statements after it; then a script that stopped
half way is finished by the next attempt, and a stamp is never ahead of its scripts.
-/

namespace Migrations

open Effect (Outcome Spec Steps final)

variable {ε σ S : Type}

structure Migration (S : Type) where
  version : Int64
  statements : List S

/-- What a runner calls. -/
structure Calls (ε σ S : Type) where
  current : EStateM ε σ Int64
  exec (version : Int64) (statement : S) : EStateM ε σ Unit
  stamp (version : Int64) : EStateM ε σ Unit

/-- `unwrap_or`: a value in place of an error. -/
def unwrapOr {α : Type} (m : EStateM ε σ α) (a : α) : EStateM ε σ α := fun s =>
  match m.run s with
  | .ok b s => .ok b s
  | .error _ s => .ok a s

namespace Calls

variable (calls : Calls ε σ S)

def apply (m : Migration S) : EStateM ε σ Unit := do
  forM m.statements (calls.exec m.version)
  calls.stamp m.version

def ensure (migrations : List (Migration S)) : EStateM ε σ Unit := do
  let current ← unwrapOr calls.current 0
  forM (migrations.filter fun m => current < m.version) calls.apply

/-! ## Rules -/

/-- What every call keeps, a runner keeps. -/
theorem ensure_keeps {I : σ → Prop} {migrations : List (Migration S)}
    (hcurrent : ∀ s, I s → I (final (calls.current.run s)))
    (hexec : ∀ m ∈ migrations, ∀ statement ∈ m.statements, ∀ s, I s →
      I (final ((calls.exec m.version statement).run s)))
    (hstamp : ∀ version s, I s → I (final ((calls.stamp version).run s))) {s : σ} (hs : I s) :
    I (final ((calls.ensure migrations).run s)) := by
  have hsteps : Steps (fun s s' => I s → I s') s (calls.ensure migrations) := by
    refine Steps.bind (.single fun h => ?_) fun current s' _ => ?_
    · have hread := hcurrent s h
      show I (final (unwrapOr calls.current 0 s))
      unfold unwrapOr
      cases hr : calls.current.run s <;> (rw [hr] at hread; exact hread)
    · refine Steps.forM (I := fun _ => True) trivial (fun m hm s _ => ?_) fun _ _ _ _ => trivial
      have hm := (List.mem_filter.mp hm).1
      refine Steps.bind ?_ fun _ s' _ => .single (hstamp m.version s')
      refine Steps.forM (I := fun _ => True) trivial (fun statement hstatement s _ => ?_)
        fun _ _ _ _ => trivial
      exact .single (hexec m hm statement hstatement s)
  exact hsteps.keeps (fun _ _ h => h) hs

/-- A runner returns if its calls do. -/
theorem ensure_ok {I : σ → Prop} {migrations : List (Migration S)}
    (hcurrent : ∀ s, I s → I (final (calls.current.run s)))
    (happly : ∀ m ∈ migrations, ∀ s, I s → ∃ s', (calls.apply m).run s = .ok () s' ∧ I s')
    {s : σ} (hs : I s) : ∃ s', (calls.ensure migrations).run s = .ok () s' ∧ I s' := by
  have hloop : ∀ (todo : List (Migration S)) (s : σ), todo ⊆ migrations → I s →
      ∃ s', (forM todo calls.apply).run s = .ok () s' ∧ I s' := by
    intro todo
    induction todo with
    | nil => exact fun s _ hs => ⟨s, rfl, hs⟩
    | cons m todo ih =>
      intro s hsub hs
      obtain ⟨hm, htodo⟩ := List.cons_subset.mp hsub
      obtain ⟨s₁, hrun, hs₁⟩ := happly m hm s hs
      rw [List.forM_cons, EStateM.run_bind, hrun]
      exact ih s₁ htodo hs₁
  have hread := hcurrent s hs
  unfold ensure
  rw [EStateM.run_bind]
  have hunwrap : (unwrapOr calls.current 0).run s = unwrapOr calls.current 0 s := rfl
  rw [hunwrap, unwrapOr]
  cases hr : calls.current.run s with
  | ok v s₁ =>
    rw [hr] at hread
    exact hloop _ s₁ (fun _ hm => (List.mem_filter.mp hm).1) hread
  | error e s₁ =>
    rw [hr] at hread
    exact hloop _ s₁ (fun _ hm => (List.mem_filter.mp hm).1) hread

/-- What the calls do to the store: which statements hold in it, and which versions it is
stamped with. -/
structure Lawful (holds : S → σ → Prop) (stamped : Int64 → σ → Prop) : Prop where
  current_holds {statement : S} {s : σ} :
    holds statement s → holds statement (final (calls.current.run s))
  current_stamped {v : Int64} {s : σ} : stamped v (final (calls.current.run s)) → stamped v s
  current_le (s : σ) : Outcome (fun v _ => v ≤ 0 ∨ ∃ v', stamped v' s ∧ v ≤ v') (fun _ _ => True)
    (calls.current.run s)
  exec_holds (version : Int64) {statement statement' : S} {s : σ} :
    holds statement s → holds statement (final ((calls.exec version statement').run s))
  exec_stamped {version v : Int64} {statement : S} {s : σ} :
    stamped v (final ((calls.exec version statement).run s)) → stamped v s
  exec_ok (version : Int64) (statement : S) (s : σ) :
    Outcome (fun _ s' => holds statement s') (fun _ _ => True)
      ((calls.exec version statement).run s)
  stamp_holds (version : Int64) {statement : S} {s : σ} :
    holds statement s → holds statement (final ((calls.stamp version).run s))
  stamp_stamped {version v : Int64} {s : σ} :
    stamped v (final ((calls.stamp version).run s)) → stamped v s ∨ v = version

variable {calls} {holds : S → σ → Prop} {stamped : Int64 → σ → Prop}

/-- A version is stamped only if the scripts up to it hold. -/
def Sound (holds : S → σ → Prop) (stamped : Int64 → σ → Prop) (migrations : List (Migration S))
    (s : σ) : Prop :=
  ∀ v, stamped v s → ∀ m ∈ migrations, m.version ≤ v → ∀ statement ∈ m.statements,
    holds statement s

/-- All of these statements hold. -/
def Holding (holds : S → σ → Prop) (P : S → Prop) (s : σ) : Prop :=
  ∀ statement, P statement → holds statement s

namespace Lawful

variable {migrations : List (Migration S)} (h : calls.Lawful holds stamped)
include h

theorem sound_exec {version : Int64} {statement : S} {s : σ}
    (hs : Sound holds stamped migrations s) :
    Sound holds stamped migrations (final ((calls.exec version statement).run s)) :=
  fun v hv m hm hle statement' hstatement =>
    h.exec_holds version (hs v (h.exec_stamped hv) m hm hle statement' hstatement)

theorem spec_exec (version : Int64) (statement : S) (P : S → Prop) :
    Spec (fun s => Sound holds stamped migrations s ∧ Holding holds P s)
      (calls.exec version statement)
      (fun _ s => Sound holds stamped migrations s ∧
        Holding holds (fun statement' => P statement' ∨ statement' = statement) s)
      (fun _ => Sound holds stamped migrations) := by
  rintro s ⟨hs, hP⟩
  have hsound : Sound holds stamped migrations (final ((calls.exec version statement).run s)) :=
    h.sound_exec hs
  have hkeep : Holding holds P (final ((calls.exec version statement).run s)) :=
    fun statement' hP' => h.exec_holds version (hP statement' hP')
  have hnew := h.exec_ok version statement s
  cases hr : (calls.exec version statement).run s with
  | error e s' => rw [hr] at hsound; exact hsound
  | ok a s' =>
    rw [hr] at hsound hkeep hnew
    refine ⟨hsound, ?_⟩
    rintro statement' (hP' | rfl)
    · exact hkeep statement' hP'
    · exact hnew

theorem spec_statements (version : Int64) (statements : List S) (P : S → Prop) :
    Spec (fun s => Sound holds stamped migrations s ∧ Holding holds P s)
      (forM statements (calls.exec version))
      (fun _ s => Sound holds stamped migrations s ∧
        Holding holds (fun statement => P statement ∨ statement ∈ statements) s)
      (fun _ => Sound holds stamped migrations) := by
  induction statements generalizing P with
  | nil => exact fun s hs => ⟨hs.1, fun statement hP => hs.2 statement (by simpa using hP)⟩
  | cons statement statements ih =>
    rw [List.forM_cons]
    refine Spec.bind (h.spec_exec version statement P) fun _ s hs => ?_
    refine (ih _ s hs).imp ?_ fun _ _ => id
    exact fun _ s hall => ⟨hall.1, fun statement' hP =>
      hall.2 statement' (or_assoc.mpr (hP.imp_right List.mem_cons.mp))⟩

/-- The stamp of a script whose predecessors hold. -/
theorem spec_apply {m : Migration S} {P : S → Prop}
    (hbegins : ∀ m' ∈ migrations, m'.version ≤ m.version →
      (∀ statement ∈ m'.statements, P statement) ∨ m' = m) :
    Spec (fun s => Sound holds stamped migrations s ∧ Holding holds P s) (calls.apply m)
      (fun _ s => Sound holds stamped migrations s ∧
        Holding holds (fun statement => P statement ∨ statement ∈ m.statements) s)
      (fun _ => Sound holds stamped migrations) := by
  refine Spec.bind (h.spec_statements m.version m.statements P) fun _ => ?_
  rintro s ⟨hs, hP⟩
  have hsound : Sound holds stamped migrations (final ((calls.stamp m.version).run s)) := by
    intro v hv m' hm' hle statement hstatement
    refine h.stamp_holds m.version ?_
    rcases h.stamp_stamped hv with hold | rfl
    · exact hs v hold m' hm' hle statement hstatement
    · rcases hbegins m' hm' hle with hbefore | rfl
      · exact hP statement (.inl (hbefore statement hstatement))
      · exact hP statement (.inr hstatement)
  cases hr : (calls.stamp m.version).run s with
  | error e s' => rw [hr] at hsound; exact hsound
  | ok a s' =>
    rw [hr] at hsound
    refine ⟨hsound, fun statement hstatement => ?_⟩
    have hkeep := h.stamp_holds m.version (hP statement hstatement)
    rwa [hr] at hkeep

/-- The scripts of a run of the runner, the ones below done. -/
theorem spec_todo {P : S → Prop} (before : List (Migration S)) {todo : List (Migration S)}
    (hascending : (before ++ todo).Pairwise fun m m' => m.version < m'.version)
    (hbefore : ∀ m ∈ before, ∀ statement ∈ m.statements, P statement)
    (hmem : ∀ m ∈ migrations, (∀ statement ∈ m.statements, P statement) ∨ m ∈ before ++ todo) :
    Spec (fun s => Sound holds stamped migrations s ∧ Holding holds P s) (forM todo calls.apply)
      (fun _ s => Sound holds stamped migrations s ∧
        ∀ m ∈ migrations, ∀ statement ∈ m.statements, holds statement s)
      (fun _ => Sound holds stamped migrations) := by
  induction todo generalizing P before with
  | nil =>
    rintro s ⟨hs, hP⟩
    refine ⟨hs, fun m hm statement hstatement => hP statement ?_⟩
    rcases hmem m hm with hdone | hm
    · exact hdone statement hstatement
    · exact hbefore m (by simpa using hm) statement hstatement
  | cons m todo ih =>
    rw [List.forM_cons]
    refine Spec.bind (h.spec_apply (P := P) fun m' hm' hle => ?_) fun _ => ?_
    · rcases hmem m' hm' with hdone | hlisted
      · exact .inl hdone
      · rcases List.mem_append.mp hlisted with hb | ht
        · exact .inl (hbefore m' hb)
        · rcases List.mem_cons.mp ht with rfl | ht
          · exact .inr rfl
          · have hlt := (List.pairwise_cons.mp (List.pairwise_append.mp hascending).2.1).1 m' ht
            exact absurd (Std.lt_of_lt_of_le hlt hle) Std.lt_irrefl
    · refine ih (before ++ [m]) (by simpa using hascending) ?_ ?_
      · intro m' hm' statement hstatement
        rcases List.mem_append.mp hm' with hb | hm'
        · exact .inl (hbefore m' hb statement hstatement)
        · obtain rfl := List.mem_singleton.mp hm'
          exact .inr hstatement
      · intro m' hm'
        rcases hmem m' hm' with hdone | hlisted
        · exact .inl fun statement hstatement => .inl (hdone statement hstatement)
        · exact .inr (by simpa using hlisted)

/-- Whether the runner returns or stops, no stamp is ahead of its scripts; and if it
returns, all scripts hold. -/
theorem spec_ensure (migrations : List (Migration S))
    (hascending : migrations.Pairwise fun m m' => m.version < m'.version)
    (hpositive : ∀ m ∈ migrations, 0 < m.version) :
    Spec (Sound holds stamped migrations) (calls.ensure migrations)
      (fun _ s => Sound holds stamped migrations s ∧
        ∀ m ∈ migrations, ∀ statement ∈ m.statements, holds statement s)
      (fun _ => Sound holds stamped migrations) := by
  -- What the version that was read stands for.
  let below (current : Int64) (statement : S) : Prop :=
    ∃ m ∈ migrations, m.version ≤ current ∧ statement ∈ m.statements
  refine Spec.bind (Q := fun current s => Sound holds stamped migrations s ∧
    Holding holds (below current) s) ?_ fun current => ?_
  · intro s hs
    have hsound : Sound holds stamped migrations (final (calls.current.run s)) :=
      fun v hv m hm hle statement hstatement =>
        h.current_holds (hs v (h.current_stamped hv) m hm hle statement hstatement)
    have hnone : ∀ (v : Int64) (s' : σ), v ≤ 0 → Holding holds (below v) s' := by
      rintro v s' hv statement ⟨m, hm, hle, -⟩
      exact absurd (Std.lt_of_lt_of_le (hpositive m hm) (Std.le_trans hle hv)) Std.lt_irrefl
    have hread := h.current_le s
    show Outcome _ _ (unwrapOr calls.current 0 s)
    unfold unwrapOr
    cases hr : calls.current.run s with
    | error e s' =>
      rw [hr] at hsound
      exact ⟨hsound, hnone 0 s' (Std.le_refl 0)⟩
    | ok v s' =>
      rw [hr] at hsound hread
      refine ⟨hsound, ?_⟩
      rcases hread with hv | ⟨v', hv', hle⟩
      · exact hnone v s' hv
      · rintro statement ⟨m, hm, hbelow, hstatement⟩
        have hold := hs v' hv' m hm (Std.le_trans hbelow hle) statement hstatement
        have hkeep := h.current_holds hold
        rwa [hr] at hkeep
  · refine h.spec_todo [] (hascending.filter _) nofun fun m hm => ?_
    by_cases hle : m.version ≤ current
    · exact .inl fun statement hstatement => ⟨m, hm, hle, hstatement⟩
    · exact .inr (List.mem_filter.mpr ⟨hm, by simpa using hle⟩)

end Lawful

end Calls

end Migrations
