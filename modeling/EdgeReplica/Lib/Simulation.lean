-- SUMMARY: Rules that relate two runs: one seen through a map of the states, and one that an error cuts short.
import EdgeReplica.Lib.Effect

/-!
# Simulations

Ways in which the runs of computations over a state go together.

* `Refines f m m'`: a run of `m'` is a run of `m`, seen through the map `f` of the
  states. `RefinesOn I f m m'` says so of states with `I`, which the run keeps.
* `Cut R E m`: of two runs of `m` from states that `R` relates, either both end
  alike, or an error cuts the first one short. `E` relates the state of that error
  to whatever the second run comes to afterwards.
-/

namespace Effect

variable {ε σ τ α β : Type}

/-! ## Runs seen through a map -/

/-- The same outcome, in the state that `f` makes of the one that was left. -/
def seen (f : σ → τ) : EStateM.Result ε σ α → EStateM.Result ε τ α
  | .ok a s => .ok a (f s)
  | .error e s => .error e (f s)

@[simp] theorem seen_ok (f : σ → τ) (a : α) (s : σ) :
    seen f (.ok a s : EStateM.Result ε σ α) = .ok a (f s) := rfl

@[simp] theorem seen_error (f : σ → τ) (e : ε) (s : σ) :
    seen f (.error e s : EStateM.Result ε σ α) = .error e (f s) := rfl

@[simp] theorem final_seen (f : σ → τ) (r : EStateM.Result ε σ α) :
    final (seen f r) = f (final r) := by
  cases r <;> rfl

@[simp] theorem fault_seen (f : σ → τ) (r : EStateM.Result ε σ α) : fault (seen f r) = fault r := by
  cases r <;> rfl

def Refines (f : σ → τ) (m : EStateM ε σ α) (m' : EStateM ε τ α) : Prop :=
  ∀ s, m'.run (f s) = seen f (m.run s)

namespace Refines

variable {f : σ → τ} {m : EStateM ε σ α} {m' : EStateM ε τ α}

theorem pure (a : α) : Refines f (pure a : EStateM ε σ α) (pure a) := fun _ => rfl

theorem throw (e : ε) : Refines f (throw e : EStateM ε σ α) (throw e) := fun _ => rfl

theorem modify {g : σ → σ} {g' : τ → τ} (h : ∀ s, g' (f s) = f (g s)) :
    Refines f (modify g : EStateM ε σ PUnit) (modify g') :=
  fun s => congrArg (EStateM.Result.ok PUnit.unit) (h s)

theorem bind {next : α → EStateM ε σ β} {next' : α → EStateM ε τ β} (hm : Refines f m m')
    (hnext : ∀ a, Refines f (next a) (next' a)) : Refines f (m >>= next) (m' >>= next') := by
  intro s
  rw [EStateM.run_bind, EStateM.run_bind, hm s]
  cases m.run s with
  | ok a s' => exact hnext a s'
  | error e s' => rfl

theorem get_bind {next : σ → EStateM ε σ α} {next' : τ → EStateM ε τ α}
    (h : ∀ s, Refines f (next s) (next' (f s))) : Refines f (get >>= next) (get >>= next') :=
  fun s => h s s

theorem forM {l : List β} {body : β → EStateM ε σ PUnit} {body' : β → EStateM ε τ PUnit}
    (h : ∀ b, Refines f (body b) (body' b)) : Refines f (forM l body) (forM l body') := by
  induction l with
  | nil => exact Refines.pure _
  | cons b l ih =>
    rw [List.forM_cons, List.forM_cons]
    exact Refines.bind (h b) fun _ => ih

theorem foldlM {l : List β} {body : α → β → EStateM ε σ α} {body' : α → β → EStateM ε τ α}
    (h : ∀ a b, Refines f (body a b) (body' a b)) (a : α) :
    Refines f (l.foldlM body a) (l.foldlM body' a) := by
  induction l generalizing a with
  | nil => exact Refines.pure _
  | cons b l ih =>
    rw [List.foldlM_cons, List.foldlM_cons]
    exact Refines.bind (h a b) ih

end Refines

/-! ## Runs seen through a map, from states in order -/

def RefinesOn (I : σ → Prop) (f : σ → τ) (m : EStateM ε σ α) (m' : EStateM ε τ α) : Prop :=
  ∀ s, I s → m'.run (f s) = seen f (m.run s) ∧ I (final (m.run s))

namespace RefinesOn

variable {I : σ → Prop} {f : σ → τ} {m : EStateM ε σ α} {m' : EStateM ε τ α}

theorem pure (a : α) : RefinesOn I f (pure a : EStateM ε σ α) (pure a) := fun _ h => ⟨rfl, h⟩

theorem throw (e : ε) : RefinesOn I f (throw e : EStateM ε σ α) (throw e) := fun _ h => ⟨rfl, h⟩

theorem modify {g : σ → σ} {g' : τ → τ} (h : ∀ s, g' (f s) = f (g s)) (hI : ∀ s, I s → I (g s)) :
    RefinesOn I f (modify g : EStateM ε σ PUnit) (modify g') :=
  fun s hs => ⟨congrArg (EStateM.Result.ok PUnit.unit) (h s), hI s hs⟩

theorem bind {next : α → EStateM ε σ β} {next' : α → EStateM ε τ β} (hm : RefinesOn I f m m')
    (hnext : ∀ a, RefinesOn I f (next a) (next' a)) :
    RefinesOn I f (m >>= next) (m' >>= next') := by
  intro s hs
  obtain ⟨hrun, hI⟩ := hm s hs
  rw [EStateM.run_bind, EStateM.run_bind, hrun]
  cases hr : m.run s with
  | ok a s' =>
    rw [hr] at hI
    exact hnext a s' hI
  | error e s' =>
    rw [hr] at hI
    exact ⟨rfl, hI⟩

theorem get_bind {next : σ → EStateM ε σ α} {next' : τ → EStateM ε τ α}
    (h : ∀ s, RefinesOn I f (next s) (next' (f s))) :
    RefinesOn I f (get >>= next) (get >>= next') :=
  fun s hs => h s s hs

theorem forM {l : List β} {body : β → EStateM ε σ PUnit} {body' : β → EStateM ε τ PUnit}
    (h : ∀ b, RefinesOn I f (body b) (body' b)) : RefinesOn I f (forM l body) (forM l body') := by
  induction l with
  | nil => exact RefinesOn.pure _
  | cons b l ih =>
    rw [List.forM_cons, List.forM_cons]
    exact RefinesOn.bind (h b) fun _ => ih

end RefinesOn

/-! ## Runs that an error cuts short -/

structure Cut (R : σ → σ → Prop) (E : ε → σ → σ → Prop) (m : EStateM ε σ α) : Prop where
  runs : ∀ s t, R s t → Alike R (m.run s) (m.run t) ∨
    ∃ e s', m.run s = .error e s' ∧ E e s' (final (m.run t))
  /-- Whatever else the second run does does not matter. -/
  stays : ∀ e s t, E e s t → E e s (final (m.run t))

namespace Cut

variable {R : σ → σ → Prop} {E : ε → σ → σ → Prop} {m : EStateM ε σ α}

theorem pure (a : α) : Cut R E (pure a : EStateM ε σ α) where
  runs _ _ h := .inl ⟨rfl, h⟩
  stays _ _ _ h := h

theorem throw (e : ε) : Cut R E (throw e : EStateM ε σ α) where
  runs _ _ h := .inl ⟨rfl, h⟩
  stays _ _ _ h := h

theorem modify {f : σ → σ} (hR : ∀ s t, R s t → R (f s) (f t))
    (hE : ∀ e s t, E e s t → E e s (f t)) : Cut R E (modify f : EStateM ε σ PUnit) where
  runs s t h := .inl ⟨rfl, hR s t h⟩
  stays := hE

theorem bind {next : α → EStateM ε σ β} (hm : Cut R E m) (hnext : ∀ a, Cut R E (next a)) :
    Cut R E (m >>= next) where
  runs s t h := by
    rw [EStateM.run_bind, EStateM.run_bind]
    rcases hm.runs s t h with halike | ⟨e, s', hs, hE⟩
    · cases hs : m.run s with
      | ok a s' =>
        cases ht : m.run t with
        | ok b t' =>
          rw [hs, ht] at halike
          obtain ⟨rfl, hR⟩ := halike
          exact (hnext a).runs s' t' hR
        | error e t' =>
          rw [hs, ht] at halike
          exact halike.elim
      | error e s' =>
        cases ht : m.run t with
        | ok b t' =>
          rw [hs, ht] at halike
          exact halike.elim
        | error e' t' =>
          rw [hs, ht] at halike
          exact .inl halike
    · rw [hs]
      refine .inr ⟨e, s', rfl, ?_⟩
      cases ht : m.run t with
      | ok b t' =>
        rw [ht] at hE
        exact (hnext b).stays e s' t' hE
      | error e' t' =>
        rw [ht] at hE
        exact hE
  stays e s t h := by
    have hmt := hm.stays e s t h
    rw [EStateM.run_bind]
    cases ht : m.run t with
    | ok b t' =>
      rw [ht] at hmt
      exact (hnext b).stays e s t' hmt
    | error e' t' =>
      rw [ht] at hmt
      exact hmt

/-- What is read is the same in states that `R` relates. -/
theorem get_bind {next : σ → EStateM ε σ α} (hsame : ∀ s t, R s t → next s = next t)
    (hnext : ∀ s, Cut R E (next s)) : Cut R E (get >>= next) where
  runs s t h := by
    have hrun := (hnext t).runs s t h
    rw [← hsame s t h] at hrun
    simpa only [EStateM.run_bind, EStateM.run_get, hsame s t h] using hrun
  stays e s t h := (hnext t).stays e s t h

theorem forM {l : List β} {body : β → EStateM ε σ PUnit} (h : ∀ b, Cut R E (body b)) :
    Cut R E (forM l body) := by
  induction l with
  | nil => exact Cut.pure _
  | cons b l ih =>
    rw [List.forM_cons]
    exact Cut.bind (h b) fun _ => ih

end Cut

end Effect
