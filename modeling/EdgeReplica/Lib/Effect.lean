-- SUMMARY: Rules for computations over a state that may end in an error: what a run establishes, and the steps it is made of.
import Mathlib.Logic.Relation

/-!
# Computations with a state and an error

`EStateM ε σ α` is a computation over a state `σ` that returns a value or stops
with an error; the state reached so far survives the error. The rules here say
what holds of the state a run ends in, whether it returned or stopped.

* `Spec P m Q E`: from a state with `P`, a run of `m` that returns ends in `Q`
  and one that stops ends in `E`.
* `Succeeds m`: no run of `m` stops.
* `Steps R s m`: the run of `m` from `s` is a chain of `R`-steps, also when it
  stops. A property that every `R`-step keeps is then kept by every such run.
* `Twin R m`: runs of `m` from two states that `R` relates end alike, in states
  that `R` relates.
-/

namespace Effect

open Relation (ReflTransGen)

variable {ε σ τ α β : Type}

/-- The state a run ends in. -/
def final : EStateM.Result ε σ α → σ
  | .ok _ s => s
  | .error _ s => s

/-- The error a run stopped with, if it stopped. -/
def fault : EStateM.Result ε σ α → Option ε
  | .ok _ _ => none
  | .error e _ => some e

@[simp] theorem final_ok (a : α) (s : σ) : final (.ok a s : EStateM.Result ε σ α) = s := rfl
@[simp] theorem final_error (e : ε) (s : σ) : final (.error e s : EStateM.Result ε σ α) = s := rfl
@[simp] theorem fault_ok (a : α) (s : σ) : fault (.ok a s : EStateM.Result ε σ α) = none := rfl
@[simp] theorem fault_error (e : ε) (s : σ) :
    fault (.error e s : EStateM.Result ε σ α) = some e := rfl

@[simp] theorem run_throw (e : ε) (s : σ) :
    EStateM.run (throw e : EStateM ε σ α) s = .error e s := rfl

theorem run_map (f : α → β) (m : EStateM ε σ α) (s : σ) :
    (f <$> m).run s = match m.run s with
      | .ok a s' => .ok (f a) s'
      | .error e s' => .error e s' := by
  show EStateM.map f m s = _
  unfold EStateM.map EStateM.run
  cases m s <;> rfl

theorem final_map (f : α → β) (m : EStateM ε σ α) (s : σ) :
    final ((f <$> m).run s) = final (m.run s) := by
  rw [run_map]
  cases m.run s <;> rfl

theorem run_adaptExcept {ε' : Type} (f : ε → ε') (m : EStateM ε σ α) (s : σ) :
    (EStateM.adaptExcept f m).run s = match m.run s with
      | .ok a s' => .ok a s'
      | .error e s' => .error (f e) s' := by
  unfold EStateM.adaptExcept EStateM.run
  dsimp only
  cases m s <;> rfl

/-- A loop over a state it does not change, which appends to its result in each
turn. -/
theorem run_foldlM_append {γ : Type} {f : List γ → β → EStateM ε σ (List γ)} {s : σ}
    (g : β → List γ) (hf : ∀ acc b, (f acc b).run s = .ok (acc ++ g b) s) (l : List β)
    (acc : List γ) : (l.foldlM f acc).run s = .ok (acc ++ l.flatMap g) s := by
  induction l generalizing acc with
  | nil =>
    rw [List.flatMap_nil, List.append_nil]
    rfl
  | cons b l ih =>
    rw [List.foldlM_cons, EStateM.run_bind, hf]
    show (l.foldlM f (acc ++ g b)).run s = _
    rw [ih, List.flatMap_cons, List.append_assoc]

/-! ## Running on a part of the state -/

/-- Run a computation over the first component of a pair. -/
def onFst (m : EStateM ε σ α) : EStateM ε (σ × τ) α := fun s =>
  match m.run s.1 with
  | .ok a s' => .ok a (s', s.2)
  | .error e s' => .error e (s', s.2)

/-- Run a computation over the second component of a pair. -/
def onSnd (m : EStateM ε τ α) : EStateM ε (σ × τ) α := fun s =>
  match m.run s.2 with
  | .ok a t => .ok a (s.1, t)
  | .error e t => .error e (s.1, t)

@[simp] theorem run_onFst (m : EStateM ε σ α) (s : σ × τ) :
    (onFst m).run s = match m.run s.1 with
      | .ok a s' => .ok a (s', s.2)
      | .error e s' => .error e (s', s.2) := rfl

@[simp] theorem run_onSnd (m : EStateM ε τ α) (s : σ × τ) :
    (onSnd m : EStateM ε (σ × τ) α).run s = match m.run s.2 with
      | .ok a t => .ok a (s.1, t)
      | .error e t => .error e (s.1, t) := rfl

/-! ## Errors without a state -/

/-- A sequence returns if its first part does, and what follows then does. -/
theorem bind_eq_ok {x : Except ε α} {f : α → Except ε β} {b : β} :
    x >>= f = .ok b ↔ ∃ a, x = .ok a ∧ f a = .ok b := by
  cases x with
  | ok a =>
    constructor
    · exact fun h => ⟨a, rfl, h⟩
    · rintro ⟨a', ha, h⟩
      cases ha
      exact h
  | error e =>
    constructor
    · intro h
      cases h
    · rintro ⟨a, ha, -⟩
      cases ha

/-- What a list is mapped to comes from its elements. -/
theorem exists_of_mem_mapM {f : α → Except ε β} {l : List α} {out : List β}
    (h : l.mapM f = .ok out) {b : β} (hb : b ∈ out) : ∃ a ∈ l, f a = .ok b := by
  induction l generalizing out with
  | nil =>
    obtain rfl := Except.ok.inj h
    cases hb
  | cons a l ih =>
    rw [List.mapM_cons] at h
    obtain ⟨first, hfirst, h⟩ := bind_eq_ok.mp h
    obtain ⟨rest, hrest, h⟩ := bind_eq_ok.mp h
    obtain rfl := Except.ok.inj h
    rcases List.mem_cons.mp hb with rfl | hb
    · exact ⟨a, List.mem_cons_self, hfirst⟩
    · obtain ⟨a', ha', hok⟩ := ih hrest hb
      exact ⟨a', List.mem_cons_of_mem _ ha', hok⟩

theorem mapError_eq_ok {ε' : Type} {x : Except ε α} {f : ε → ε'} {a : α} :
    x.mapError f = .ok a ↔ x = .ok a := by
  cases x with
  | ok b =>
    constructor
    · intro h
      cases h
      rfl
    · intro h
      cases h
      rfl
  | error e => exact ⟨nofun, nofun⟩

/-- The value that is there, or the error. -/
def okOr (o : Option α) (e : ε) : Except ε α :=
  match o with
  | some a => .ok a
  | none => .error e

theorem okOr_eq_ok {o : Option α} {e : ε} {a : α} : okOr o e = .ok a ↔ o = some a := by
  cases o <;> simp [okOr]

/-- A check in front of a computation: it stops with the error of the check, in
the state it started in. -/
theorem run_ofExcept_bind (x : Except ε α) (f : α → EStateM ε σ β) (s : σ) :
    (ofExcept x >>= f : EStateM ε σ β).run s = match x with
      | .ok a => (f a).run s
      | .error e => .error e s := by
  cases x <;> rfl

/-- A check passes with its value, in the state it started in. -/
theorem run_ofExcept_eq_ok {x : Except ε α} {a : α} {s s' : σ} :
    (ofExcept x : EStateM ε σ α).run s = .ok a s' ↔ x = .ok a ∧ s = s' := by
  cases x with
  | ok b =>
    show EStateM.Result.ok b s = .ok a s' ↔ _
    rw [EStateM.Result.ok.injEq, Except.ok.injEq]
  | error e => exact ⟨nofun, nofun⟩

/-! ## What a run establishes -/

/-- `Q` holds of a returned value and its state, `E` of an error and its state. -/
def Outcome (Q : α → σ → Prop) (E : ε → σ → Prop) : EStateM.Result ε σ α → Prop
  | .ok a s => Q a s
  | .error e s => E e s

theorem Outcome.imp {Q Q' : α → σ → Prop} {E E' : ε → σ → Prop} {r : EStateM.Result ε σ α}
    (h : Outcome Q E r) (hQ : ∀ a s, Q a s → Q' a s) (hE : ∀ e s, E e s → E' e s) :
    Outcome Q' E' r := by
  cases r with
  | ok a s => exact hQ a s h
  | error e s => exact hE e s h

def Spec (P : σ → Prop) (m : EStateM ε σ α) (Q : α → σ → Prop) (E : ε → σ → Prop) : Prop :=
  ∀ s, P s → Outcome Q E (m.run s)

namespace Spec

variable {P : σ → Prop} {Q : α → σ → Prop} {E : ε → σ → Prop} {m : EStateM ε σ α}

theorem pure {a : α} (h : ∀ s, P s → Q a s) : Spec P (pure a : EStateM ε σ α) Q E := h

theorem throw {e : ε} (h : ∀ s, P s → E e s) : Spec P (throw e : EStateM ε σ α) Q E := h

theorem bind {f : α → EStateM ε σ β} {R : β → σ → Prop} (hm : Spec P m Q E)
    (hf : ∀ a, Spec (Q a) (f a) R E) : Spec P (m >>= f) R E := by
  intro s hs
  have hms := hm s hs
  rw [EStateM.run_bind]
  cases hr : m.run s with
  | ok a s' => rw [hr] at hms; exact hf a s' hms
  | error e s' => rw [hr] at hms; exact hms

/-- The state that is read is the state the continuation starts in. -/
theorem get_bind {f : σ → EStateM ε σ α} (h : ∀ s, P s → Outcome Q E ((f s).run s)) :
    Spec P (get >>= f) Q E := h

/-- A loop keeps on success what its body keeps on success. -/
theorem forM {I : σ → Prop} {l : List β} {f : β → EStateM ε σ PUnit}
    (h : ∀ b, Spec I (f b) (fun _ => I) E) : Spec I (forM l f) (fun _ => I) E := by
  induction l with
  | nil => exact Spec.pure fun _ => id
  | cons b l ih => rw [List.forM_cons]; exact Spec.bind (h b) fun _ => ih

end Spec

/-- No run of the computation stops with an error. -/
def Succeeds (m : EStateM ε σ α) : Prop := ∀ s, fault (m.run s) = none

namespace Succeeds

variable {m : EStateM ε σ α}

theorem pure (a : α) : Succeeds (pure a : EStateM ε σ α) := fun _ => rfl

theorem bind {f : α → EStateM ε σ β} (hm : Succeeds m) (hf : ∀ a, Succeeds (f a)) :
    Succeeds (m >>= f) := by
  intro s
  have hms := hm s
  rw [EStateM.run_bind]
  cases hr : m.run s with
  | ok a s' => exact hf a s'
  | error e s' => rw [hr] at hms; cases hms

end Succeeds

/-! ## The steps a run is made of -/

/-- What every step keeps is kept by a chain of steps. -/
theorem chain_keeps {R : σ → σ → Prop} {I : σ → Prop} {s s' : σ} (h : ReflTransGen R s s')
    (hI : ∀ s s', R s s' → I s → I s') (hs : I s) : I s' := by
  induction h with
  | refl => exact hs
  | tail _ hstep ih => exact hI _ _ hstep ih

/-- The run of `m` from `s` is a chain of `R`-steps. -/
def Steps (R : σ → σ → Prop) (s : σ) (m : EStateM ε σ α) : Prop :=
  ReflTransGen R s (final (m.run s))

namespace Steps

variable {R : σ → σ → Prop} {s : σ} {m : EStateM ε σ α}

theorem pure (a : α) : Steps R s (pure a : EStateM ε σ α) := .refl

theorem throw (e : ε) : Steps R s (throw e : EStateM ε σ α) := .refl

theorem modify {f : σ → σ} (h : R s (f s)) : Steps R s (modify f : EStateM ε σ PUnit) := .single h

theorem bind {f : α → EStateM ε σ β} (hm : Steps R s m)
    (hf : ∀ a s', m.run s = .ok a s' → Steps R s' (f a)) : Steps R s (m >>= f) := by
  unfold Steps at hm ⊢
  rw [EStateM.run_bind]
  cases hr : m.run s with
  | ok a s' => rw [hr] at hm; exact hm.trans (hf a s' hr)
  | error e s' => rw [hr] at hm; exact hm

theorem get_bind {f : σ → EStateM ε σ α} (h : Steps R s (f s)) : Steps R s (get >>= f) := h

theorem map (h : Steps R s m) (f : α → β) : Steps R s (f <$> m) := by
  unfold Steps
  rwa [final_map]

/-- What every step keeps is kept by the run. -/
theorem keeps {I : σ → Prop} (h : Steps R s m) (hI : ∀ s s', R s s' → I s → I s') (hs : I s) :
    I (final (m.run s)) :=
  chain_keeps h hI hs

/-- A loop is made of the steps of its body, where the body may rely on what
every step keeps. -/
theorem forM {I : σ → Prop} {l : List β} {f : β → EStateM ε σ PUnit} (hs : I s)
    (h : ∀ b ∈ l, ∀ s, I s → Steps R s (f b)) (hI : ∀ s s', R s s' → I s → I s') :
    Steps R s (forM l f) := by
  induction l generalizing s with
  | nil => exact Steps.pure _
  | cons b l ih =>
    rw [List.forM_cons]
    have hb := h b List.mem_cons_self s hs
    refine Steps.bind hb fun _ s' hr => ih ?_ fun c hc => h c (List.mem_cons_of_mem _ hc)
    simpa [hr] using hb.keeps hI hs

end Steps

/-! ## Runs from two states -/

/-- Both returned the same value, or stopped with the same error, in states that
`R` relates. -/
def Alike (R : σ → σ → Prop) : EStateM.Result ε σ α → EStateM.Result ε σ α → Prop
  | .ok a s, .ok b t => a = b ∧ R s t
  | .error e s, .error f t => e = f ∧ R s t
  | _, _ => False

theorem Alike.final {R : σ → σ → Prop} {r r' : EStateM.Result ε σ α} (h : Alike R r r') :
    R (final r) (final r') := by
  cases r <;> cases r' <;> first | exact h.2 | exact h.elim

theorem Alike.fault {R : σ → σ → Prop} {r r' : EStateM.Result ε σ α} (h : Alike R r r') :
    fault r' = fault r := by
  cases r <;> cases r' <;> first | rfl | exact h.elim | exact congrArg some h.1.symm

theorem Alike.imp {R R' : σ → σ → Prop} {r r' : EStateM.Result ε σ α} (h : Alike R r r')
    (hR : ∀ s t, R s t → R' s t) : Alike R' r r' := by
  cases r <;> cases r' <;> first | exact ⟨h.1, hR _ _ h.2⟩ | exact h.elim

def Twin (R : σ → σ → Prop) (m : EStateM ε σ α) : Prop :=
  ∀ s t, R s t → Alike R (m.run s) (m.run t)

namespace Twin

variable {R : σ → σ → Prop} {m : EStateM ε σ α}

theorem pure (a : α) : Twin R (pure a : EStateM ε σ α) := fun _ _ h => ⟨rfl, h⟩

theorem modify {f : σ → σ} (h : ∀ s t, R s t → R (f s) (f t)) :
    Twin R (modify f : EStateM ε σ PUnit) := fun s t hst => ⟨rfl, h s t hst⟩

/-- What follows two runs that end alike does so in the same way. -/
theorem after {f : α → EStateM ε σ β} {s t : σ} (hms : Alike R (m.run s) (m.run t))
    (hf : ∀ a, Twin R (f a)) : Alike R ((m >>= f).run s) ((m >>= f).run t) := by
  rw [EStateM.run_bind, EStateM.run_bind]
  cases hs : m.run s with
  | ok a s' =>
    cases ht : m.run t with
    | ok b t' =>
      rw [hs, ht] at hms
      obtain ⟨rfl, hst'⟩ := hms
      exact hf a s' t' hst'
    | error f t' => rw [hs, ht] at hms; exact hms.elim
  | error e s' =>
    cases ht : m.run t with
    | ok b t' => rw [hs, ht] at hms; exact hms.elim
    | error f t' => rw [hs, ht] at hms; exact hms

theorem bind {f : α → EStateM ε σ β} (hm : Twin R m) (hf : ∀ a, Twin R (f a)) :
    Twin R (m >>= f) := fun s t hst => Twin.after (hm s t hst) hf

theorem forM {l : List β} {f : β → EStateM ε σ PUnit} (h : ∀ b ∈ l, Twin R (f b)) :
    Twin R (forM l f) := by
  induction l with
  | nil => exact Twin.pure _
  | cons b l ih =>
    rw [List.forM_cons]
    exact Twin.bind (h b List.mem_cons_self) fun _ => ih fun c hc => h c (List.mem_cons_of_mem _ hc)

end Twin

end Effect
