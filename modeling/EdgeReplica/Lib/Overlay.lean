-- SUMMARY: Partial maps laid over one another, and replicas that exchange them through one store.
import Mathlib.Logic.Function.Basic
import Mathlib.Data.Set.Basic

/-!
# Overlays

A partial map over another keeps its own values and has those of the other elsewhere.
Replicas push the maps of their files onto a common store, and commit the store over their
own. What file a commit leaves is a relation of its own: replicas come to hold what every
commit of the store leaves.
-/

namespace Overlay

variable {I K V F : Type}

/-- The values of `new`, and those of `old` where `new` has none. -/
def onto (new old : K → Option V) : K → Option V := fun k => (new k).or (old k)

open Classical in
/-- The values at the keys of `S`. -/
noncomputable def only (S : Set K) (m : K → Option V) : K → Option V :=
  fun k => if k ∈ S then m k else none

@[simp] theorem only_univ (m : K → Option V) : only Set.univ m = m := by
  funext k
  simp [only]

/-! ## Replicas of one store -/

structure Replicas (I K V F : Type) where
  store : K → Option V
  files : I → F

inductive Op (I K F : Type) where
  /-- The values of `i` at the keys of `S` are laid over the store. -/
  | push (i : I) (S : Set K)
  /-- The store over the map of `i` is committed, and leaves `file`. -/
  | pull (i : I) (file : F)
  /-- The file of `i` is replaced. -/
  | edit (i : I) (file : F)

def Op.IsPull : Op I K F → Prop
  | .pull _ _ => True
  | _ => False

variable [DecidableEq I] (table : F → K → Option V) (commits : F → (K → Option V) → F → Prop)

inductive Step : Op I K F → Replicas I K V F → Replicas I K V F → Prop
  | push {r : Replicas I K V F} {i : I} {S : Set K} :
      Step (.push i S) r { r with store := onto (only S (table (r.files i))) r.store }
  | pull {r : Replicas I K V F} {i : I} {file : F}
      (hcommit : commits (r.files i) (onto r.store (table (r.files i))) file) :
      Step (.pull i file) r { r with files := Function.update r.files i file }
  | edit {r : Replicas I K V F} {i : I} {file : F} :
      Step (.edit i file) r { r with files := Function.update r.files i file }

inductive Run : List (Op I K F) → Replicas I K V F → Replicas I K V F → Prop
  | nil {r : Replicas I K V F} : Run [] r r
  | cons {op : Op I K F} {ops : List (Op I K F)} {r r' r'' : Replicas I K V F}
      (hstep : Step table commits op r r') (hrun : Run ops r' r'') : Run (op :: ops) r r''

variable {table commits} {ops more : List (Op I K F)} {r r' r'' : Replicas I K V F}

theorem Run.single {op : Op I K F} (h : Step table commits op r r') :
    Run table commits [op] r r' := .cons h .nil

theorem Run.append (h : Run table commits ops r r') (h' : Run table commits more r' r'') :
    Run table commits (ops ++ more) r r'' := by
  induction h with
  | nil => exact h'
  | cons hstep _ ih => exact .cons hstep (ih h')

theorem Run.eq_of_push {i : I} {S : Set K} (h : Run table commits [.push i S] r r') :
    r' = { r with store := onto (only S (table (r.files i))) r.store } := by
  cases h with
  | cons hstep hnil =>
    cases hnil
    cases hstep
    rfl

/-- What every commit of the store over a file with `Good` leaves has `Held`, and is `Good`
itself. Then whoever has pulled has `Held`. -/
theorem Run.held {Good Held : F → Prop} (hgood : ∀ file, Held file → Good file)
    (hcommit : ∀ old new, Good old → commits old (onto r.store (table old)) new → Held new)
    (h : Run table commits ops r r') (hpulls : ∀ op ∈ ops, op.IsPull) {j : I}
    (hstart : Good (r.files j)) (hj : (∃ file, .pull j file ∈ ops) ∨ Held (r.files j)) :
    Held (r'.files j) := by
  induction h with
  | nil => exact hj.resolve_left (by simp)
  | @cons op ops r r₁ r' hstep hrun ih =>
    obtain ⟨hop, hrest⟩ := List.forall_mem_cons.mp hpulls
    cases hstep with
    | push => exact absurd hop not_false
    | edit => exact absurd hop not_false
    | @pull _ i file hone =>
      by_cases hi : i = j
      · subst hi
        have hnow : Held (Function.update r.files i file i) := by
          rw [Function.update_self]
          exact hcommit _ _ hstart hone
        exact ih hcommit hrest (hgood _ hnow) (.inr hnow)
      · have hsame : Function.update r.files i file j = r.files j :=
          Function.update_of_ne (Ne.symm hi) _ _
        refine ih hcommit hrest ?_ ?_
        · show Good (Function.update r.files i file j)
          rwa [hsame]
        · show _ ∨ Held (Function.update r.files i file j)
          rw [hsame]
          refine hj.imp_left ?_
          rintro ⟨file', hmem⟩
          rcases List.mem_cons.mp hmem with heq | hmem
          · exact absurd (Op.pull.inj heq).1.symm hi
          · exact ⟨file', hmem⟩

end Overlay
