-- SUMMARY: Requests that share a store: each takes its turns between those of the others.
import Mathlib.Logic.Function.Basic
import EdgeReplica.Lib.Machine

/-!
# Pools of requests

A request takes turns; in one turn it uses the shared store once. Between two turns of a
request any other requests may arrive and take turns, and whatever else has access
to the store may use it.
-/

namespace Pool

/-- How requests are served: `C` is what arrives, `P` a request that is under way, `E`
what it draws from its surroundings in a turn, `X` what others do to the store. -/
structure System (S C P E X : Type) where
  start : C → P
  /-- A request that is done takes no turn. -/
  turn : E → P → S → Option (P × S)
  others : X → S → Option S

/-- The store, and the requests by number. -/
structure State (S P : Type) where
  store : S
  requests : Nat → Option P

inductive Label (C E X : Type) where
  | arrive (i : Nat) (call : C)
  | turn (i : Nat) (env : E)
  | others (x : X)

variable {S C P E X : Type}

def empty (store : S) : State S P := ⟨store, fun _ => none⟩

def State.put (s : State S P) (i : Nat) (p : P) (store : S) : State S P :=
  ⟨store, Function.update s.requests i (some p)⟩

def step (sys : System S C P E X) : Label C E X → State S P → Option (State S P)
  | .arrive i call, s =>
    if (s.requests i).isNone then some (s.put i (sys.start call) s.store) else none
  | .turn i env, s => do
    let p ← s.requests i
    let (p', store) ← sys.turn env p s.store
    return s.put i p' store
  | .others x, s => (sys.others x s.store).map fun store => { s with store }

/-- What a step can do. -/
inductive Moves (sys : System S C P E X) (s : State S P) : State S P → Prop
  | arrive (i : Nat) (call : C) (hfree : s.requests i = none) :
      Moves sys s (s.put i (sys.start call) s.store)
  | turn (i : Nat) (env : E) (p p' : P) (store : S) (hp : s.requests i = some p)
      (hturn : sys.turn env p s.store = some (p', store)) : Moves sys s (s.put i p' store)
  | others (x : X) (store : S) (hothers : sys.others x s.store = some store) :
      Moves sys s ⟨store, s.requests⟩

variable {sys : System S C P E X} {s s' : State S P}

theorem moves {label : Label C E X} (h : step sys label s = some s') : Moves sys s s' := by
  cases label with
  | arrive i call =>
    rw [step] at h
    split at h
    · next hfree =>
      obtain rfl := Option.some.inj h
      exact .arrive i call (Option.isNone_iff_eq_none.mp hfree)
    · cases h
  | turn i env =>
    obtain ⟨p, hp, h⟩ := Option.bind_eq_some_iff.mp h
    obtain ⟨⟨p', store⟩, hturn, h⟩ := Option.bind_eq_some_iff.mp h
    obtain rfl := Option.some.inj h
    exact .turn i env p p' store hp hturn
  | others x =>
    obtain ⟨store, hothers, rfl⟩ := Option.map_eq_some_iff.mp h
    exact .others x store hothers

@[simp] theorem put_store (i : Nat) (p : P) (store : S) : (s.put i p store).store = store := rfl

theorem put_requests (i j : Nat) (p : P) (store : S) :
    (s.put i p store).requests j = if j = i then some p else s.requests j :=
  Function.update_apply _ _ _ _

/-- What a request has recorded. -/
def State.record {A : Type} (s : State S P) (f : P → Option A) (i : Nat) : Option A :=
  (s.requests i).bind f

section

variable {A : Type} {f : P → Option A} {i : Nat} {p : P}

theorem record_of (hp : s.requests i = some p) : s.record f i = f p := by
  rw [State.record, hp, Option.bind_some]

theorem record_put (store : S) :
    (s.put i p store).record f = Function.update (s.record f) i (f p) := by
  funext j
  rw [State.record, put_requests, Function.update_apply]
  split <;> rfl

/-- A request that records nothing new. -/
theorem record_put_same (h : s.record f i = f p) (store : S) :
    (s.put i p store).record f = s.record f := by
  rw [record_put, ← h, Function.update_eq_self]

end

/-- What every step keeps is kept by a run. -/
theorem run_keeps {I : State S P → Prop} {labels : List (Label C E X)}
    (h : Machine.run (step sys) labels s = some s') (hs : I s)
    (hmoves : ∀ s s', I s → Moves sys s s' → I s') : I s' :=
  Machine.run_keeps h hs fun _ _ s s' hstep hs => hmoves s s' hs (moves hstep)

/-- A request that takes no more turns. -/
def Settled (sys : System S C P E X) (p : P) : Prop := ∀ env store, sys.turn env p store = none

/-- Nothing happens to a request that takes no more turns. -/
theorem Moves.settled (h : Moves sys s s') {i : Nat} {p : P} (hp : s.requests i = some p)
    (hsettled : Settled sys p) : s'.requests i = some p := by
  cases h with
  | arrive j call hfree =>
    rw [put_requests, if_neg, hp]
    rintro rfl
    rw [hfree] at hp
    cases hp
  | turn j env q q' store hq hturn =>
    rw [put_requests, if_neg, hp]
    rintro rfl
    obtain rfl := Option.some.inj (hp.symm.trans hq)
    rw [hsettled env s.store] at hturn
    cases hturn
  | others x store hothers => exact hp

theorem run_settled {labels : List (Label C E X)}
    (h : Machine.run (step sys) labels s = some s') {i : Nat} {p : P}
    (hp : s.requests i = some p) (hsettled : Settled sys p) : s'.requests i = some p :=
  run_keeps (I := fun s => s.requests i = some p) h hp fun _ _ hp hmoves =>
    hmoves.settled hp hsettled

end Pool
