-- SUMMARY: Macaroons with free signatures: how they are attenuated and verified, and what an attacker can derive.
import Mathlib.Data.List.Induction
import Mathlib.Data.Set.Defs

/-!
# Symbolic macaroons

A macaroon is an identifier under a chain of caveats. Its signature binds the
identifier to a key and then each caveat to the signature before it, so anyone
who holds a macaroon can append a caveat, and only the holder of the key can begin
a chain. Signatures are terms here: no two of them agree by chance, and none can
be made but from a key or from the signature before it.
-/

namespace Macaroons

variable {K P : Type}

inductive Caveat (P : Type) where
  | firstParty (predicate : P)
  | thirdParty (id verifierId : P)
deriving DecidableEq

inductive Signature (K P : Type) where
  | root (key : K) (identifier : P)
  | bind (signature : Signature K P) (caveat : Caveat P)
deriving DecidableEq

/-- The signature after more caveats. -/
def Signature.extend (signature : Signature K P) (caveats : List (Caveat P)) : Signature K P :=
  caveats.foldl .bind signature

structure Macaroon (K P : Type) where
  location : Option String
  identifier : P
  caveats : List (Caveat P)
  signature : Signature K P

namespace Macaroon

def create (location : Option String) (key : K) (identifier : P) : Macaroon K P where
  location
  identifier
  caveats := []
  signature := .root key identifier

def addCaveat (m : Macaroon K P) (caveat : Caveat P) : Macaroon K P :=
  { m with caveats := m.caveats ++ [caveat], signature := m.signature.bind caveat }

def addFirstPartyCaveat (m : Macaroon K P) (predicate : P) : Macaroon K P :=
  m.addCaveat (.firstParty predicate)

/-- The signature is the one that `key` gives the identifier and the caveats. -/
def SignedBy (m : Macaroon K P) (key : K) : Prop :=
  m.signature = (Signature.root key m.identifier).extend m.caveats

instance [DecidableEq K] [DecidableEq P] (m : Macaroon K P) (key : K) :
    Decidable (m.SignedBy key) := inferInstanceAs (Decidable (_ = _))

end Macaroon

/-! ## Verification -/

inductive Error (P : Type) where
  | caveatNotSatisfied (caveat : Caveat P)
  | invalidSignature

/-- Nothing discharges a third-party caveat here. -/
def Caveat.satisfiedBy (satisfier : P → Bool) : Caveat P → Bool
  | .firstParty predicate => satisfier predicate
  | .thirdParty .. => false

def Macaroon.verify [DecidableEq K] [DecidableEq P] (satisfier : P → Bool) (key : K)
    (m : Macaroon K P) : Except (Error P) Unit :=
  match m.caveats.find? fun caveat => !caveat.satisfiedBy satisfier with
  | some caveat => .error (.caveatNotSatisfied caveat)
  | none => if m.SignedBy key then .ok () else .error .invalidSignature

theorem Macaroon.verify_eq_ok [DecidableEq K] [DecidableEq P] {satisfier : P → Bool} {key : K}
    {m : Macaroon K P} :
    m.verify satisfier key = .ok () ↔
      (∀ caveat ∈ m.caveats, caveat.satisfiedBy satisfier = true) ∧ m.SignedBy key := by
  unfold verify
  cases hfind : m.caveats.find? fun caveat => !caveat.satisfiedBy satisfier with
  | some caveat =>
    have hmem := List.mem_of_find?_eq_some hfind
    have hfails := List.find?_some hfind
    simp only [reduceCtorEq, false_iff, not_and]
    intro hall
    simp [hall caveat hmem] at hfails
  | none =>
    have hall : ∀ caveat ∈ m.caveats, caveat.satisfiedBy satisfier = true := by
      simpa using List.find?_eq_none.mp hfind
    by_cases hsigned : m.SignedBy key
    · simpa only [hsigned, if_true, true_iff, and_true] using hall
    · simp [hsigned]

/-! ## Chains -/

theorem Signature.extend_append (signature : Signature K P) (l₁ l₂ : List (Caveat P)) :
    signature.extend (l₁ ++ l₂) = (signature.extend l₁).extend l₂ := List.foldl_append

theorem Signature.extend_concat (signature : Signature K P) (l : List (Caveat P))
    (caveat : Caveat P) : signature.extend (l ++ [caveat]) = (signature.extend l).bind caveat := by
  rw [extend_append]
  rfl

/-- A chain tells its key, its identifier and its caveats. -/
theorem Signature.root_extend_inj {key key' : K} {id id' : P} {l l' : List (Caveat P)}
    (h : (Signature.root key id).extend l = (Signature.root key' id').extend l') :
    key = key' ∧ id = id' ∧ l = l' := by
  induction l using List.reverseRecOn generalizing l' with
  | nil =>
    cases l' using List.reverseRecOn with
    | nil => exact ⟨(Signature.root.inj h).1, (Signature.root.inj h).2, rfl⟩
    | append_singleton l' c' => rw [extend_concat] at h; exact absurd h (by simp [extend])
  | append_singleton l c ih =>
    cases l' using List.reverseRecOn with
    | nil => rw [extend_concat] at h; exact absurd h (by simp [extend])
    | append_singleton l' c' =>
      rw [extend_concat, extend_concat] at h
      obtain ⟨hrest, rfl⟩ := Signature.bind.inj h
      obtain ⟨hkey, hid, rfl⟩ := ih hrest
      exact ⟨hkey, hid, rfl⟩

/-- An appended caveat keeps the signature right, and cannot put a wrong one right. -/
theorem Macaroon.signedBy_addCaveat {m : Macaroon K P} {caveat : Caveat P} {key : K} :
    (m.addCaveat caveat).SignedBy key ↔ m.SignedBy key := by
  unfold SignedBy addCaveat
  rw [Signature.extend_concat]
  exact ⟨fun h => (Signature.bind.inj h).1, fun h => congrArg (Signature.bind · caveat) h⟩

theorem Macaroon.verify_addCaveat [DecidableEq K] [DecidableEq P] {satisfier : P → Bool} {key : K}
    {m : Macaroon K P} {caveat : Caveat P} :
    (m.addCaveat caveat).verify satisfier key = .ok () ↔
      m.verify satisfier key = .ok () ∧ caveat.satisfiedBy satisfier = true := by
  rw [verify_eq_ok, verify_eq_ok, signedBy_addCaveat]
  simp only [addCaveat, List.mem_append, List.mem_singleton, or_imp, forall_and, forall_eq]
  tauto

/-! ## What an attacker can derive -/

/-- What someone who holds the macaroons in `held` and the keys in `own` can make:
new macaroons under those keys, macaroons with one more caveat, and macaroons that
say anything under a signature seen before. -/
inductive Derivable (held : Set (Macaroon K P)) (own : Set K) : Macaroon K P → Prop
  | held {m : Macaroon K P} (h : m ∈ held) : Derivable held own m
  | create {key : K} (h : key ∈ own) (location : Option String) (identifier : P) :
      Derivable held own (.create location key identifier)
  | addCaveat {m : Macaroon K P} (h : Derivable held own m) (caveat : Caveat P) :
      Derivable held own (m.addCaveat caveat)
  | relabel {m : Macaroon K P} (h : Derivable held own m) (location : Option String)
      (identifier : P) (caveats : List (Caveat P)) :
      Derivable held own { m with location, identifier, caveats }

theorem Derivable.mono {held held' : Set (Macaroon K P)} {own : Set K} {m : Macaroon K P}
    (h : Derivable held own m) (hsub : held ⊆ held') : Derivable held' own m := by
  induction h with
  | held hm => exact .held (hsub hm)
  | create hkey location identifier => exact .create hkey location identifier
  | addCaveat _ caveat ih => exact ih.addCaveat caveat
  | relabel _ location identifier caveats ih => exact ih.relabel location identifier caveats

/-- Every signature he can make continues one of a key of his own, or of a
macaroon he holds. -/
theorem Derivable.signature_eq {held : Set (Macaroon K P)} {own : Set K} {m : Macaroon K P}
    (h : Derivable held own m) :
    (∃ key ∈ own, ∃ id more, m.signature = (Signature.root key id).extend more) ∨
      ∃ m₀ ∈ held, ∃ more, m.signature = m₀.signature.extend more := by
  induction h with
  | @held m hm => exact .inr ⟨m, hm, [], rfl⟩
  | @create key hkey location id => exact .inl ⟨key, hkey, id, [], rfl⟩
  | @addCaveat m _ caveat ih =>
    rcases ih with ⟨key, hkey, id, more, hsig⟩ | ⟨m₀, hm₀, more, hsig⟩
    · refine .inl ⟨key, hkey, id, more ++ [caveat], ?_⟩
      rw [Signature.extend_concat, ← hsig]
      rfl
    · refine .inr ⟨m₀, hm₀, more ++ [caveat], ?_⟩
      rw [Signature.extend_concat, ← hsig]
      rfl
  | relabel _ _ _ _ ih => exact ih

/-- A derived macaroon that `key` has signed, when `key` is not his, is one he
holds with caveats appended. -/
theorem Derivable.of_signedBy {held : Set (Macaroon K P)} {own : Set K} {key : K}
    (hkey : key ∉ own) (hheld : ∀ m ∈ held, m.SignedBy key) {m : Macaroon K P}
    (h : Derivable held own m) (hsigned : m.SignedBy key) :
    ∃ m₀ ∈ held, m₀.identifier = m.identifier ∧ m₀.caveats <+: m.caveats := by
  rcases h.signature_eq with ⟨key', hkey', id, more, hsig⟩ | ⟨m₀, hm₀, more, hsig⟩
  · obtain ⟨rfl, -, -⟩ := Signature.root_extend_inj (hsigned.symm.trans hsig)
    exact absurd hkey' hkey
  · rw [hheld m₀ hm₀, ← Signature.extend_append] at hsig
    obtain ⟨-, hid, hcaveats⟩ := Signature.root_extend_inj (hsigned.symm.trans hsig)
    exact ⟨m₀, hm₀, hid.symm, more, hcaveats.symm⟩

end Macaroons
