-- SUMMARY: Tickets that are issued, and redeemed at most once each.
import Mathlib.Data.Set.Function

/-!
# Tickets

Whoever redeems a ticket redeems one that was issued to somebody, and no ticket is
redeemed twice, also when several of them look the same.
-/

namespace Ticket

variable {I J T : Type}

/-- Everything that was redeemed comes from an issue of its own, and so does what is
still valid. -/
structure Fair (issued : I → Option T) (redeemed : J → Option T) (valid : T → Prop)
    (origin : J → I) : Prop where
  genuine : ∀ j t, redeemed j = some t → issued (origin j) = some t
  once : Set.InjOn origin {j | (redeemed j).isSome}
  unspent : ∀ t, valid t → ∃ i, issued i = some t ∧ ∀ j, (redeemed j).isSome → origin j ≠ i

variable {issued : I → Option T} {redeemed : J → Option T} {valid valid' : T → Prop}
  {origin : J → I}

theorem Fair.none (hissued : ∀ t, ¬ valid t) (origin : J → I) :
    Fair issued (fun _ => none) valid origin where
  genuine _ _ h := by cases h
  once _ h := by cases h
  unspent t h := absurd h (hissued t)

/-- Tickets may become void. -/
theorem Fair.void (h : Fair issued redeemed valid origin) (hvalid : ∀ t, valid' t → valid t) :
    Fair issued redeemed valid' origin where
  genuine := h.genuine
  once := h.once
  unspent t ht := h.unspent t (hvalid t ht)

theorem Fair.issue [DecidableEq I] (h : Fair issued redeemed valid origin) {i : I} {t : T}
    (hnew : issued i = Option.none) (hvalid : ∀ t', valid' t' → valid t' ∨ t' = t) :
    Fair (Function.update issued i (some t)) redeemed valid' origin := by
  have hother : ∀ j, (redeemed j).isSome → origin j ≠ i := by
    rintro j hj rfl
    obtain ⟨t', hj⟩ := Option.isSome_iff_exists.mp hj
    rw [h.genuine j t' hj] at hnew
    cases hnew
  refine ⟨?_, h.once, ?_⟩
  · intro j t' hj
    rw [Function.update_of_ne (hother j (hj ▸ rfl))]
    exact h.genuine j t' hj
  · intro t' ht'
    rcases hvalid t' ht' with ht' | rfl
    · obtain ⟨i', hi', hunspent⟩ := h.unspent t' ht'
      have hne : i' ≠ i := by
        rintro rfl
        rw [hi'] at hnew
        cases hnew
      exact ⟨i', by rw [Function.update_of_ne hne, hi'], hunspent⟩
    · exact ⟨i, Function.update_self _ _ _, hother⟩

/-- A valid ticket is redeemed, and is not valid any more. -/
theorem Fair.redeem [DecidableEq J] (h : Fair issued redeemed valid origin) {j : J} {t : T}
    (hnew : redeemed j = Option.none) (ht : valid t)
    (hvalid : ∀ t', valid' t' → valid t' ∧ t' ≠ t) :
    ∃ origin, Fair issued (Function.update redeemed j (some t)) valid' origin := by
  obtain ⟨i, hi, hunspent⟩ := h.unspent t ht
  have hbefore : ∀ k, k ≠ j → (Function.update redeemed j (some t) k).isSome →
      (redeemed k).isSome := by
    intro k hne hk
    rwa [Function.update_of_ne hne] at hk
  refine ⟨Function.update origin j i, ?_, ?_, ?_⟩
  · intro k t' hk
    by_cases hkj : k = j
    · subst hkj
      rw [Function.update_self] at hk ⊢
      rwa [← hk]
    · rw [Function.update_of_ne hkj] at hk ⊢
      exact h.genuine k t' hk
  · intro k hk k' hk' heq
    by_cases hkj : k = j <;> by_cases hkj' : k' = j
    · rw [hkj, hkj']
    · rw [hkj, Function.update_self, Function.update_of_ne hkj'] at heq
      exact absurd heq.symm (hunspent k' (hbefore k' hkj' hk'))
    · rw [hkj', Function.update_self, Function.update_of_ne hkj] at heq
      exact absurd heq (hunspent k (hbefore k hkj hk))
    · rw [Function.update_of_ne hkj, Function.update_of_ne hkj'] at heq
      exact h.once (hbefore k hkj hk) (hbefore k' hkj' hk') heq
  · intro t' ht'
    obtain ⟨ht', hne⟩ := hvalid t' ht'
    obtain ⟨i', hi', hunspent'⟩ := h.unspent t' ht'
    refine ⟨i', hi', ?_⟩
    intro k hk
    by_cases hkj : k = j
    · rw [hkj, Function.update_self]
      rintro rfl
      exact hne (Option.some.inj (hi'.symm.trans hi))
    · rw [Function.update_of_ne hkj]
      exact hunspent' k (hbefore k hkj hk)

end Ticket
