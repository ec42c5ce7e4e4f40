-- SUMMARY: Integers as double-precision numbers: the nearest double, and the integers that are safe in one.
import Mathlib.Algebra.Order.Ring.Nat
import Mathlib.Data.Nat.Log

/-!
# Integers in doubles

A double holds 53 binary digits. An integer of more digits is rounded to the nearest
one with 53, and to the even one of two that are equally near.
-/

namespace Double

/-- The double nearest to a natural number. -/
def ofNat (n : Nat) : Nat :=
  if n < 2 ^ 53 then n
  else
    let scale := 2 ^ (n.log2 - 52)
    let digits := n / scale
    let rest := n % scale
    if scale < 2 * rest ∨ (scale = 2 * rest ∧ digits % 2 = 1) then (digits + 1) * scale
    else digits * scale

/-- The double nearest to an integer. -/
def ofInt : Int → Int
  | .ofNat n => ofNat n
  | .negSucc n => -ofNat (n + 1)

/-- An integer that no other one is rounded to. -/
def IsSafe (x : Int) : Prop := x.natAbs < 2 ^ 53

instance (x : Int) : Decidable (IsSafe x) := inferInstanceAs (Decidable (x.natAbs < 2 ^ 53))

theorem ofNat_of_lt {n : Nat} (h : n < 2 ^ 53) : ofNat n = n := if_pos h

theorem le_ofNat {n : Nat} (h : 2 ^ 53 ≤ n) : 2 ^ 53 ≤ ofNat n := by
  have hlog : 53 ≤ n.log2 := (Nat.le_log2 (by omega)).mpr h
  have hdigits : 2 ^ 52 ≤ n / 2 ^ (n.log2 - 52) := by
    rw [Nat.le_div_iff_mul_le (Nat.two_pow_pos _), ← Nat.pow_add, Nat.add_sub_cancel' (by omega)]
    exact Nat.log2_self_le (by omega)
  have hscale : 2 ≤ 2 ^ (n.log2 - 52) := Nat.le_self_pow (by omega) 2
  have hlow : 2 ^ 53 ≤ n / 2 ^ (n.log2 - 52) * 2 ^ (n.log2 - 52) :=
    calc 2 ^ 53 = 2 ^ 52 * 2 := rfl
      _ ≤ _ := Nat.mul_le_mul hdigits hscale
  have hhigh : n / 2 ^ (n.log2 - 52) * 2 ^ (n.log2 - 52) ≤
      (n / 2 ^ (n.log2 - 52) + 1) * 2 ^ (n.log2 - 52) :=
    Nat.mul_le_mul_right _ (Nat.le_succ _)
  rw [ofNat, if_neg (Nat.not_lt.mpr h)]
  dsimp only
  split
  · exact hlow.trans hhigh
  · exact hlow

theorem natAbs_ofInt (x : Int) : (ofInt x).natAbs = ofNat x.natAbs := by
  cases x with
  | ofNat n => rfl
  | negSucc n => exact Int.natAbs_neg _

/-- A number that was rounded is not safe. -/
theorem isSafe_ofInt {x : Int} : IsSafe (ofInt x) ↔ IsSafe x := by
  unfold IsSafe
  rw [natAbs_ofInt]
  by_cases h : x.natAbs < 2 ^ 53
  · rw [ofNat_of_lt h]
  · exact iff_of_false (Nat.not_lt.mpr (le_ofNat (Nat.not_lt.mp h))) h

theorem ofInt_of_isSafe {x : Int} (h : IsSafe x) : ofInt x = x := by
  cases x with
  | ofNat n => exact congrArg Int.ofNat (ofNat_of_lt h)
  | negSucc n => exact congrArg (fun k : Nat => -(k : Int)) (ofNat_of_lt h)

end Double
