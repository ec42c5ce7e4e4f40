-- SUMMARY: Decimal numerals in ASCII: natural numbers and 64-bit integers, written and parsed.
import Mathlib.Data.Nat.Digits.Defs

/-!
# Decimal numerals

A numeral is written without leading zeros, with a sign only if it is negative.
Parsing accepts leading zeros and either sign, and nothing that is out of range.
-/

namespace Decimal

/-! ## Natural numbers -/

def digit (d : Nat) : UInt8 := UInt8.ofNat (48 + d)

def digitValue? (b : UInt8) : Option Nat :=
  if 48 ≤ b ∧ b ≤ 57 then some (b.toNat - 48) else none

def ofNat (n : Nat) : List UInt8 :=
  if n = 0 then [digit 0] else (Nat.digits 10 n).reverse.map digit

/-- The number that a list of digits stands for; there must be one at least. -/
def toNat? (bytes : List UInt8) : Option Nat :=
  if bytes = [] then none
  else (bytes.mapM digitValue?).map fun digits => Nat.ofDigits 10 digits.reverse

theorem digitValue?_digit {d : Nat} (h : d < 10) : digitValue? (digit d) = some d := by
  revert d
  decide

theorem mapM_digit {digits : List Nat} (h : ∀ d ∈ digits, d < 10) :
    (digits.map digit).mapM digitValue? = some digits := by
  induction digits with
  | nil => rfl
  | cons d digits ih =>
    rw [List.map_cons, List.mapM_cons, digitValue?_digit (h d List.mem_cons_self),
      ih fun d' hd' => h d' (List.mem_cons_of_mem d hd')]
    rfl

theorem ofNat_ne_nil (n : Nat) : ofNat n ≠ [] := by
  unfold ofNat
  split
  · exact List.cons_ne_nil _ _
  · next hn => simpa [Nat.digits_eq_nil_iff_eq_zero] using hn

theorem toNat?_ofNat (n : Nat) : toNat? (ofNat n) = some n := by
  rw [toNat?, if_neg (ofNat_ne_nil n), ofNat]
  split
  · next hn => rw [hn]; rfl
  · have hdigits : ∀ d ∈ (Nat.digits 10 n).reverse, d < 10 := fun d hd =>
      Nat.digits_lt_base (by decide) (List.mem_reverse.mp hd)
    rw [mapM_digit hdigits, Option.map_some, List.reverse_reverse, Nat.ofDigits_digits]

/-- A numeral of a natural number has no sign. -/
theorem digit_of_mem_ofNat {n : Nat} {b : UInt8} (h : b ∈ ofNat n) : 48 ≤ b ∧ b ≤ 57 := by
  have hdigit : ∀ d < 10, 48 ≤ digit d ∧ digit d ≤ 57 := by decide
  unfold ofNat at h
  split at h
  · obtain rfl := List.mem_singleton.mp h
    exact hdigit 0 (by decide)
  · obtain ⟨d, hd, rfl⟩ := List.mem_map.mp h
    exact hdigit d (Nat.digits_lt_base (by decide) (List.mem_reverse.mp hd))

/-! ## 64-bit integers -/

def minus : UInt8 := 45

def plus : UInt8 := 43

def ofInt64 (e : Int64) : List UInt8 :=
  if e < 0 then minus :: ofNat e.toInt.natAbs else ofNat e.toInt.natAbs

def nonneg? (bytes : List UInt8) : Option Int64 :=
  (toNat? bytes).bind fun n => if n < 2 ^ 63 then some (Int64.ofInt n) else none

def nonpos? (bytes : List UInt8) : Option Int64 :=
  (toNat? bytes).bind fun n => if n ≤ 2 ^ 63 then some (Int64.ofInt (-n)) else none

/-- An optional sign and digits, the value of which is in range. -/
def toInt64? : List UInt8 → Option Int64
  | [] => none
  | b :: bytes =>
    if b = minus then nonpos? bytes
    else if b = plus then nonneg? bytes
    else nonneg? (b :: bytes)

theorem toInt64?_of_digits {bytes : List UInt8} (h : ∀ b ∈ bytes, 48 ≤ b ∧ b ≤ 57) :
    toInt64? bytes = nonneg? bytes := by
  cases bytes with
  | nil => rfl
  | cons b bytes =>
    obtain ⟨hb, -⟩ := h b List.mem_cons_self
    have hminus : b ≠ minus := fun heq => absurd (heq ▸ hb) (by decide)
    have hplus : b ≠ plus := fun heq => absurd (heq ▸ hb) (by decide)
    rw [toInt64?, if_neg hminus, if_neg hplus]

theorem toInt64?_ofInt64 (e : Int64) : toInt64? (ofInt64 e) = some e := by
  have hlow := e.le_toInt
  have hhigh := e.toInt_lt
  unfold ofInt64
  split
  · next hneg =>
    have hneg : e.toInt < 0 := Int64.lt_iff_toInt_lt.mp hneg
    have hval : -(e.toInt.natAbs : Int) = e.toInt := by omega
    rw [toInt64?, if_pos rfl, nonpos?, toNat?_ofNat, Option.bind_some, if_pos (by omega), hval,
      Int64.ofInt_toInt]
  · next hneg =>
    have hpos : ¬ e.toInt < 0 := fun h => hneg (Int64.lt_iff_toInt_lt.mpr h)
    have hval : (e.toInt.natAbs : Int) = e.toInt := by omega
    rw [toInt64?_of_digits fun b hb => digit_of_mem_ofNat hb, nonneg?, toNat?_ofNat,
      Option.bind_some, if_pos (by omega), hval, Int64.ofInt_toInt]

example : toInt64? "+0042".toUTF8.toList = some 42 := by decide +kernel

end Decimal
