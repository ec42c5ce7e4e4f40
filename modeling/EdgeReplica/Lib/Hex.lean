-- SUMMARY: Hexadecimal digits in ASCII, and bytes parsed from a text of them.
import EdgeReplica.Lib.Protobuf

/-!
# Hexadecimal

The value of a digit, and `u8::from_str_radix` at radix 16: an optional plus sign, then
digits, whose value is in range.
-/

namespace Hex

def value? (b : UInt8) : Option UInt8 :=
  if 48 ≤ b && b ≤ 57 then some (b - 48)
  else if 65 ≤ b && b ≤ 70 then some (b - 55)
  else if 97 ≤ b && b ≤ 102 then some (b - 87)
  else none

def plus : UInt8 := 43

/-- One more digit behind a number, unless it overflows. -/
def push (acc b : UInt8) : Option UInt8 := do
  let d ← value? b
  if acc.toNat * 16 + d.toNat < 256 then some (acc * 16 + d) else none

def digits? : List UInt8 → Option UInt8
  | [] => none
  | b :: bytes => (b :: bytes).foldlM push 0

/-- `u8::from_str_radix` of a text of these bytes. -/
def fromStrRadix : List UInt8 → Option UInt8
  | [] => none
  | b :: bytes => if b = plus then digits? bytes else digits? (b :: bytes)

/-- The byte that two digits stand for. -/
def byte? (hi lo : UInt8) : Option UInt8 := do return (← value? hi) * 16 + (← value? lo)

/-- What holds of all bytes is checked byte by byte. -/
theorem forall_byte {P : UInt8 → Prop} (h : ∀ n < 256, P (UInt8.ofNat n)) (b : UInt8) : P b := by
  rw [← UInt8.ofNat_toNat (x := b)]
  exact h b.toNat b.toNat_lt

theorem lt_of_value? {b d : UInt8} (h : value? b = some d) : d.toNat < 16 := by
  have hall : ∀ b : UInt8, ∀ d ∈ value? b, d.toNat < 16 := forall_byte (by decide +kernel)
  exact hall b d h

theorem push_zero (b : UInt8) : push 0 b = value? b := by
  unfold push
  cases h : value? b with
  | none => rfl
  | some d =>
    have hd := lt_of_value? h
    show (if 0 * 16 + d.toNat < 256 then some (0 * 16 + d) else none) = some d
    rw [if_pos (by omega)]
    simp

theorem digits?_pair (hi lo : UInt8) : digits? [hi, lo] = byte? hi lo := by
  show (push 0 hi).bind (fun acc => (push acc lo).bind some) = _
  rw [push_zero, byte?]
  cases hhi : value? hi with
  | none => rfl
  | some x =>
    show (push x lo).bind some = (value? lo).bind fun y => some (x * 16 + y)
    rw [Option.bind_fun_some, push]
    cases hlo : value? lo with
    | none => rfl
    | some y =>
      have hx := lt_of_value? hhi
      have hy := lt_of_value? hlo
      exact if_pos (by omega)

theorem digits?_singleton (b : UInt8) : digits? [b] = value? b := by
  show (push 0 b).bind some = _
  rw [push_zero, Option.bind_fun_some]

/-- Two bytes are read as two digits, or as a signed digit. -/
theorem fromStrRadix_pair (hi lo : UInt8) :
    fromStrRadix [hi, lo] = if hi = plus then value? lo else byte? hi lo := by
  rw [fromStrRadix, digits?_singleton, digits?_pair]

example : fromStrRadix [50, 70] = some 0x2F ∧ fromStrRadix [43, 70] = some 15 := by decide

end Hex
