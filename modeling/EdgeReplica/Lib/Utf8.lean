-- SUMMARY: UTF-8: the bytes of a string, and the decoding of any bytes with U+FFFD for what is broken.
import EdgeReplica.Lib.Protobuf

/-!
# UTF-8

Decoding is lossy: where no character begins, the longest beginning of one, or else a
single byte, becomes U+FFFD. Bytes of a string decode to the string.
-/

namespace Utf8

theorem utf8_eq (s : String) : Protobuf.utf8 s = s.toList.flatMap String.utf8EncodeChar := by
  rw [Protobuf.utf8, ← String.utf8Encode_toList, List.utf8Encode, List.toList_data_toByteArray]

/-! ## ASCII -/

/-- An ASCII character is one byte. -/
theorem encodeChar_ascii {c : Char} (h : c.toNat < 128) :
    String.utf8EncodeChar c = [UInt8.ofNat c.toNat] := by
  have hall : ∀ n < 128, String.utf8EncodeChar (Char.ofNat n) = [UInt8.ofNat n] := by
    decide +kernel
  have hc := hall c.toNat h
  rwa [Char.ofNat_toNat] at hc

def asciiBytes (chars : List Char) : List UInt8 := chars.map fun c => UInt8.ofNat c.toNat

theorem utf8_ascii {chars : List Char} (h : ∀ c ∈ chars, c.toNat < 128) :
    Protobuf.utf8 (.ofList chars) = asciiBytes chars := by
  rw [utf8_eq, String.toList_ofList]
  induction chars with
  | nil => rfl
  | cons c chars ih =>
    obtain ⟨hc, hchars⟩ := List.forall_mem_cons.mp h
    rw [List.flatMap_cons, encodeChar_ascii hc, ih hchars]
    rfl

/-- ASCII bytes are text. -/
theorem exists_utf8_eq {bytes : List UInt8} (h : ∀ b ∈ bytes, b.toNat < 128) :
    ∃ s, Protobuf.utf8 s = bytes := by
  have hsmall : ∀ n < 128, (Char.ofNat n).toNat = n := by decide +kernel
  refine ⟨.ofList (bytes.map fun b => Char.ofNat b.toNat), ?_⟩
  rw [utf8_ascii]
  · rw [asciiBytes, List.map_map]
    refine (List.map_congr_left fun b hb => ?_).trans (List.map_id bytes)
    show UInt8.ofNat (Char.ofNat b.toNat).toNat = b
    rw [hsmall b.toNat (h b hb), UInt8.ofNat_toNat]
  · intro c hc
    obtain ⟨b, hb, rfl⟩ := List.mem_map.mp hc
    rw [hsmall b.toNat (h b hb)]
    exact h b hb

/-! ## Any bytes -/

def isContinuation (b : UInt8) : Bool := 0x80 ≤ b && b ≤ 0xBF

/-- May these be the first two bytes of a character of three or four? -/
def begins (b₁ b₂ : UInt8) : Bool :=
  if b₁ = 0xE0 then 0xA0 ≤ b₂ && b₂ ≤ 0xBF
  else if b₁ = 0xED then 0x80 ≤ b₂ && b₂ ≤ 0x9F
  else if b₁ = 0xF0 then 0x90 ≤ b₂ && b₂ ≤ 0xBF
  else if b₁ = 0xF4 then 0x80 ≤ b₂ && b₂ ≤ 0x8F
  else 0xE1 ≤ b₁ && b₁ ≤ 0xF3 && isContinuation b₂

/-- Of bytes that no character begins: how many of them one U+FFFD stands for. -/
def brokenLength : List UInt8 → Nat
  | b₁ :: b₂ :: rest =>
    if begins b₁ b₂ then
      match rest with
      | b₃ :: _ => if 0xF0 ≤ b₁ && isContinuation b₃ then 3 else 2
      | [] => 2
    else 1
  | _ => 1

/-- Characters until the bytes are used up; there are at most as many as bytes. -/
def decode : Nat → List UInt8 → List Char
  | 0, _ | _, [] => []
  | fuel + 1, b :: bytes =>
    match (b :: bytes).toByteArray.utf8DecodeChar? 0 with
    | some c => c :: decode fuel ((b :: bytes).drop c.utf8Size)
    | none => '\uFFFD' :: decode fuel ((b :: bytes).drop (brokenLength (b :: bytes)))

def fromUtf8Lossy (bytes : List UInt8) : String := .ofList (decode bytes.length bytes)

/-- A character is decoded from its bytes. -/
theorem decode_encodeChar (fuel : Nat) (c : Char) (bytes : List UInt8) :
    decode (fuel + 1) (String.utf8EncodeChar c ++ bytes) = c :: decode fuel bytes := by
  have hdecoded : (String.utf8EncodeChar c ++ bytes).toByteArray.utf8DecodeChar? 0 = some c := by
    rw [List.toByteArray_append]
    exact ByteArray.utf8DecodeChar?_utf8EncodeChar_append
  have hdrop : (String.utf8EncodeChar c ++ bytes).drop c.utf8Size = bytes := by
    rw [← String.length_utf8EncodeChar c, List.drop_left]
  cases hbytes : String.utf8EncodeChar c ++ bytes with
  | nil => exact absurd (List.append_eq_nil_iff.mp hbytes).1 String.utf8EncodeChar_ne_nil
  | cons b rest =>
    rw [hbytes] at hdecoded hdrop
    rw [decode, hdecoded]
    dsimp only
    rw [hdrop]

theorem decode_encode {fuel : Nat} {chars : List Char} (h : chars.length ≤ fuel) :
    decode fuel (chars.flatMap String.utf8EncodeChar) = chars := by
  induction chars generalizing fuel with
  | nil => cases fuel <;> rfl
  | cons c chars ih =>
    obtain ⟨fuel, rfl⟩ := Nat.exists_eq_succ_of_ne_zero (Nat.ne_of_gt (Nat.zero_lt_of_lt h))
    rw [List.flatMap_cons, decode_encodeChar, ih (Nat.le_of_succ_le_succ h)]

theorem length_le_encode (chars : List Char) :
    chars.length ≤ (chars.flatMap String.utf8EncodeChar).length := by
  induction chars with
  | nil => exact Nat.le_refl 0
  | cons c chars ih =>
    have hpos := c.utf8Size_pos
    rw [List.flatMap_cons, List.length_append, String.length_utf8EncodeChar, List.length_cons]
    omega

theorem fromUtf8Lossy_utf8 (s : String) : fromUtf8Lossy (Protobuf.utf8 s) = s := by
  rw [fromUtf8Lossy, utf8_eq, decode_encode (length_le_encode s.toList), String.ofList_toList]

/-- A character cut short is one U+FFFD, and a stray byte is another. -/
example : fromUtf8Lossy [0x61, 0xE2, 0x82, 0x62, 0xFF, 0xC3, 0xA9] = "a\uFFFDb\uFFFDé" := by
  decide +kernel

end Utf8
