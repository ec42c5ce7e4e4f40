-- SUMMARY: Base64 in the standard and the URL-safe alphabet, with and without padding: the encoding of bytes, and a decoder that reads no other text.
import EdgeReplica.Lib.Effect
import EdgeReplica.Lib.Text
import Mathlib.Data.List.FinRange

/-!
# Base64

Six bits are one character. The bits that fill up the last character are zero, and the
padding fills up the last group of four, so that bytes have one encoding in each form.
-/

namespace Base64

/-! ## Six bits -/

/-- The bytes in groups of six bits, the last one filled up with zeros. -/
def sextets : List UInt8 → List (Fin 64)
  | b₁ :: b₂ :: b₃ :: bytes =>
    Fin.ofNat 64 (b₁.toNat / 4) :: Fin.ofNat 64 (b₁.toNat % 4 * 16 + b₂.toNat / 16) ::
      Fin.ofNat 64 (b₂.toNat % 16 * 4 + b₃.toNat / 64) :: Fin.ofNat 64 b₃.toNat :: sextets bytes
  | [b₁, b₂] =>
    [Fin.ofNat 64 (b₁.toNat / 4), Fin.ofNat 64 (b₁.toNat % 4 * 16 + b₂.toNat / 16),
      Fin.ofNat 64 (b₂.toNat % 16 * 4)]
  | [b₁] => [Fin.ofNat 64 (b₁.toNat / 4), Fin.ofNat 64 (b₁.toNat % 4 * 16)]
  | [] => []

/-- The bytes that groups of six bits are of. What fills up the last group is zero. -/
def bytes? : List (Fin 64) → Option (List UInt8)
  | s₁ :: s₂ :: s₃ :: s₄ :: rest => do
    let bytes ← bytes? rest
    return UInt8.ofNat (s₁ * 4 + s₂ / 16) :: UInt8.ofNat (s₂ % 16 * 16 + s₃ / 4) ::
      UInt8.ofNat (s₃ % 4 * 64 + s₄) :: bytes
  | [s₁, s₂, s₃] =>
    if s₃.val % 4 = 0 then
      some [UInt8.ofNat (s₁ * 4 + s₂ / 16), UInt8.ofNat (s₂ % 16 * 16 + s₃ / 4)]
    else none
  | [s₁, s₂] => if s₂.val % 16 = 0 then some [UInt8.ofNat (s₁ * 4 + s₂ / 16)] else none
  | [_] => none
  | [] => some []

theorem ofNat_eq {n : Nat} {b : UInt8} (h : n = b.toNat) : UInt8.ofNat n = b := by
  rw [h, UInt8.ofNat_toNat]

theorem val_ofNat (n : Nat) : (Fin.ofNat 64 n).val = n % 64 := rfl

theorem bytes?_sextets (bytes : List UInt8) : bytes? (sextets bytes) = some bytes := by
  induction bytes using sextets.induct with
  | case1 b₁ b₂ b₃ bytes ih =>
    have h₁ := b₁.toNat_lt
    have h₂ := b₂.toNat_lt
    have h₃ := b₃.toNat_lt
    rw [sextets, bytes?, ih]
    simp only [val_ofNat, Option.bind_eq_bind, Option.bind_some, Option.pure_def]
    rw [ofNat_eq (b := b₁) (by omega), ofNat_eq (b := b₂) (by omega),
      ofNat_eq (b := b₃) (by omega)]
  | case2 b₁ b₂ =>
    have h₁ := b₁.toNat_lt
    have h₂ := b₂.toNat_lt
    simp only [sextets, bytes?, val_ofNat]
    rw [if_pos (by omega), ofNat_eq (b := b₁) (by omega), ofNat_eq (b := b₂) (by omega)]
  | case3 b₁ =>
    have h₁ := b₁.toNat_lt
    simp only [sextets, bytes?, val_ofNat]
    rw [if_pos (by omega), ofNat_eq (b := b₁) (by omega)]
  | case4 => rfl

theorem ofNat_val {n : Nat} {s : Fin 64} (h : n % 64 = s) : Fin.ofNat 64 n = s :=
  Fin.ext h

theorem sextets_of_bytes? {values : List (Fin 64)} {bytes : List UInt8}
    (h : bytes? values = some bytes) : sextets bytes = values := by
  induction values using bytes?.induct generalizing bytes with
  | case1 s₁ s₂ s₃ s₄ rest ih =>
    rw [bytes?] at h
    obtain ⟨tail, htail, hbytes⟩ := Option.bind_eq_some_iff.mp h
    obtain rfl := Option.some.inj hbytes
    simp only [sextets, ih htail, UInt8.toNat_ofNat']
    rw [ofNat_val (s := s₁) (by omega), ofNat_val (s := s₂) (by omega),
      ofNat_val (s := s₃) (by omega), ofNat_val (s := s₄) (by omega)]
  | case2 s₁ s₂ s₃ hzero =>
    rw [bytes?, if_pos hzero] at h
    obtain rfl := Option.some.inj h
    simp only [sextets, UInt8.toNat_ofNat']
    rw [ofNat_val (s := s₁) (by omega), ofNat_val (s := s₂) (by omega),
      ofNat_val (s := s₃) (by omega)]
  | case3 s₁ s₂ s₃ hzero =>
    rw [bytes?, if_neg hzero] at h
    cases h
  | case4 s₁ s₂ hzero =>
    rw [bytes?, if_pos hzero] at h
    obtain rfl := Option.some.inj h
    simp only [sextets, UInt8.toNat_ofNat']
    rw [ofNat_val (s := s₁) (by omega), ofNat_val (s := s₂) (by omega)]
  | case5 s₁ s₂ hzero =>
    rw [bytes?, if_neg hzero] at h
    cases h
  | case6 s₁ => cases h
  | case7 =>
    obtain rfl := Option.some.inj h
    rfl

/-- The length of the bytes can be read off. -/
theorem length_sextets (bytes : List UInt8) :
    (sextets bytes).length = (4 * bytes.length + 2) / 3 := by
  induction bytes using sextets.induct with
  | case1 b₁ b₂ b₃ bytes ih =>
    simp only [sextets, List.length_cons, ih]
    omega
  | case2 b₁ b₂ => simp only [sextets, List.length_cons, List.length_nil]
  | case3 b₁ => simp only [sextets, List.length_cons, List.length_nil]
  | case4 => rfl

/-! ## Characters -/

inductive Alphabet where
  | standard
  | urlSafe
deriving DecidableEq

def Alphabet.symbol (alphabet : Alphabet) (n : Fin 64) : Char :=
  if n.val < 26 then Char.ofNat (n + 65)
  else if n.val < 52 then Char.ofNat (n + 71)
  else if n.val < 62 then Char.ofNat (n - 4)
  else match alphabet with
    | .standard => if n = 62 then '+' else '/'
    | .urlSafe => if n = 62 then '-' else '_'

def Alphabet.value? (alphabet : Alphabet) (c : Char) : Option (Fin 64) :=
  (List.finRange 64).find? (alphabet.symbol · = c)

theorem Alphabet.symbol_inj {alphabet : Alphabet} {m n : Fin 64} :
    alphabet.symbol m = alphabet.symbol n ↔ m = n := by
  have hall : ∀ alphabet ∈ [standard, urlSafe], ∀ m n : Fin 64,
      symbol alphabet m = symbol alphabet n → m = n := by
    decide +kernel
  constructor
  · exact hall alphabet (by cases alphabet <;> decide) m n
  · rintro rfl
    rfl

theorem Alphabet.symbol_spec (alphabet : Alphabet) (n : Fin 64) :
    alphabet.symbol n ≠ '=' ∧ Text.isWhitespace (alphabet.symbol n) = false := by
  have hall : ∀ alphabet ∈ [standard, urlSafe], ∀ n : Fin 64,
      symbol alphabet n ≠ '=' ∧ Text.isWhitespace (symbol alphabet n) = false := by
    decide +kernel
  exact hall alphabet (by cases alphabet <;> decide) n

/-- The alphabets differ in the last two characters. -/
theorem Alphabet.symbol_urlSafe_eq_standard {n : Fin 64} :
    urlSafe.symbol n = standard.symbol n ↔ n.val < 62 := by
  have hall : ∀ n : Fin 64, urlSafe.symbol n = standard.symbol n ↔ n.val < 62 := by
    decide +kernel
  exact hall n

/-! ## Texts -/

/-- What fills up the last group of four characters. -/
def padding (padded : Bool) (length : Nat) : List Char :=
  if padded then List.replicate ((3 - length % 3) % 3) '=' else []

def encode (alphabet : Alphabet) (padded : Bool) (bytes : List UInt8) : String :=
  .ofList ((sextets bytes).map alphabet.symbol ++ padding padded bytes.length)

def decode (alphabet : Alphabet) (padded : Bool) (s : String) : Option (List UInt8) := do
  let body := s.toList.takeWhile (· ≠ '=')
  let bytes ← bytes? (← body.mapM alphabet.value?)
  if s.toList.drop body.length = padding padded bytes.length then some bytes else none

theorem mem_padding {padded : Bool} {length : Nat} {c : Char} (h : c ∈ padding padded length) :
    c = '=' := by
  unfold padding at h
  split at h
  case isTrue => exact List.eq_of_mem_replicate h
  case isFalse => cases h

/-- The padding is what begins with the first equals sign. -/
theorem takeWhile_encode (alphabet : Alphabet) (padded : Bool) (bytes : List UInt8) :
    (encode alphabet padded bytes).toList.takeWhile (· ≠ '=') =
      (sextets bytes).map alphabet.symbol := by
  have hbody : ∀ c ∈ (sextets bytes).map alphabet.symbol, decide (c ≠ '=') = true := by
    intro c hc
    obtain ⟨n, -, rfl⟩ := List.mem_map.mp hc
    exact decide_eq_true (alphabet.symbol_spec n).1
  have hpadding : (padding padded bytes.length).takeWhile (· ≠ '=') = [] := by
    rw [List.takeWhile_eq_nil_iff]
    intro hpos
    simp [mem_padding (List.getElem_mem hpos)]
  rw [encode, String.toList_ofList, List.takeWhile_append_of_pos hbody, hpadding,
    List.append_nil]

/-- Where two encodings are the same text, so are their characters before the padding. -/
theorem map_symbol_of_encode {a a' : Alphabet} {p p' : Bool} {bytes bytes' : List UInt8}
    (h : encode a p bytes = encode a' p' bytes') :
    (sextets bytes).map a.symbol = (sextets bytes').map a'.symbol := by
  rw [← takeWhile_encode a p bytes, h, takeWhile_encode]

/-- The length of the bytes is seen from their encoding, in whatever form. -/
theorem length_of_encode {a a' : Alphabet} {p p' : Bool} {bytes bytes' : List UInt8}
    (h : encode a p bytes = encode a' p' bytes') : bytes.length = bytes'.length := by
  have hlength := congrArg List.length (map_symbol_of_encode h)
  rw [List.length_map, List.length_map, length_sextets, length_sextets] at hlength
  omega

/-- Of bytes that need padding, an encoding is the one in the standard form exactly if it is
padded and no character of it depends on the alphabet. -/
theorem encode_eq_standard {alphabet : Alphabet} {padded : Bool} {bytes : List UInt8}
    (hlength : bytes.length % 3 ≠ 0) :
    encode alphabet padded bytes = encode .standard true bytes ↔
      padded = true ∧ (alphabet = .standard ∨ ∀ n ∈ sextets bytes, n.val < 62) := by
  have hsame : (sextets bytes).map alphabet.symbol = (sextets bytes).map Alphabet.standard.symbol ↔
      alphabet = .standard ∨ ∀ n ∈ sextets bytes, n.val < 62 := by
    cases alphabet with
    | standard => exact iff_of_true rfl (.inl rfl)
    | urlSafe =>
      rw [List.map_inj_left, or_iff_right Alphabet.noConfusion]
      exact forall₂_congr fun n _ => Alphabet.symbol_urlSafe_eq_standard
  rw [← hsame]
  constructor
  · intro h
    have hbody := map_symbol_of_encode h
    refine ⟨?_, hbody⟩
    have hpadding := String.ofList_injective h
    rw [hbody, List.append_cancel_left_eq] at hpadding
    unfold padding at hpadding
    split at hpadding
    case isTrue hpadded => exact hpadded
    case isFalse =>
      have hnone := congrArg List.length hpadding
      rw [if_pos rfl, List.length_replicate, List.length_nil] at hnone
      omega
  · rintro ⟨rfl, hbody⟩
    rw [encode, encode, hbody]

/-- There is no white space in an encoding. -/
theorem trimmed_encode (alphabet : Alphabet) (padded : Bool) (bytes : List UInt8) :
    Text.Trimmed (encode alphabet padded bytes).toList := by
  have hspace : ∀ c ∈ (encode alphabet padded bytes).toList, Text.isWhitespace c = false := by
    intro c hc
    rw [encode, String.toList_ofList] at hc
    rcases List.mem_append.mp hc with hc | hc
    · obtain ⟨n, -, rfl⟩ := List.mem_map.mp hc
      exact (alphabet.symbol_spec n).2
    · rw [mem_padding hc]
      decide
  exact ⟨fun c hc => hspace c (List.mem_of_mem_head? hc),
    fun c hc => hspace c (List.mem_of_mem_getLast? hc)⟩

/-! ## Decoding -/

theorem Alphabet.value?_eq_some {alphabet : Alphabet} {c : Char} {n : Fin 64} :
    alphabet.value? c = some n ↔ alphabet.symbol n = c := by
  have hsome : ∀ {m}, alphabet.value? c = some m → alphabet.symbol m = c := by
    intro m h
    exact of_decide_eq_true (List.find?_some (p := fun n => decide (alphabet.symbol n = c)) h)
  refine ⟨hsome, fun h => ?_⟩
  cases hfind : alphabet.value? c with
  | none =>
    have hnot := List.find?_eq_none.mp hfind n (List.mem_finRange n)
    exact absurd (decide_eq_true h) hnot
  | some m => rw [symbol_inj.mp ((hsome hfind).trans h.symm)]

theorem mapM_value? {alphabet : Alphabet} {chars : List Char} {values : List (Fin 64)} :
    chars.mapM alphabet.value? = some values ↔ chars = values.map alphabet.symbol := by
  induction chars generalizing values with
  | nil => cases values <;> simp
  | cons c chars ih =>
    rw [List.mapM_cons, Option.bind_eq_bind, Option.bind_eq_some_iff]
    constructor
    · rintro ⟨n, hn, htail⟩
      obtain ⟨ns, hns, hvalues⟩ := Option.bind_eq_some_iff.mp htail
      obtain rfl := Option.some.inj hvalues
      rw [List.map_cons, Alphabet.value?_eq_some.mp hn, ← ih.mp hns]
    · intro h
      cases values with
      | nil => cases h
      | cons n ns =>
        obtain ⟨rfl, hchars⟩ := List.cons.inj h
        refine ⟨n, Alphabet.value?_eq_some.mpr rfl, ?_⟩
        rw [ih.mpr hchars]
        rfl

/-- The decoder reads the encoding of the bytes and no other text. -/
theorem decode_eq_some {alphabet : Alphabet} {padded : Bool} {s : String} {bytes : List UInt8} :
    decode alphabet padded s = some bytes ↔ s = encode alphabet padded bytes := by
  constructor
  · intro h
    obtain ⟨values, hvalues, hrest⟩ := Option.bind_eq_some_iff.mp h
    obtain ⟨bytes', hbytes, hrest⟩ := Option.bind_eq_some_iff.mp hrest
    split at hrest
    case isTrue hpadding =>
      obtain rfl := Option.some.inj hrest
      have hbody := mapM_value?.mp hvalues
      rw [encode, sextets_of_bytes? hbytes, ← hbody, ← hpadding,
        List.prefix_iff_eq_append.mp (List.takeWhile_prefix _), String.ofList_toList]
    case isFalse => cases hrest
  · rintro rfl
    have hchars : (encode alphabet padded bytes).toList =
        (sextets bytes).map alphabet.symbol ++ padding padded bytes.length := by
      rw [encode, String.toList_ofList]
    unfold decode
    rw [takeWhile_encode]
    dsimp only
    rw [mapM_value?.mpr rfl]
    dsimp only [Option.bind_eq_bind, Option.bind_some]
    rw [bytes?_sextets]
    dsimp only [Option.bind_some]
    rw [hchars, List.drop_left, if_pos rfl]

/-! ## The standard engine -/

/-- The decoder for the standard alphabet with padding. What it says of other texts is its own. -/
class StandardEngine where
  decode : String → Except String (List UInt8)
  decode_eq_ok : ∀ {s : String} {bytes : List UInt8},
    decode s = .ok bytes ↔ s = encode .standard true bytes

/-- The decoder above, with one text for all errors. -/
abbrev StandardEngine.canonical : StandardEngine where
  decode s := Effect.okOr (Base64.decode .standard true s) "invalid base64"
  decode_eq_ok := by
    intro s bytes
    rw [Effect.okOr_eq_ok, decode_eq_some]

end Base64
