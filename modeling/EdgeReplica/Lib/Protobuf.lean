-- SUMMARY: Protobuf messages of string fields: their encoding, and that decoding gives the fields back.
import Mathlib.Data.Nat.Digits.Defs

/-!
# Protobuf string fields

A string field is its tag, the length of the string as a base-128 varint, and its
bytes. A message is its fields one after the other, without those that are empty.
-/

namespace Protobuf

/-! ## Varints -/

/-- Base-128 digits, the lowest first; all but the last carry the continuation bit. -/
def varintDigits : List Nat → List UInt8
  | [] => [0]
  | [d] => [UInt8.ofNat d]
  | d :: ds => UInt8.ofNat (d + 128) :: varintDigits ds

def varint (n : Nat) : List UInt8 := varintDigits (Nat.digits 128 n)

def readVarint : List UInt8 → Option (Nat × List UInt8)
  | [] => none
  | b :: bytes =>
    if b < 128 then some (b.toNat, bytes)
    else (readVarint bytes).map fun (n, rest) => (b.toNat - 128 + 128 * n, rest)

theorem readVarint_varintDigits {digits : List Nat} (h : ∀ d ∈ digits, d < 128)
    (rest : List UInt8) :
    readVarint (varintDigits digits ++ rest) = some (Nat.ofDigits 128 digits, rest) := by
  have hlow : ∀ d < 128, UInt8.ofNat d < 128 ∧ (UInt8.ofNat d).toNat = d := by decide +kernel
  have hhigh : ∀ d < 128, ¬ UInt8.ofNat (d + 128) < 128 ∧
      (UInt8.ofNat (d + 128)).toNat - 128 = d := by decide +kernel
  induction digits with
  | nil => rfl
  | cons d digits ih =>
    obtain ⟨hd, hdigits⟩ := List.forall_mem_cons.mp h
    cases digits with
    | nil =>
      obtain ⟨hlt, hval⟩ := hlow d hd
      simp [varintDigits, readVarint, hlt, hval, Nat.ofDigits]
    | cons d' digits =>
      obtain ⟨hge, hval⟩ := hhigh d hd
      rw [varintDigits, List.cons_append, readVarint, if_neg hge, ih hdigits, Option.map_some, hval]
      · rfl
      · exact List.cons_ne_nil d' digits

theorem readVarint_varint (n : Nat) (rest : List UInt8) :
    readVarint (varint n ++ rest) = some (n, rest) := by
  rw [varint, readVarint_varintDigits fun d hd => Nat.digits_lt_base (by decide) hd,
    Nat.ofDigits_digits]

/-! ## Fields -/

/-- The number of a field and its wire type, and its value. -/
abbrev Field := UInt8 × String

def utf8 (s : String) : List UInt8 := s.toByteArray.data.toList

def ofUtf8? (bytes : List UInt8) : Option String := String.fromUTF8? ⟨bytes.toArray⟩

theorem ofUtf8?_utf8 (s : String) : ofUtf8? (utf8 s) = some s := by
  simp only [ofUtf8?, utf8, Array.toArray_toList, String.fromUTF8?]
  exact dif_pos s.isValidUTF8

theorem utf8_of_ofUtf8? {bytes : List UInt8} {s : String} (h : ofUtf8? bytes = some s) :
    utf8 s = bytes := by
  unfold ofUtf8? String.fromUTF8? at h
  split at h
  · obtain rfl := Option.some.inj h
    rfl
  · cases h

def writeField (field : Field) : List UInt8 :=
  field.1 :: (varint (utf8 field.2).length ++ utf8 field.2)

def write (fields : List Field) : List UInt8 := fields.flatMap writeField

def readField : List UInt8 → Option (Field × List UInt8)
  | [] => none
  | tag :: bytes => do
    let (len, bytes) ← readVarint bytes
    if bytes.length < len then none
    else
      let s ← ofUtf8? (bytes.take len)
      return ((tag, s), bytes.drop len)

/-- Fields until the bytes are used up; there are at most as many as bytes. -/
def readFields : Nat → List UInt8 → Option (List Field)
  | _, [] => some []
  | 0, _ :: _ => none
  | fuel + 1, bytes => do
    let (field, rest) ← readField bytes
    let fields ← readFields fuel rest
    return field :: fields

def read (bytes : List UInt8) : Option (List Field) := readFields bytes.length bytes

theorem readField_writeField (field : Field) (rest : List UInt8) :
    readField (writeField field ++ rest) = some (field, rest) := by
  obtain ⟨tag, s⟩ := field
  have hlen : ¬ (utf8 s ++ rest).length < (utf8 s).length := by simp
  simp only [writeField, List.cons_append, List.append_assoc, readField, readVarint_varint,
    bind, Option.bind_some, hlen, if_false, List.take_left, List.drop_left, ofUtf8?_utf8, pure]

theorem readFields_write (fields : List Field) (fuel : Nat) (h : fields.length ≤ fuel) :
    readFields fuel (write fields) = some fields := by
  induction fields generalizing fuel with
  | nil => cases fuel <;> rfl
  | cons field fields ih =>
    obtain ⟨fuel, rfl⟩ : ∃ n, fuel = n + 1 := ⟨fuel - 1, by simp at h; omega⟩
    have hcons : write (field :: fields) = writeField field ++ write fields := List.flatMap_cons
    have hne : writeField field ++ write fields ≠ [] := List.cons_ne_nil _ _
    rw [hcons, readFields, readField_writeField]
    · simp only [bind, Option.bind_some, ih fuel (by simpa using h), pure]
    · exact hne

theorem length_le_write (fields : List Field) : fields.length ≤ (write fields).length := by
  induction fields with
  | nil => rfl
  | cons field fields ih =>
    rw [write, List.flatMap_cons, List.length_append, List.length_cons]
    have hfield : 1 ≤ (writeField field).length := by simp [writeField]
    exact Nat.add_comm 1 _ ▸ Nat.add_le_add hfield ih

theorem read_write (fields : List Field) : read (write fields) = some fields :=
  readFields_write fields _ (length_le_write fields)

/-! ## Fields by number -/

/-- The value of a field; an absent one is empty. -/
def get (tag : UInt8) (fields : List Field) : String := (fields.lookup tag).getD ""

/-- The fields that are written. -/
def present (fields : List Field) : List Field := fields.filter (·.2 ≠ "")

theorem get_cons_of_ne {tag t : UInt8} (h : tag ≠ t) (v : String) (fields : List Field) :
    get tag ((t, v) :: fields) = get tag fields := by
  rw [get, List.lookup_cons, beq_false_of_ne h, get]

theorem get_cons_self (tag : UInt8) (v : String) (fields : List Field) :
    get tag ((tag, v) :: fields) = v := by
  rw [get, List.lookup_cons_self, Option.getD_some]

theorem get_of_notMem {tag : UInt8} {fields : List Field} (h : tag ∉ fields.map Prod.fst) :
    get tag fields = "" := by
  induction fields with
  | nil => rfl
  | cons field fields ih =>
    obtain ⟨hne, hrest⟩ : tag ≠ field.1 ∧ tag ∉ fields.map Prod.fst := by simpa using h
    rw [get_cons_of_ne hne, ih hrest]

/-- Leaving out what is empty changes no field. -/
theorem get_present {fields : List Field} (h : (fields.map Prod.fst).Nodup) (tag : UInt8) :
    get tag (present fields) = get tag fields := by
  induction fields with
  | nil => rfl
  | cons field fields ih =>
    obtain ⟨t, v⟩ := field
    obtain ⟨ht, hrest⟩ := List.nodup_cons.mp h
    by_cases hv : v = ""
    · rw [present, List.filter_cons_of_neg (by simpa using hv), ← present, ih hrest]
      by_cases htag : tag = t
      · rw [htag, get_of_notMem ht, get_cons_self, hv]
      · rw [get_cons_of_ne htag]
    · rw [present, List.filter_cons_of_pos (by simpa using hv), ← present]
      by_cases htag : tag = t
      · rw [htag, get_cons_self, get_cons_self]
      · rw [get_cons_of_ne htag, get_cons_of_ne htag, ih hrest]

end Protobuf
