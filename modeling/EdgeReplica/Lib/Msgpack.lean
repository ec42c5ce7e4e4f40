-- SUMMARY: MessagePack: values, their shortest encoding, and a reader that gives every encoded value back.
import Mathlib.Algebra.Order.Ring.Int

/-!
# MessagePack

A value begins with a head: its type, and the value itself or the number of bytes or
items that follow. Most heads have several forms; `writeHead` takes the shortest one,
`readHead` knows them all. The reader of values goes down to a bounded depth, as
readers do to protect their stack.
-/

namespace Msgpack

/-! ## Numbers -/

theorem toNat_byte {n : Nat} (h : n < 256) : (UInt8.ofNat n).toNat = n :=
  UInt8.toNat_ofNat_of_lt' h

/-- The lowest `width` bytes of a number, the highest of them first. -/
def bigEndian : Nat → Nat → List UInt8
  | 0, _ => []
  | width + 1, n => bigEndian width (n / 256) ++ [UInt8.ofNat n]

def ofBigEndian (bytes : List UInt8) : Nat := bytes.foldl (fun n b => n * 256 + b.toNat) 0

theorem ofBigEndian_append (bytes : List UInt8) (b : UInt8) :
    ofBigEndian (bytes ++ [b]) = ofBigEndian bytes * 256 + b.toNat := List.foldl_append

theorem length_bigEndian (width n : Nat) : (bigEndian width n).length = width := by
  induction width generalizing n with
  | zero => rfl
  | succ width ih => rw [bigEndian, List.length_append, ih, List.length_singleton]

theorem ofBigEndian_bigEndian {width n : Nat} (h : n < 256 ^ width) :
    ofBigEndian (bigEndian width n) = n := by
  induction width generalizing n with
  | zero =>
    obtain rfl : n = 0 := by simpa using h
    rfl
  | succ width ih =>
    have hdiv : n / 256 < 256 ^ width := by
      rw [Nat.div_lt_iff_lt_mul (by decide), ← Nat.pow_succ]
      exact h
    rw [bigEndian, ofBigEndian_append, ih hdiv, UInt8.toNat_ofNat']
    omega

def readBytes (n : Nat) (bytes : List UInt8) : Option (List UInt8 × List UInt8) :=
  if bytes.length < n then none else some (bytes.take n, bytes.drop n)

theorem readBytes_append (data rest : List UInt8) :
    readBytes data.length (data ++ rest) = some (data, rest) := by
  have henough : ¬ (data ++ rest).length < data.length := by simp
  rw [readBytes, if_neg henough, List.take_left, List.drop_left]

/-- A number of `width` bytes. -/
def readNat (width : Nat) (bytes : List UInt8) : Option (Nat × List UInt8) :=
  (readBytes width bytes).map fun (digits, rest) => (ofBigEndian digits, rest)

theorem readNat_bigEndian {width n : Nat} (h : n < 256 ^ width) (rest : List UInt8) :
    readNat width (bigEndian width n ++ rest) = some (n, rest) := by
  have hread := readBytes_append (bigEndian width n) rest
  rw [length_bigEndian] at hread
  rw [readNat, hread, Option.map_some]
  simp only [ofBigEndian_bigEndian h]

/-- The number that `width` bytes stand for in two's complement. -/
def signed (width n : Nat) : Int :=
  if n < 256 ^ width / 2 then n else (n : Int) - 256 ^ width

/-! ## Heads -/

/-- The type of a value, and what its first bytes say about it. -/
inductive Head where
  | nil
  | bool (b : Bool)
  | int (n : Int)
  | float (size : Nat)
  | str (length : Nat)
  | bin (length : Nat)
  /-- Besides the data there is one byte for the type of the extension. -/
  | ext (length : Nat)
  | array (count : Nat)
  | map (count : Nat)
deriving DecidableEq, Repr

/-- What a first byte announces: a number of so many bytes, and the head that this
number makes. -/
def announce (first : UInt8) : Option (Nat × (Nat → Head)) :=
  let b := first.toNat
  if b < 0x80 then some (0, fun _ => .int b)
  else if b < 0x90 then some (0, fun _ => .map (b - 0x80))
  else if b < 0xa0 then some (0, fun _ => .array (b - 0x90))
  else if b < 0xc0 then some (0, fun _ => .str (b - 0xa0))
  else if 0xe0 ≤ b then some (0, fun _ => .int (b - 0x100))
  else
    match b with
    | 0xc0 => some (0, fun _ => .nil)
    | 0xc2 => some (0, fun _ => .bool false)
    | 0xc3 => some (0, fun _ => .bool true)
    | 0xc4 => some (1, .bin)
    | 0xc5 => some (2, .bin)
    | 0xc6 => some (4, .bin)
    | 0xc7 => some (1, .ext)
    | 0xc8 => some (2, .ext)
    | 0xc9 => some (4, .ext)
    | 0xca => some (0, fun _ => .float 4)
    | 0xcb => some (0, fun _ => .float 8)
    | 0xcc => some (1, fun n => .int n)
    | 0xcd => some (2, fun n => .int n)
    | 0xce => some (4, fun n => .int n)
    | 0xcf => some (8, fun n => .int n)
    | 0xd0 => some (1, fun n => .int (signed 1 n))
    | 0xd1 => some (2, fun n => .int (signed 2 n))
    | 0xd2 => some (4, fun n => .int (signed 4 n))
    | 0xd3 => some (8, fun n => .int (signed 8 n))
    | 0xd4 => some (0, fun _ => .ext 1)
    | 0xd5 => some (0, fun _ => .ext 2)
    | 0xd6 => some (0, fun _ => .ext 4)
    | 0xd7 => some (0, fun _ => .ext 8)
    | 0xd8 => some (0, fun _ => .ext 16)
    | 0xd9 => some (1, .str)
    | 0xda => some (2, .str)
    | 0xdb => some (4, .str)
    | 0xdc => some (2, .array)
    | 0xdd => some (4, .array)
    | 0xde => some (2, .map)
    | 0xdf => some (4, .map)
    | _ => none

def readHead : List UInt8 → Option (Head × List UInt8)
  | [] => none
  | first :: bytes => do
    let (width, head) ← announce first
    let (n, rest) ← readNat width bytes
    return (head n, rest)

def writeInt (n : Int) : List UInt8 :=
  if 0 ≤ n then
    let m := n.toNat
    if m < 128 then [UInt8.ofNat m]
    else if m < 2 ^ 8 then 0xcc :: bigEndian 1 m
    else if m < 2 ^ 16 then 0xcd :: bigEndian 2 m
    else if m < 2 ^ 32 then 0xce :: bigEndian 4 m
    else 0xcf :: bigEndian 8 m
  else if -32 ≤ n then [UInt8.ofNat (n + 2 ^ 8).toNat]
  else if -2 ^ 7 ≤ n then 0xd0 :: bigEndian 1 (n + 2 ^ 8).toNat
  else if -2 ^ 15 ≤ n then 0xd1 :: bigEndian 2 (n + 2 ^ 16).toNat
  else if -2 ^ 31 ≤ n then 0xd2 :: bigEndian 4 (n + 2 ^ 32).toNat
  else 0xd3 :: bigEndian 8 (n + 2 ^ 64).toNat

/-- A length after one of two first bytes. -/
def writeLong (two four : UInt8) (n : Nat) : List UInt8 :=
  if n < 2 ^ 16 then two :: bigEndian 2 n else four :: bigEndian 4 n

/-- A length after one of three first bytes. -/
def writeLength (one two four : UInt8) (n : Nat) : List UInt8 :=
  if n < 2 ^ 8 then one :: bigEndian 1 n else writeLong two four n

def writeExt (n : Nat) : List UInt8 :=
  match n with
  | 1 => [0xd4]
  | 2 => [0xd5]
  | 4 => [0xd6]
  | 8 => [0xd7]
  | 16 => [0xd8]
  | _ => writeLength 0xc7 0xc8 0xc9 n

/-- The shortest form of a head. -/
def writeHead : Head → List UInt8
  | .nil => [0xc0]
  | .bool false => [0xc2]
  | .bool true => [0xc3]
  | .int n => writeInt n
  | .float size => if size = 4 then [0xca] else [0xcb]
  | .str n => if n < 32 then [UInt8.ofNat (0xa0 + n)] else writeLength 0xd9 0xda 0xdb n
  | .bin n => writeLength 0xc4 0xc5 0xc6 n
  | .ext n => writeExt n
  | .array n => if n < 16 then [UInt8.ofNat (0x90 + n)] else writeLong 0xdc 0xdd n
  | .map n => if n < 16 then [UInt8.ofNat (0x80 + n)] else writeLong 0xde 0xdf n

/-- The heads that can be written. -/
def Head.Bounded : Head → Prop
  | .nil | .bool _ => True
  | .int n => -2 ^ 63 ≤ n ∧ n < 2 ^ 64
  | .float size => size = 4 ∨ size = 8
  | .str n | .bin n | .ext n | .array n | .map n => n < 2 ^ 32

section

variable {first : UInt8} {f : Nat → Head} {width n : Nat} (rest : List UInt8)

theorem readHead_short (h : announce first = some (0, f)) :
    readHead (first :: rest) = some (f 0, rest) := by
  rw [readHead, h]
  rfl

theorem readHead_long (h : announce first = some (width, f)) (hn : n < 256 ^ width) :
    readHead (first :: bigEndian width n ++ rest) = some (f n, rest) := by
  rw [List.cons_append, readHead, h]
  simp only [bind, Option.bind_some, readNat_bigEndian hn, pure]

theorem readHead_writeLong {two four : UInt8} (h₂ : announce two = some (2, f))
    (h₄ : announce four = some (4, f)) (hn : n < 2 ^ 32) :
    readHead (writeLong two four n ++ rest) = some (f n, rest) := by
  unfold writeLong
  split
  · next hshort => exact readHead_long rest h₂ (by omega)
  · exact readHead_long rest h₄ (by omega)

theorem readHead_writeLength {one two four : UInt8} (h₁ : announce one = some (1, f))
    (h₂ : announce two = some (2, f)) (h₄ : announce four = some (4, f)) (hn : n < 2 ^ 32) :
    readHead (writeLength one two four n ++ rest) = some (f n, rest) := by
  unfold writeLength
  split
  · next hshort => exact readHead_long rest h₁ (by omega)
  · exact readHead_writeLong rest h₂ h₄ hn

end

theorem announce_fixstr {n : Nat} (h : n < 32) :
    announce (UInt8.ofNat (0xa0 + n)) = some (0, fun _ => .str n) := by
  have hb : (UInt8.ofNat (0xa0 + n)).toNat = 0xa0 + n := toNat_byte (by omega)
  simp only [announce, hb]
  rw [if_neg (by omega), if_neg (by omega), if_neg (by omega), if_pos (by omega)]
  simp

theorem announce_fixarray {n : Nat} (h : n < 16) :
    announce (UInt8.ofNat (0x90 + n)) = some (0, fun _ => .array n) := by
  have hb : (UInt8.ofNat (0x90 + n)).toNat = 0x90 + n := toNat_byte (by omega)
  simp only [announce, hb]
  rw [if_neg (by omega), if_neg (by omega), if_pos (by omega)]
  simp

theorem announce_fixmap {n : Nat} (h : n < 16) :
    announce (UInt8.ofNat (0x80 + n)) = some (0, fun _ => .map n) := by
  have hb : (UInt8.ofNat (0x80 + n)).toNat = 0x80 + n := toNat_byte (by omega)
  simp only [announce, hb]
  rw [if_neg (by omega), if_pos (by omega)]
  simp

theorem announce_fixpos {n : Nat} (h : n < 128) :
    announce (UInt8.ofNat n) = some (0, fun _ => .int n) := by
  have hb : (UInt8.ofNat n).toNat = n := toNat_byte (by omega)
  simp only [announce, hb]
  rw [if_pos (by omega)]

theorem announce_fixneg {n : Int} (hlow : -32 ≤ n) (hneg : n < 0) :
    announce (UInt8.ofNat (n + 2 ^ 8).toNat) = some (0, fun _ => .int n) := by
  have hb : (UInt8.ofNat (n + 2 ^ 8).toNat).toNat = (n + 2 ^ 8).toNat :=
    toNat_byte (by omega)
  have hint : ((n + 2 ^ 8).toNat : Int) - 0x100 = n := by omega
  simp only [announce, hb]
  rw [if_neg (by omega), if_neg (by omega), if_neg (by omega), if_neg (by omega), if_pos (by omega),
    hint]

/-- Two's complement gives a negative number back. -/
theorem readHead_signed {first : UInt8} {width p : Nat} (hp : 256 ^ width = p)
    (h : announce first = some (width, fun n => .int (signed width n))) {n : Int}
    (hlow : -(p / 2 : Nat) ≤ n) (hneg : n < 0) (rest : List UInt8) :
    readHead (first :: bigEndian width (n + p).toNat ++ rest) = some (.int n, rest) := by
  have hlt : (n + p).toNat < 256 ^ width := by omega
  have hsigned : signed width (n + p).toNat = n := by
    have hpow : (256 : Int) ^ width = p := by rw [← hp, Int.natCast_pow]; rfl
    unfold signed
    rw [hp, hpow, if_neg (by omega)]
    omega
  rw [readHead_long rest h hlt, hsigned]

theorem readHead_writeInt {n : Int} (h : -2 ^ 63 ≤ n ∧ n < 2 ^ 64) (rest : List UInt8) :
    readHead (writeInt n ++ rest) = some (.int n, rest) := by
  unfold writeInt
  split
  · next hpos =>
    obtain ⟨m, rfl⟩ := Int.eq_ofNat_of_zero_le hpos
    have hm : m < 2 ^ 64 := by omega
    simp only [Int.toNat_natCast]
    split
    · next hfix => exact readHead_short rest (announce_fixpos hfix)
    split
    · next h8 => exact readHead_long rest (f := fun n => .int n) rfl (by omega)
    split
    · next h16 => exact readHead_long rest (f := fun n => .int n) rfl (by omega)
    split
    · next h32 => exact readHead_long rest (f := fun n => .int n) rfl (by omega)
    · exact readHead_long rest (f := fun n => .int n) rfl (by omega)
  · next hneg =>
    have hneg : n < 0 := by omega
    split
    · next hfix => exact readHead_short rest (announce_fixneg hfix hneg)
    split
    · next h8 => exact readHead_signed (p := 2 ^ 8) (by decide) rfl (by omega) hneg rest
    split
    · next h16 => exact readHead_signed (p := 2 ^ 16) (by decide) rfl (by omega) hneg rest
    split
    · next h32 => exact readHead_signed (p := 2 ^ 32) (by decide) rfl (by omega) hneg rest
    · exact readHead_signed (p := 2 ^ 64) (by decide) rfl (by omega) hneg rest

theorem readHead_writeExt {n : Nat} (h : n < 2 ^ 32) (rest : List UInt8) :
    readHead (writeExt n ++ rest) = some (.ext n, rest) := by
  unfold writeExt
  split
  · exact readHead_short rest (f := fun _ => .ext 1) rfl
  · exact readHead_short rest (f := fun _ => .ext 2) rfl
  · exact readHead_short rest (f := fun _ => .ext 4) rfl
  · exact readHead_short rest (f := fun _ => .ext 8) rfl
  · exact readHead_short rest (f := fun _ => .ext 16) rfl
  · exact readHead_writeLength rest rfl rfl rfl h

/-- What was written of a head is read back, in each of its forms. -/
theorem readHead_writeHead {head : Head} (h : head.Bounded) (rest : List UInt8) :
    readHead (writeHead head ++ rest) = some (head, rest) := by
  cases head with
  | nil => exact readHead_short rest (f := fun _ => .nil) rfl
  | bool b =>
    cases b with
    | false => exact readHead_short rest (f := fun _ => .bool false) rfl
    | true => exact readHead_short rest (f := fun _ => .bool true) rfl
  | int n => exact readHead_writeInt h rest
  | float size =>
    rcases h with rfl | rfl
    · exact readHead_short rest (f := fun _ => .float 4) rfl
    · exact readHead_short rest (f := fun _ => .float 8) rfl
  | str n =>
    rw [writeHead]
    split
    · next hfix => exact readHead_short rest (announce_fixstr hfix)
    · exact readHead_writeLength rest rfl rfl rfl h
  | bin n => exact readHead_writeLength rest rfl rfl rfl h
  | ext n => exact readHead_writeExt h rest
  | array n =>
    rw [writeHead]
    split
    · next hfix => exact readHead_short rest (announce_fixarray hfix)
    · exact readHead_writeLong rest rfl rfl h
  | map n =>
    rw [writeHead]
    split
    · next hfix => exact readHead_short rest (announce_fixmap hfix)
    · exact readHead_writeLong rest rfl rfl h

/-! ## Values -/

inductive Value where
  | nil
  | bool (b : Bool)
  | int (n : Int)
  /-- A floating-point number, as its bytes. -/
  | float (raw : List UInt8)
  /-- A string, as its bytes. -/
  | str (raw : List UInt8)
  | bin (data : List UInt8)
  | ext (type : UInt8) (data : List UInt8)
  | array (items : List Value)
  | map (entries : List (Value × Value))

mutual

def write : Value → List UInt8
  | .nil => writeHead .nil
  | .bool b => writeHead (.bool b)
  | .int n => writeHead (.int n)
  | .float raw => writeHead (.float raw.length) ++ raw
  | .str raw => writeHead (.str raw.length) ++ raw
  | .bin data => writeHead (.bin data.length) ++ data
  | .ext type data => writeHead (.ext data.length) ++ type :: data
  | .array items => writeHead (.array items.length) ++ writeItems items
  | .map entries => writeHead (.map entries.length) ++ writeEntries entries

def writeItems : List Value → List UInt8
  | [] => []
  | item :: items => write item ++ writeItems items

def writeEntries : List (Value × Value) → List UInt8
  | [] => []
  | entry :: entries => writeEntry entry ++ writeEntries entries

def writeEntry : Value × Value → List UInt8
  | (key, value) => write key ++ write value

end

section

variable {α : Type}

/-- Read so many items. -/
def readMany (item : List UInt8 → Option (α × List UInt8)) :
    Nat → List UInt8 → Option (List α × List UInt8)
  | 0, bytes => some ([], bytes)
  | n + 1, bytes => do
    let (first, bytes) ← item bytes
    let (others, bytes) ← readMany item n bytes
    return (first :: others, bytes)

def readEntry (item : List UInt8 → Option (α × List UInt8)) (bytes : List UInt8) :
    Option ((α × α) × List UInt8) := do
  let (key, bytes) ← item bytes
  let (value, bytes) ← item bytes
  return ((key, value), bytes)

end

/-- Read one value, of at most the given depth. -/
def read : Nat → List UInt8 → Option (Value × List UInt8)
  | 0, _ => none
  | depth + 1, bytes => do
    let (head, bytes) ← readHead bytes
    match head with
    | .nil => return (.nil, bytes)
    | .bool b => return (.bool b, bytes)
    | .int n => return (.int n, bytes)
    | .float size =>
      let (raw, bytes) ← readBytes size bytes
      return (.float raw, bytes)
    | .str length =>
      let (raw, bytes) ← readBytes length bytes
      return (.str raw, bytes)
    | .bin length =>
      let (data, bytes) ← readBytes length bytes
      return (.bin data, bytes)
    | .ext length =>
      match bytes with
      | [] => none
      | type :: bytes =>
        let (data, bytes) ← readBytes length bytes
        return (.ext type data, bytes)
    | .array count =>
      let (items, bytes) ← readMany (read depth) count bytes
      return (.array items, bytes)
    | .map count =>
      let (entries, bytes) ← readMany (readEntry (read depth)) count bytes
      return (.map entries, bytes)

/-- A value that can be written, of at most the given depth. -/
def Value.Fits : Nat → Value → Prop
  | 0, _ => False
  | _ + 1, .nil | _ + 1, .bool _ => True
  | _ + 1, .int n => (Head.int n).Bounded
  | _ + 1, .float raw => (Head.float raw.length).Bounded
  | _ + 1, .str raw => (Head.str raw.length).Bounded
  | _ + 1, .bin data => (Head.bin data.length).Bounded
  | _ + 1, .ext _ data => (Head.ext data.length).Bounded
  | depth + 1, .array items => (Head.array items.length).Bounded ∧ ∀ item ∈ items, Fits depth item
  | depth + 1, .map entries =>
    (Head.map entries.length).Bounded ∧ ∀ entry ∈ entries, Fits depth entry.1 ∧ Fits depth entry.2

section

variable {read : List UInt8 → Option (Value × List UInt8)}

theorem readMany_writeItems {items : List Value}
    (h : ∀ item ∈ items, ∀ rest, read (write item ++ rest) = some (item, rest))
    (rest : List UInt8) :
    readMany read items.length (writeItems items ++ rest) = some (items, rest) := by
  induction items with
  | nil => rw [writeItems]; rfl
  | cons item items ih =>
    obtain ⟨hitem, hitems⟩ := List.forall_mem_cons.mp h
    rw [writeItems, List.append_assoc, List.length_cons, readMany, hitem]
    simp only [bind, Option.bind_some, ih hitems, pure]

theorem readMany_writeEntries {entries : List (Value × Value)}
    (h : ∀ entry ∈ entries, ∀ rest, read (write entry.1 ++ rest) = some (entry.1, rest) ∧
      read (write entry.2 ++ rest) = some (entry.2, rest))
    (rest : List UInt8) :
    readMany (readEntry read) entries.length (writeEntries entries ++ rest) =
      some (entries, rest) := by
  induction entries with
  | nil => rw [writeEntries]; rfl
  | cons entry entries ih =>
    obtain ⟨hentry, hentries⟩ := List.forall_mem_cons.mp h
    obtain ⟨key, value⟩ := entry
    have hread : readEntry read (writeEntry (key, value) ++ (writeEntries entries ++ rest)) =
        some ((key, value), writeEntries entries ++ rest) := by
      rw [writeEntry, List.append_assoc, readEntry, (hentry _).1]
      simp only [bind, Option.bind_some, (hentry _).2, pure]
    rw [writeEntries, List.append_assoc, List.length_cons, readMany, hread]
    simp only [bind, Option.bind_some, ih hentries, pure]

end

/-- What was written is read back, whatever follows it. -/
theorem read_write {depth : Nat} {v : Value} (h : v.Fits depth) (rest : List UInt8) :
    read depth (write v ++ rest) = some (v, rest) := by
  induction depth generalizing v rest with
  | zero => exact h.elim
  | succ depth ih =>
    cases v with
    | nil => rw [write, read, readHead_writeHead (show Head.nil.Bounded from trivial)]; rfl
    | bool b => rw [write, read, readHead_writeHead (show (Head.bool b).Bounded from trivial)]; rfl
    | int n => rw [write, read, readHead_writeHead h]; rfl
    | float raw | str raw | bin raw =>
      rw [write, List.append_assoc, read, readHead_writeHead h]
      simp only [bind, Option.bind_some, readBytes_append, pure]
    | ext type data =>
      rw [write, List.append_assoc, read, readHead_writeHead h]
      simp only [bind, Option.bind_some, List.cons_append, readBytes_append, pure]
    | array items =>
      obtain ⟨hcount, hitems⟩ := h
      rw [write, List.append_assoc, read, readHead_writeHead hcount]
      simp only [bind, Option.bind_some, pure]
      rw [readMany_writeItems fun item hmem rest => ih (hitems item hmem) rest, Option.bind_some]
    | map entries =>
      obtain ⟨hcount, hentries⟩ := h
      rw [write, List.append_assoc, read, readHead_writeHead hcount]
      simp only [bind, Option.bind_some, pure]
      rw [readMany_writeEntries fun entry hmem rest =>
        ⟨ih (hentries entry hmem).1 rest, ih (hentries entry hmem).2 rest⟩, Option.bind_some]

end Msgpack
