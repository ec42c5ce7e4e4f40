-- SUMMARY: Operations on text, by its characters: trimming and splitting.
import Mathlib.Algebra.Ring.Nat
import Mathlib.Data.List.DropRight
import Mathlib.Data.List.Infix

/-!
# Text

A string is the list of its Unicode scalar values. White space is what has the
Unicode property `White_Space`.
-/

namespace Text

def isWhitespace (c : Char) : Bool :=
  (0x9 ≤ c.toNat && c.toNat ≤ 0xD) || (0x2000 ≤ c.toNat && c.toNat ≤ 0x200A) ||
    c.toNat ∈ [0x20, 0x85, 0xA0, 0x1680, 0x2028, 0x2029, 0x202F, 0x205F, 0x3000]

/-- What holds of some characters holds of a text of them. A literal is such a text, and need
not be decoded from its bytes. -/
theorem of_join {P : List Char → Prop} {l : List (List Char)} (h : P l.flatten) :
    P (String.join (l.map String.ofList)).toList := by
  have hmap : (l.map String.ofList).flatMap String.toList = l.flatten := by
    rw [List.flatMap_map, List.flatMap_congr fun _ _ => String.toList_ofList]
    exact List.flatMap_id
  rwa [String.toList_join, hmap]

/-- What holds of the characters of a text is checked character by character. -/
theorem forall_of_all {P : Char → Prop} [DecidablePred P] {chars : List Char}
    (h : chars.all (fun c => decide (P c)) = true) : ∀ c ∈ chars, P c :=
  fun c hc => of_decide_eq_true (List.all_eq_true.mp h c hc)

/-- Drop the white space at both ends. -/
def trim (s : String) : String :=
  .ofList ((s.toList.dropWhile isWhitespace).reverse.dropWhile isWhitespace).reverse

/-! ## Dropping at both ends -/

section Dropping

variable {α : Type} {p : α → Bool} {l : List α}

theorem exists_dropped (p : α → Bool) (l : List α) :
    ∃ before after, (∀ a ∈ before, p a = true) ∧ (∀ a ∈ after, p a = true) ∧
      l = before ++ (l.dropWhile p).rdropWhile p ++ after := by
  refine ⟨l.takeWhile p, (l.dropWhile p).rtakeWhile p, fun a ha => List.mem_takeWhile_imp ha,
    fun a ha => List.mem_rtakeWhile_imp ha, ?_⟩
  rw [List.append_assoc, List.rdropWhile_append_rtakeWhile, List.takeWhile_append_dropWhile]

theorem of_mem_head?_dropped {a : α} (h : a ∈ ((l.dropWhile p).rdropWhile p).head?) :
    p a = false := by
  have hhead : a ∈ (l.dropWhile p).head? :=
    List.singleton_prefix_iff_head?_eq_some.mp
      ((List.singleton_prefix_iff_head?_eq_some.mpr h).trans (List.rdropWhile_prefix p _))
  have hnot := List.head?_dropWhile_not p l
  rw [hhead] at hnot
  exact hnot

theorem of_mem_getLast?_dropped {a : α} (h : a ∈ ((l.dropWhile p).rdropWhile p).getLast?) :
    p a = false := by
  obtain ⟨hne, rfl⟩ := List.mem_getLast?_eq_getLast h
  exact Bool.eq_false_iff.mpr (List.rdropWhile_last_not p _ hne)

theorem dropWhile_of_head? (h : ∀ a ∈ l.head?, p a = false) : l.dropWhile p = l := by
  cases l with
  | nil => rfl
  | cons a l => exact List.dropWhile_cons_of_neg (Bool.eq_false_iff.mp (h a rfl))

end Dropping

/-! ## Trimming -/

def Blank (chars : List Char) : Prop := ∀ c ∈ chars, isWhitespace c = true

instance (chars : List Char) : Decidable (Blank chars) :=
  decidable_of_iff (chars.all isWhitespace = true) List.all_eq_true

/-- There is no white space at either end. -/
def Trimmed (chars : List Char) : Prop :=
  (∀ c ∈ chars.head?, isWhitespace c = false) ∧ ∀ c ∈ chars.getLast?, isWhitespace c = false

instance (chars : List Char) : Decidable (Trimmed chars) :=
  decidable_of_iff
    (chars.head?.all (!isWhitespace ·) = true ∧ chars.getLast?.all (!isWhitespace ·) = true) <| by
      rw [Trimmed, Option.all_eq_true, Option.all_eq_true]
      simp only [Bool.not_eq_true', Option.mem_def]

theorem toList_trim (s : String) :
    (trim s).toList = (s.toList.dropWhile isWhitespace).rdropWhile isWhitespace := by
  rw [trim, String.toList_ofList, List.rdropWhile]

/-- What is dropped is white space. -/
theorem exists_pad (s : String) :
    ∃ before after, Blank before ∧ Blank after ∧
      s.toList = before ++ (trim s).toList ++ after := by
  rw [toList_trim]
  exact exists_dropped isWhitespace s.toList

theorem trimmed_trim (s : String) : Trimmed (trim s).toList := by
  rw [toList_trim]
  exact ⟨fun _ hc => of_mem_head?_dropped hc, fun _ hc => of_mem_getLast?_dropped hc⟩

/-- White space around a text is all that is dropped. -/
theorem trim_pad {before core after : List Char} (hbefore : Blank before) (hafter : Blank after)
    (hcore : Trimmed core) : trim (.ofList (before ++ core ++ after)) = .ofList core := by
  have hback : after.reverse.dropWhile isWhitespace = [] :=
    List.dropWhile_eq_nil_iff.mpr fun c hc => hafter c (List.mem_reverse.mp hc)
  rw [trim, String.toList_ofList, List.append_assoc, List.dropWhile_append_of_pos hbefore]
  cases core with
  | nil => rw [List.nil_append, List.dropWhile_eq_nil_iff.mpr hafter]; rfl
  | cons c core =>
    have hfront : (c :: core ++ after).dropWhile isWhitespace = c :: core ++ after :=
      dropWhile_of_head? hcore.1
    have hlast : ∀ d ∈ (c :: core).reverse.head?, isWhitespace d = false := by
      rw [List.head?_reverse]
      exact hcore.2
    rw [hfront, List.reverse_append, List.dropWhile_append, hback]
    simp only [List.isEmpty_nil, if_true]
    rw [dropWhile_of_head? hlast, List.reverse_reverse]

theorem trim_eq_self {s : String} (h : Trimmed s.toList) : trim s = s := by
  have hpad : trim (.ofList ([] ++ s.toList ++ [])) = .ofList s.toList :=
    trim_pad (List.forall_mem_nil _) (List.forall_mem_nil _) h
  rwa [List.nil_append, List.append_nil, String.ofList_toList] at hpad

theorem trim_eq_empty {s : String} : trim s = "" ↔ Blank s.toList := by
  constructor
  · intro h
    obtain ⟨before, after, hbefore, hafter, hs⟩ := exists_pad s
    rw [h] at hs
    rw [hs]
    intro c hc
    rcases List.mem_append.mp hc with hc | hc
    · exact hbefore c (by simpa using hc)
    · exact hafter c hc
  · intro h
    have hpad : trim (.ofList (s.toList ++ [] ++ [])) = .ofList [] :=
      trim_pad h (List.forall_mem_nil _) (by decide)
    rwa [List.append_nil, List.append_nil, String.ofList_toList] at hpad

/-- Drop the characters `c` at the end. -/
def trimEndMatches (s : String) (c : Char) : String :=
  .ofList (s.toList.reverse.dropWhile (· = c)).reverse

/-- The text before and after the first `c`. -/
def splitOnce (s : String) (c : Char) : Option (String × String) :=
  match s.toList.span (· ≠ c) with
  | (_, []) => none
  | (before, _ :: after) => some (.ofList before, .ofList after)

theorem splitOnce_append {s before after : String} {c : Char}
    (hs : s.toList = before.toList ++ c :: after.toList) (hc : c ∉ before.toList) :
    splitOnce s c = some (before, after) := by
  have hbefore : ∀ d ∈ before.toList, decide (d ≠ c) = true := by
    intro d hd
    exact decide_eq_true fun heq => hc (heq ▸ hd)
  rw [splitOnce, hs, List.span_eq_takeWhile_dropWhile, List.takeWhile_append_of_pos hbefore,
    List.dropWhile_append_of_pos hbefore]
  simp

/-- The pieces between the characters `c`. -/
def split (s : String) (c : Char) : List String := (s.toList.splitOn c).map .ofList

def startsWith (s text : String) : Bool := text.toList.isPrefixOf s.toList

def endsWith (s text : String) : Bool := text.toList.isSuffixOf s.toList

/-- Does the text occur in `s`? -/
def contains (s text : String) : Bool := decide (text.toList <:+: s.toList)

/-- Are the texts equal up to the case of ASCII letters? -/
def eqIgnoreAsciiCase (s t : String) : Bool :=
  s.toList.map Char.toLower == t.toList.map Char.toLower

/-- The lower case of a text, by the Unicode tables. -/
class Lowercase where
  toLowercase : String → String

/-- Lower case for text of ASCII characters. -/
abbrev Lowercase.ascii : Lowercase := ⟨fun s => .ofList (s.toList.map Char.toLower)⟩

/-! ## Bytes -/

def utf8Size (chars : List Char) : Nat := (chars.map Char.utf8Size).sum

theorem utf8Size_cons (c : Char) (chars : List Char) :
    utf8Size (c :: chars) = c.utf8Size + utf8Size chars := List.sum_cons

theorem utf8Size_append (chars rest : List Char) :
    utf8Size (chars ++ rest) = utf8Size chars + utf8Size rest := by
  rw [utf8Size, List.map_append, List.sum_append]
  rfl

theorem utf8Size_pos {chars : List Char} (h : chars ≠ []) : 0 < utf8Size chars := by
  obtain ⟨c, chars, rfl⟩ := List.exists_cons_of_ne_nil h
  rw [utf8Size_cons]
  exact Nat.add_pos_left c.utf8Size_pos _

theorem utf8ByteSize_eq (s : String) : s.utf8ByteSize = utf8Size s.toList := by
  have hchars : ∀ chars : List Char, (String.ofList chars).utf8ByteSize = utf8Size chars := by
    intro chars
    induction chars with
    | nil => rfl
    | cons c chars ih =>
      rw [← List.singleton_append, String.ofList_append, String.utf8ByteSize_append, ih,
        ← String.singleton_eq_ofList, String.utf8ByteSize_singleton]
      rfl
  rw [← hchars s.toList, String.ofList_toList]

/-- The characters before and after byte `n`, unless that byte is inside a character. -/
def splitAtByte : List Char → Nat → Option (List Char × List Char)
  | chars, 0 => some ([], chars)
  | [], _ + 1 => none
  | c :: chars, n + 1 =>
    if c.utf8Size ≤ n + 1 then
      (splitAtByte chars (n + 1 - c.utf8Size)).map fun (before, after) => (c :: before, after)
    else none

theorem splitAtByte_eq_some {chars before after : List Char} {n : Nat} :
    splitAtByte chars n = some (before, after) ↔
      chars = before ++ after ∧ utf8Size before = n := by
  induction chars, n using splitAtByte.induct generalizing before with
  | case1 chars =>
    rw [splitAtByte]
    constructor
    · rintro ⟨⟩
      exact ⟨rfl, rfl⟩
    · rintro ⟨rfl, hsize⟩
      cases before with
      | nil => rfl
      | cons c before => exact absurd hsize (Nat.ne_of_gt (utf8Size_pos (List.cons_ne_nil c _)))
  | case2 n =>
    constructor
    · rintro ⟨⟩
    · rintro ⟨hnil, hsize⟩
      rw [(List.append_eq_nil_iff.mp hnil.symm).1] at hsize
      cases hsize
  | case3 c chars n hle ih =>
    rw [splitAtByte, if_pos hle, Option.map_eq_some_iff]
    constructor
    · rintro ⟨⟨before', after'⟩, hsplit, heq⟩
      obtain ⟨rfl, rfl⟩ := Prod.mk.inj heq
      obtain ⟨rfl, hsize⟩ := ih.mp hsplit
      refine ⟨rfl, ?_⟩
      rw [utf8Size_cons, hsize, Nat.add_sub_cancel' hle]
    · rintro ⟨heq, hsize⟩
      cases before with
      | nil => cases hsize
      | cons d before =>
        obtain ⟨rfl, rfl⟩ := List.cons.inj heq
        rw [utf8Size_cons] at hsize
        exact ⟨(before, after), ih.mpr ⟨rfl, by omega⟩, rfl⟩
  | case4 c chars n hlt =>
    rw [splitAtByte, if_neg hlt]
    constructor
    · rintro ⟨⟩
    · rintro ⟨heq, hsize⟩
      cases before with
      | nil => cases hsize
      | cons d before =>
        obtain ⟨rfl, rfl⟩ := List.cons.inj heq
        rw [utf8Size_cons] at hsize
        omega

/-- No character begins before byte `n` and ends after it. -/
def IsCharBoundary (s : String) (n : Nat) : Prop :=
  ∃ before after, s.toList = before ++ after ∧ utf8Size before = n

theorem splitAtByte_isSome {s : String} {n : Nat} :
    (splitAtByte s.toList n).isSome = true ↔ IsCharBoundary s n := by
  rw [Option.isSome_iff_exists]
  exact ⟨fun ⟨(before, after), h⟩ => ⟨before, after, splitAtByte_eq_some.mp h⟩,
    fun ⟨before, after, h⟩ => ⟨(before, after), splitAtByte_eq_some.mpr h⟩⟩

instance (s : String) (n : Nat) : Decidable (IsCharBoundary s n) :=
  decidable_of_iff _ splitAtByte_isSome

example : trim "\t a b\u3000" = "a b" := by decide

example : splitOnce "a@b@c" '@' = some ("a", "b@c") := by decide

end Text
