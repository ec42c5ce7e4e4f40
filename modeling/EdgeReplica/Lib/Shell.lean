-- SUMMARY: How a POSIX shell cuts a text into the words of a simple command, and which words it takes as they stand.
import Mathlib.Algebra.Order.Group.Nat
import Mathlib.Algebra.Ring.Nat
import Mathlib.Data.List.Basic

/-!
# Simple commands

A shell reads a text character by character, with quotes and backslashes taken out of the
words. Only a text that is nothing but words is read here: an operator, a line end, a
comment or an expansion ends the reading without a result. A dollar sign expands only with
a parameter behind it, and a bracket is a pattern only if it is closed; otherwise both stand
for themselves. The first word is taken for a command name. Words joined by single spaces
are read back as themselves exactly if all of them are plain.
-/

namespace Shell

inductive Mode where
  | bare
  | escaped
  | single
  | double
  | doubleEscaped
deriving DecidableEq

/-- A character of a word. If it was quoted it is no part of a pattern. -/
structure Letter where
  char : Char
  quoted : Bool
deriving DecidableEq

def Letter.bare (c : Char) : Letter := ⟨c, false⟩

/-- The words that are done, the word being read, how the next character is read, and
whether the last one was a dollar sign that can still start an expansion. -/
structure Reader where
  words : List (List Letter) := []
  word : Option (List Letter) := none
  mode : Mode := .bare
  dollar : Bool := false
deriving DecidableEq

def isBlank (c : Char) : Bool := c ∈ [' ', '\t']

/-- Outside of quotes these end a command, redirect, or substitute a command. -/
def isSpecial (c : Char) : Bool :=
  c ∈ ['|', '&', ';', '<', '>', '(', ')', '\n', '\x60']

def isQuote (c : Char) : Bool := c ∈ ['\\', '\'', '"']

/-- At the start of a word: a comment, and the expansion of a home directory. -/
def isInitial (c : Char) : Bool := c ∈ ['#', '~']

/-- What makes an expansion of the dollar sign before it: a name, a positional or special
parameter, and the brackets of the other expansions. -/
def isParameter (c : Char) : Bool :=
  c.isAlphanum || c ∈ ['_', '@', '*', '#', '?', '-', '$', '!', '{', '(']

/-- Outside of quotes the dollar sign also belongs to a quote behind it. -/
def opens (mode : Mode) (c : Char) : Bool :=
  match mode with
  | .bare => isParameter c || c ∈ ['\'', '"']
  | .double => isParameter c
  | .escaped | .single | .doubleEscaped => false

namespace Reader

def push (r : Reader) (c : Char) (quoted : Bool) : Reader :=
  { r with word := some (r.word.getD [] ++ [⟨c, quoted⟩]), dollar := false }

/-- A character in which an expansion may start. -/
def take (r : Reader) (c : Char) (quoted : Bool) : Reader :=
  { r.push c quoted with dollar := c = '$' }

/-- Blanks end a word, if there is one. -/
def close (r : Reader) : Reader :=
  { r with words := r.words ++ r.word.toList, word := none, dollar := false }

/-- A quote begins a word, or goes on with it. -/
def quote (r : Reader) (mode : Mode) : Reader :=
  { r with word := some (r.word.getD []), mode := mode, dollar := false }

def stepBare (r : Reader) (c : Char) : Option Reader :=
  if isBlank c then some r.close
  else if isSpecial c then none
  else if r.word = none ∧ isInitial c then none
  else if c = '\\' then some { r with mode := .escaped }
  else if c = '\'' then some (r.quote .single)
  else if c = '"' then some (r.quote .double)
  else some (r.take c false)

def stepDouble (r : Reader) (c : Char) : Option Reader :=
  if c = '"' then some { r with mode := .bare, dollar := false }
  else if c = '\x60' then none
  else if c = '\\' then some { r with mode := .doubleEscaped }
  else some (r.take c true)

/-- The next character. A text has no NUL, and a backslash takes out a line end. -/
def step (r : Reader) (c : Char) : Option Reader :=
  if c = '\x00' then none
  else if r.dollar ∧ opens r.mode c then none
  else
    match r.mode with
    | .bare => r.stepBare c
    | .escaped =>
      if c = '\n' then some { r with mode := .bare }
      else some { r.push c true with mode := .bare }
    | .single => if c = '\'' then some { r with mode := .bare } else some (r.push c true)
    | .double => r.stepDouble c
    | .doubleEscaped =>
      if c = '\n' then some { r with mode := .double }
      else if c ∈ ['$', '\x60', '"', '\\'] then some { r.push c true with mode := .double }
      else some { (r.push '\\' true).push c true with mode := .double }

end Reader

def read (r : Reader) (text : List Char) : Option Reader := text.foldlM Reader.step r

/-! ## Patterns -/

/-- A bracket is closed before the next slash. -/
def closes : List Letter → Bool
  | [] => false
  | l :: rest => l = .bare ']' || l.char ≠ '/' && closes rest

/-- The first member of a bracket expression may be a closing bracket itself. -/
def isMembers : List Letter → Bool
  | [] => false
  | l :: rest => l.char ≠ '/' && closes rest

/-- What is behind the bracket that opens a bracket expression. -/
def isBracket (rest : List Letter) : Bool :=
  if rest.head? = some (.bare '!') ∨ rest.head? = some (.bare '^') then isMembers rest.tail
  else isMembers rest

/-- A word that is expanded to the names of files. -/
def isPattern : List Letter → Bool
  | [] => false
  | l :: rest =>
    l = .bare '*' || l = .bare '?' || (l = .bare '[' && isBracket rest) || isPattern rest

/-- The words of a text that is a simple command made of words alone. -/
def simpleCommand (text : List Char) : Option (List (List Char)) :=
  (read {} text).bind fun r =>
    let words := r.words ++ r.word.toList
    if r.mode = .bare ∧ ∀ w ∈ words, isPattern w = false then
      some (words.map (·.map Letter.char))
    else none

example : simpleCommand "a 'b c'd \\$x".toList = some ["a".toList, "b cd".toList, "$x".toList] ∧
    simpleCommand "a; b".toList = none := by decide

example : simpleCommand "a[b $ c$.".toList = some ["a[b".toList, "$".toList, "c$.".toList] ∧
    simpleCommand "a[b]".toList = none ∧ simpleCommand "$b".toList = none := by decide

/-- A character that stands for itself. -/
def isPlain (c : Char) : Bool := !isBlank c && !isSpecial c && !isQuote c && c ≠ '\x00'

/-- Some dollar sign has a parameter behind it. -/
def isExpansion : List Char → Bool
  | [] => false
  | c :: rest => c = '$' && rest.head?.any isParameter || isExpansion rest

/-- A word that is read as it stands, whatever it is then expanded to. -/
structure Literal (word : List Char) : Prop where
  ne_nil : word ≠ []
  chars : ∀ c ∈ word, isPlain c = true
  initial : ∀ c ∈ word.head?, isInitial c = false
  expansion : isExpansion word = false

/-- A word that stands for itself. -/
structure Plain (word : List Char) : Prop extends Literal word where
  pattern : isPattern (word.map .bare) = false

instance decidablePlain (word : List Char) : Decidable (Plain word) :=
  decidable_of_iff
    (word ≠ [] ∧ word.all isPlain = true ∧ word.head?.all (!isInitial ·) = true ∧
      isExpansion word = false ∧ isPattern (word.map .bare) = false) <| by
      rw [List.all_eq_true, Option.all_eq_true]
      simp only [Bool.not_eq_true']
      exact ⟨fun ⟨hne, hchars, hinitial, hexpansion, hpattern⟩ =>
          ⟨⟨hne, hchars, hinitial, hexpansion⟩, hpattern⟩,
        fun ⟨⟨hne, hchars, hinitial, hexpansion⟩, hpattern⟩ =>
          ⟨hne, hchars, hinitial, hexpansion, hpattern⟩⟩

theorem isExpansion_concat (word : List Char) (c : Char) :
    isExpansion (word ++ [c]) =
      (isExpansion word || word.getLast? = some '$' && isParameter c) := by
  induction word with
  | nil => simp [isExpansion]
  | cons d word ih =>
    rw [List.cons_append, isExpansion, isExpansion, ih]
    cases word with
    | nil => simp [isExpansion]
    | cons e word => simp [List.getLast?_cons, Bool.or_assoc]

/-! ## Quotes make no word longer -/

namespace Reader

/-- The length of the words, each with a blank behind it once it is done. -/
def length (r : Reader) : Nat :=
  (r.words.map fun w => w.length + 1).sum + r.word.elim 0 List.length

/-- In double quotes a backslash may still be kept. -/
def pending : Mode → Nat
  | .doubleEscaped => 1
  | .bare | .escaped | .single | .double => 0

def size (r : Reader) : Nat := r.length + pending r.mode

theorem length_push (r : Reader) (c : Char) (quoted : Bool) :
    (r.push c quoted).length = r.length + 1 := by
  unfold length push
  cases r.word <;> simp +arith

theorem length_take (r : Reader) (c : Char) (quoted : Bool) :
    (r.take c quoted).length = r.length + 1 := length_push r c quoted

theorem length_quote (r : Reader) (mode : Mode) : (r.quote mode).length = r.length := by
  unfold length quote
  cases r.word <;> rfl

theorem length_close {r : Reader} {w : List Letter} (h : r.word = some w) :
    r.close.length = r.length + 1 := by
  unfold length close
  simp +arith [h]

theorem length_close_of_none {r : Reader} (h : r.word = none) : r.close.length = r.length := by
  unfold length close
  simp [h]

theorem size_take (r : Reader) (c : Char) (quoted : Bool) :
    (r.take c quoted).size = r.size + 1 := by
  rw [size, size, length_take, Nat.add_right_comm]
  rfl

theorem size_close {r : Reader} {w : List Letter} (h : r.word = some w) :
    r.close.size = r.size + 1 := by
  rw [size, size, length_close h, Nat.add_right_comm]
  rfl

theorem length_le_size (r : Reader) : r.length ≤ r.size := Nat.le_add_right _ _

/-- Between quotes a character is taken as it stands, or ends a word, or is lost. -/
inductive Taken (r : Reader) (c : Char) (r' : Reader) : Prop where
  | plain (hc : isPlain c = true) (hinitial : r.word = none → isInitial c = false)
      (heq : r' = r.take c false)
  | blank (hc : isBlank c = true) (w : List Letter) (hw : r.word = some w) (heq : r' = r.close)
  | lost (hsize : r'.size ≤ r.size)

theorem taken_of_stepBare {r r' : Reader} {c : Char} (hnul : c ≠ '\x00')
    (h : r.stepBare c = some r') : Taken r c r' := by
  unfold stepBare at h
  split at h
  · next hblank =>
    obtain rfl := Option.some.inj h
    cases hw : r.word with
    | none => exact .lost (Nat.add_le_add_right (length_close_of_none hw).le _)
    | some w => exact .blank hblank w hw rfl
  split at h
  · cases h
  split at h
  · cases h
  next hblank hspecial hinitial =>
  split at h
  · obtain rfl := Option.some.inj h
    exact .lost r.length_le_size
  split at h
  · obtain rfl := Option.some.inj h
    exact .lost ((length_quote r .single).trans_le r.length_le_size)
  split at h
  · obtain rfl := Option.some.inj h
    exact .lost ((length_quote r .double).trans_le r.length_le_size)
  · next hbackslash hsingle hdouble =>
    refine .plain ?_ ?_ (Option.some.inj h).symm
    · simp [isPlain, isQuote, hblank, hspecial, hbackslash, hsingle, hdouble, hnul]
    · intro hw
      simpa [hw] using hinitial

theorem Taken.size_le {r r' : Reader} {c : Char} (h : Taken r c r') : r'.size ≤ r.size + 1 := by
  cases h with
  | plain hc hinitial heq => rw [heq, size_take]
  | blank hc w hw heq => rw [heq, size_close hw]
  | lost hsize => exact Nat.le_succ_of_le hsize

/-- A character adds at most itself to the words. -/
theorem size_step {r r' : Reader} {c : Char} (h : r.step c = some r') :
    r'.size ≤ r.size + 1 := by
  have hlength := r.length_le_size
  have hpush := (length_push r c true).le
  unfold step at h
  split at h
  · cases h
  next hnul =>
  split at h
  · cases h
  split at h
  · exact (taken_of_stepBare hnul h).size_le
  · split at h <;> obtain rfl := Option.some.inj h
    · exact Nat.le_succ_of_le hlength
    · exact hpush.trans (Nat.succ_le_succ hlength)
  · next hmode =>
    split at h <;> obtain rfl := Option.some.inj h
    · exact Nat.le_succ_of_le hlength
    · have hzero : (r.push c true).size = (r.push c true).length := by
        show _ + pending r.mode = _
        rw [hmode]
        rfl
      exact hzero.trans_le (hpush.trans (Nat.succ_le_succ hlength))
  · unfold stepDouble at h
    split at h
    · obtain rfl := Option.some.inj h
      exact Nat.le_succ_of_le hlength
    split at h
    · cases h
    split at h <;> obtain rfl := Option.some.inj h
    · exact Nat.succ_le_succ hlength
    · exact (size_take r c true).le
  · next hmode =>
    have hsize : r.size = r.length + 1 := by rw [size, hmode]; rfl
    rw [hsize]
    split at h
    · obtain rfl := Option.some.inj h
      exact Nat.le_add_right r.length 2
    split at h <;> obtain rfl := Option.some.inj h
    · exact hpush.trans (Nat.le_succ _)
    · exact (length_push (r.push '\\' true) c true).le.trans
        (Nat.succ_le_succ (length_push r '\\' true).le)

/-- All of the words are read as they stand, and of these characters. -/
structure Clean (P : Char → Prop) (r : Reader) : Prop where
  bare : r.mode = .bare
  words : ∀ w ∈ r.words ++ r.word.toList,
    ∃ text : List Char, w = text.map Letter.bare ∧ Literal text ∧ ∀ c ∈ text, P c
  dollar : ∀ text : List Char, r.word = some (text.map Letter.bare) → text.getLast? = some '$' →
    r.dollar = true

variable {P : Char → Prop} {r r' : Reader} {c : Char}

theorem clean_empty : Clean P {} where
  bare := rfl
  words := nofun
  dollar := nofun

theorem literal_singleton (hc : isPlain c = true) (hinitial : isInitial c = false) :
    Literal [c] where
  ne_nil := List.cons_ne_nil _ _
  chars := by simpa using hc
  initial := by simpa using hinitial
  expansion := by simp [isExpansion]

theorem literal_concat {text : List Char} (h : Literal text) (hc : isPlain c = true)
    (hdollar : text.getLast? = some '$' → isParameter c = false) : Literal (text ++ [c]) where
  ne_nil := by simp
  chars := by simpa [or_imp, forall_and] using ⟨h.chars, hc⟩
  initial := by
    cases text with
    | nil => exact absurd rfl h.ne_nil
    | cons d text => exact h.initial
  expansion := by
    rw [isExpansion_concat, h.expansion, Bool.false_or, Bool.and_eq_false_imp]
    intro hlast
    exact hdollar (of_decide_eq_true hlast)

theorem Clean.take (h : Clean P r) (hc : isPlain c = true)
    (hinitial : r.word = none → isInitial c = false)
    (hparameter : r.dollar = true → isParameter c = false) (hP : P c) :
    Clean P (r.take c false) where
  bare := h.bare
  words := by
    intro w hmem
    rcases List.mem_append.mp hmem with hmem | hmem
    · exact h.words w (List.mem_append_left _ hmem)
    obtain rfl : r.word.getD [] ++ [.bare c] = w := by
      simpa [Reader.take, Reader.push, Letter.bare, eq_comm] using hmem
    cases hword : r.word with
    | none => exact ⟨[c], rfl, literal_singleton hc (hinitial hword), by simpa using hP⟩
    | some w =>
      obtain ⟨text, rfl, hliteral, hchars⟩ := h.words w (List.mem_append_right _ (by simp [hword]))
      refine ⟨text ++ [c], by simp, literal_concat hliteral hc fun hlast => ?_, ?_⟩
      · exact hparameter (h.dollar text hword hlast)
      · simpa [or_imp, forall_and] using ⟨hchars, hP⟩
  dollar := by
    intro text hword hlast
    obtain ⟨before, rfl⟩ := List.getLast?_eq_some_iff.mp hlast
    have hlast' := congrArg List.getLast? (Option.some.inj hword)
    simp only [List.map_append, List.map_cons, List.map_nil, List.getLast?_concat,
      Option.some.injEq] at hlast'
    exact decide_eq_true (congrArg Letter.char hlast')

theorem Clean.close (h : Clean P r) : Clean P r.close where
  bare := h.bare
  words := by simpa [Reader.close] using h.words
  dollar := nofun

/-- A character that is not lost keeps the words clean. -/
theorem Clean.step (h : Clean P r) (hP : P c) (hstep : r.step c = some r')
    (hfull : r.size + 1 ≤ r'.size) : Clean P r' := by
  unfold Reader.step at hstep
  split at hstep
  · cases hstep
  next hnul =>
  split at hstep
  · cases hstep
  next hopens =>
  rw [h.bare] at hstep hopens
  have hparameter (hdollar : r.dollar = true) : isParameter c = false := by
    have hclosed : opens .bare c = false := by simpa [hdollar] using hopens
    exact (Bool.or_eq_false_iff.mp hclosed).1
  cases taken_of_stepBare hnul hstep with
  | plain hc hinitial heq => exact heq ▸ h.take hc hinitial hparameter hP
  | blank hc w hw heq => exact heq ▸ h.close
  | lost hsize => exact absurd hfull (Nat.not_le.mpr (Nat.lt_succ_of_le hsize))

end Reader

open Reader (size_step)

theorem read_cons {r r' : Reader} {c : Char} {text : List Char} :
    read r (c :: text) = some r' ↔ ∃ r₁, r.step c = some r₁ ∧ read r₁ text = some r' := by
  rw [read, List.foldlM_cons]
  exact Option.bind_eq_some_iff

theorem size_read {r r' : Reader} {text : List Char} (h : read r text = some r') :
    r'.size ≤ r.size + text.length := by
  induction text generalizing r with
  | nil =>
    obtain rfl := Option.some.inj h
    exact Nat.le_refl _
  | cons c text ih =>
    obtain ⟨r₁, hstep, hread⟩ := read_cons.mp h
    have hfirst := size_step hstep
    have hrest := ih hread
    rw [List.length_cons]
    omega

/-- A text that is not lost in part is clean words. -/
theorem clean_read {P : Char → Prop} {r r' : Reader} {text : List Char}
    (hr : Reader.Clean P r) (hP : ∀ c ∈ text, P c) (h : read r text = some r')
    (hfull : r.size + text.length ≤ r'.size) : Reader.Clean P r' := by
  induction text generalizing r with
  | nil =>
    obtain rfl := Option.some.inj h
    exact hr
  | cons c text ih =>
    obtain ⟨hc, htext⟩ := List.forall_mem_cons.mp hP
    obtain ⟨r₁, hstep, hread⟩ := read_cons.mp h
    have hfirst := size_step hstep
    have hrest := size_read hread
    rw [List.length_cons] at hfull
    exact ih (hr.step hc hstep (by omega)) htext hread (by omega)

theorem map_char_bare (text : List Char) : (text.map Letter.bare).map Letter.char = text := by
  rw [List.map_map]
  exact List.map_id text

/-- Words that are as long as their text are plain. -/
theorem plain_of_simpleCommand {text : List Char} {words : List (List Char)}
    (h : simpleCommand text = some words)
    (hlength : text.length + 1 ≤ (words.map fun w => w.length + 1).sum) :
    ∀ w ∈ words, Plain w ∧ ∀ c ∈ w, c ∈ text := by
  obtain ⟨r, hread, h⟩ := Option.bind_eq_some_iff.mp h
  dsimp only at h
  split at h
  · next hdone =>
    obtain ⟨hbare, hpattern⟩ := hdone
    obtain rfl := Option.some.inj h
    have hsize : r.size = r.length := by rw [Reader.size, hbare]; rfl
    have hbound := size_read hread
    have hzero : (({} : Reader)).size = 0 := rfl
    have hfull : text.length ≤ r.size := by
      rw [hsize, Reader.length]
      cases hword : r.word with
      | none =>
        rw [hword] at hlength
        simp [Function.comp_def] at hlength ⊢
        omega
      | some w =>
        rw [hword] at hlength
        simp [Function.comp_def] at hlength ⊢
        omega
    have hclean : Reader.Clean (· ∈ text) r := by
      refine clean_read Reader.clean_empty (fun _ hc => hc) hread ?_
      rw [hzero, Nat.zero_add]
      exact hfull
    intro w hw
    obtain ⟨letters, hletters, rfl⟩ := List.mem_map.mp hw
    obtain ⟨chars, rfl, hliteral, hmem⟩ := hclean.words letters hletters
    rw [map_char_bare]
    exact ⟨⟨hliteral, hpattern _ hletters⟩, hmem⟩
  · cases h

/-! ## Plain words are read as they stand -/

theorem step_plain {r : Reader} {c : Char} (hbare : r.mode = .bare) (hc : isPlain c = true)
    (hinitial : r.word = none → isInitial c = false)
    (hparameter : r.dollar = true → isParameter c = false) :
    r.step c = some (r.take c false) := by
  simp only [isPlain, isQuote, Bool.and_eq_true, Bool.not_eq_true', List.mem_cons,
    List.not_mem_nil, or_false, decide_eq_true_eq, decide_eq_false_iff_not, not_or] at hc
  obtain ⟨⟨⟨hblank, hspecial⟩, hbackslash, hsingle, hdouble⟩, hnul⟩ := hc
  have hstart : ¬ (r.word = none ∧ isInitial c = true) := by
    rintro ⟨hword, h⟩
    rw [hinitial hword] at h
    cases h
  have hclosed : ¬ (r.dollar = true ∧ opens .bare c = true) := by
    rintro ⟨hdollar, h⟩
    simp [opens, hparameter hdollar, hsingle, hdouble] at h
  unfold Reader.step
  rw [if_neg hnul, hbare, if_neg hclosed]
  simp [Reader.stepBare, hblank, hspecial, hstart, hbackslash, hsingle, hdouble]

theorem read_plain {words : List (List Letter)} {w : List Letter} {text : List Char}
    {dollar : Bool} (hchars : ∀ c ∈ text, isPlain c = true) (hexpansion : isExpansion text = false)
    (hparameter : dollar = true → ∀ c ∈ text.head?, isParameter c = false) :
    ∃ dollar', read ⟨words, some w, .bare, dollar⟩ text =
      some ⟨words, some (w ++ text.map .bare), .bare, dollar'⟩ := by
  induction text generalizing w dollar with
  | nil =>
    rw [List.map_nil, List.append_nil]
    exact ⟨dollar, rfl⟩
  | cons c text ih =>
    obtain ⟨hc, htext⟩ := List.forall_mem_cons.mp hchars
    rw [isExpansion, Bool.or_eq_false_iff, Bool.and_eq_false_imp] at hexpansion
    obtain ⟨hfirst, hrest⟩ := hexpansion
    obtain ⟨dollar', hread⟩ := @ih (w ++ [.bare c]) (c = '$') htext hrest fun hdollar d hd => by
      have hany := hfirst hdollar
      rw [hd] at hany
      exact hany
    refine ⟨dollar', read_cons.mpr ⟨_, step_plain rfl hc nofun fun hdollar => ?_, ?_⟩⟩
    · exact hparameter hdollar c rfl
    · rw [List.map_cons, List.append_cons]
      exact hread

/-- A plain word is read between blanks. -/
theorem read_word {words : List (List Letter)} {w : List Char} (h : Literal w) :
    ∃ dollar, read ⟨words, none, .bare, false⟩ w =
      some ⟨words, some (w.map .bare), .bare, dollar⟩ := by
  cases w with
  | nil => exact absurd rfl h.ne_nil
  | cons c w =>
    obtain ⟨hc, hw⟩ := List.forall_mem_cons.mp h.chars
    have hexpansion := h.expansion
    rw [isExpansion, Bool.or_eq_false_iff, Bool.and_eq_false_imp] at hexpansion
    obtain ⟨dollar, hread⟩ := @read_plain words [.bare c] w (c = '$') hw hexpansion.2
      fun hdollar d hd => by
        have hany := hexpansion.1 hdollar
        rw [hd] at hany
        exact hany
    exact ⟨dollar, read_cons.mpr ⟨_, step_plain rfl hc (fun _ => h.initial c rfl) nofun, hread⟩⟩

theorem read_append (r : Reader) (text text' : List Char) :
    read r (text ++ text') = (read r text).bind fun r => read r text' := List.foldlM_append

theorem step_space (words : List (List Letter)) (w : List Letter) (dollar : Bool) :
    Reader.step ⟨words, some w, .bare, dollar⟩ ' ' =
      some ⟨words ++ [w], none, .bare, false⟩ := by
  cases dollar <;> rfl

/-- The words of a text, joined by spaces, are read one after the other. -/
theorem read_intercalate {before : List (List Letter)} {words : List (List Char)}
    {w : List Char} (hw : Literal w) (hwords : ∀ w ∈ words, Literal w) :
    ∃ r, read ⟨before, none, .bare, false⟩ ([' '].intercalate (w :: words)) = some r ∧
      r.mode = .bare ∧
      r.words ++ r.word.toList = before ++ (w :: words).map (·.map .bare) := by
  induction words generalizing before w with
  | nil =>
    obtain ⟨dollar, hread⟩ := @read_word before w hw
    rw [List.intercalate_singleton]
    exact ⟨_, hread, rfl, rfl⟩
  | cons w' words ih =>
    obtain ⟨hw', hrest⟩ := List.forall_mem_cons.mp hwords
    obtain ⟨dollar, hword⟩ := @read_word before w hw
    obtain ⟨r, hread, hbare, heq⟩ := @ih (before ++ [w.map .bare]) w' hw' hrest
    refine ⟨r, ?_, hbare, heq.trans (List.append_assoc _ _ _)⟩
    rw [List.intercalate_cons_cons, List.append_assoc, read_append, hword]
    exact read_cons.mpr ⟨_, step_space before _ dollar, hread⟩

theorem simpleCommand_of_plain {words : List (List Char)} (hne : words ≠ [])
    (hwords : ∀ w ∈ words, Plain w) :
    simpleCommand ([' '].intercalate words) = some words := by
  cases words with
  | nil => exact absurd rfl hne
  | cons w words =>
    obtain ⟨hw, hrest⟩ := List.forall_mem_cons.mp hwords
    obtain ⟨r, hread, hbare, heq⟩ :=
      @read_intercalate [] words w hw.toLiteral fun w hw => (hrest w hw).toLiteral
    have hpattern : ∀ letters ∈ (w :: words).map (·.map Letter.bare),
        isPattern letters = false := by
      intro letters hletters
      obtain ⟨text, htext, rfl⟩ := List.mem_map.mp hletters
      exact (hwords text htext).pattern
    rw [simpleCommand]
    refine Option.bind_eq_some_iff.mpr ⟨r, hread, ?_⟩
    dsimp only
    rw [heq, List.nil_append, if_pos ⟨hbare, hpattern⟩, List.map_map]
    refine congrArg some ((List.map_congr_left fun text _ => ?_).trans (List.map_id _))
    exact map_char_bare text

theorem length_intercalate {words : List (List Char)} (hne : words ≠ []) :
    ([' '].intercalate words).length + 1 = (words.map fun w => w.length + 1).sum := by
  induction words with
  | nil => exact absurd rfl hne
  | cons w words ih =>
    cases words with
    | nil => simp
    | cons w' words =>
      have hrest := ih (List.cons_ne_nil _ _)
      rw [List.intercalate_cons_cons, List.map_cons, List.sum_cons, ← hrest]
      simp +arith

end Shell
