-- SUMMARY: Where the tokens, the comments and the white space of an SQL text are.
import EdgeReplica.Lib.Letters
import Mathlib.Data.List.SplitLengths

/-!
# The lexical structure of SQL

A text is read from the left, with a look at the next character. Strings, quoted
identifiers and block comments are read to their ends; with them, whatever is not white
space, a semicolon or a `--` comment belongs to a token.
-/

namespace SqlLexer

open Letters

inductive Kind where
  | space
  | token
  | comment
  | semicolon
deriving DecidableEq, Repr, Inhabited

variable {α : Type}

def isToken (x : α × Kind) : Bool := x.2 == .token

/-- The letters of the tokens. -/
def letters (text : List (α × Kind)) : List α := (text.filter isToken).map Prod.fst

/-- What is between white space, comments and semicolons. -/
def words (text : List (α × Kind)) : List (List α) :=
  ((text.splitOnP fun x => !isToken x).filter fun word => !word.isEmpty).map (List.map Prod.fst)

/-- What is between the semicolons that end a statement. -/
def statements (text : List (α × Kind)) : List (List (α × Kind)) :=
  text.splitOnP fun x => x.2 == .semicolon

section Words

variable {text text' : List (α × Kind)}

theorem words_append_cons {sep : α × Kind} (hsep : isToken sep = false)
    (text text' : List (α × Kind)) : words (text ++ sep :: text') = words text ++ words text' := by
  rw [words, List.splitOnP_append_cons _ _ (by rw [hsep]; rfl), List.filter_append, List.map_append]
  rfl

theorem words_append (h : ∀ x ∈ text, isToken x = false) : words (text ++ text') = words text' := by
  induction text with
  | nil => rfl
  | cons x text ih =>
    have happend := words_append_cons (h x List.mem_cons_self) [] (text ++ text')
    rw [List.nil_append] at happend
    rw [List.cons_append, happend, ih fun y hy => h y (List.mem_cons_of_mem x hy)]
    rfl

theorem words_eq_nil (h : ∀ x ∈ text, isToken x = false) : words text = [] := by
  rw [← List.append_nil text, words_append h]
  rfl

theorem words_append_right (h : ∀ x ∈ text', isToken x = false) :
    words (text ++ text') = words text := by
  cases text' with
  | nil => rw [List.append_nil]
  | cons x text' =>
    rw [words_append_cons (h x List.mem_cons_self),
      words_eq_nil fun y hy => h y (List.mem_cons_of_mem x hy), List.append_nil]

theorem letters_append (text text' : List (α × Kind)) :
    letters (text ++ text') = letters text ++ letters text' := by
  rw [letters, List.filter_append, List.map_append]
  rfl

theorem letters_append_cons {sep : α × Kind} (hsep : isToken sep = false)
    (text text' : List (α × Kind)) :
    letters (text ++ sep :: text') = letters text ++ letters text' := by
  rw [letters_append, letters, letters, letters,
    List.filter_cons_of_neg (Bool.eq_false_iff.mp hsep)]

theorem letters_eq_nil : letters text = [] ↔ ∀ x ∈ text, isToken x = false := by
  rw [letters, List.map_eq_nil_iff, List.filter_eq_nil_iff]
  exact forall₂_congr fun x _ => Bool.not_eq_true _ ▸ Iff.rfl

theorem flatten_words (text : List (α × Kind)) : (words text).flatten = letters text := by
  have hpart : ∀ part : List (α × Kind), (∀ x ∈ part, (!isToken x) = false) →
      (words part).flatten = letters part := by
    intro part htoken
    have hfilter : part.filter isToken = part :=
      List.filter_eq_self.mpr fun x hx => by simpa using htoken x hx
    rw [words, letters, List.splitOnP_eq_singleton htoken, hfilter]
    cases part <;> simp
  induction text using splitOnP_rec (fun x => !isToken x) with
  | single part htoken => exact hpart part htoken
  | split part sep rest htoken hsep ih =>
    have hkind : isToken sep = false := by simpa using hsep
    rw [words_append_cons hkind, letters_append_cons hkind, List.flatten_append, ih,
      hpart part htoken]

theorem letters_eq_flatMap_statements (text : List (α × Kind)) :
    letters text = (statements text).flatMap letters :=
  eq_flatMap_splitOnP fun part sep rest _ hsep => by
    refine letters_append_cons ?_ part rest
    rw [isToken, beq_iff_eq.mp hsep]
    rfl

theorem letters_subset (text : List (α × Kind)) : letters text ⊆ text.map Prod.fst :=
  (List.filter_sublist.map Prod.fst).subset

end Words

section Notes

variable {β : Type}

/-- Drop the notes on the letters. -/
def erase (text : List ((α × β) × Kind)) : List (α × Kind) := text.map fun x => (x.1.1, x.2)

theorem map_statements (text : List ((α × β) × Kind)) :
    (statements text).map erase = statements (erase text) := by
  rw [statements, statements, erase, map_splitOnP]
  rfl

theorem map_words (text : List ((α × β) × Kind)) :
    (words text).map (List.map Prod.fst) = words (erase text) := by
  have hempty : (fun word : List (α × Kind) => !word.isEmpty) ∘ List.map (fun x => (x.1.1, x.2)) =
      fun word : List ((α × β) × Kind) => !word.isEmpty := by
    funext word
    rw [Function.comp_apply, List.isEmpty_map]
  rw [words, words, erase, map_splitOnP, List.filter_map, hempty, List.map_map, List.map_map]
  refine List.map_congr_left fun word _ => ?_
  rw [Function.comp_apply, Function.comp_apply, List.map_map, List.map_map]
  rfl

end Notes

/-! ## Modes -/

inductive Quote where
  | single
  | double
  | backtick
  | bracket
deriving DecidableEq, Repr

def Quote.close : Quote → Char
  | .single => '\''
  | .double => '"'
  | .backtick => '\x60'
  | .bracket => ']'

def quote? : Char → Option Quote
  | '\'' => some .single
  | '"' => some .double
  | '\x60' => some .backtick
  | '[' => some .bracket
  | _ => none

/-- What is being read. `opening` is before the star of `/*`; `block` knows if the last
character was a star. -/
inductive Mode where
  | code
  | comment
  | quoted (quote : Quote)
  | opening
  | block (star : Bool)
deriving DecidableEq, Repr

/-- The white space of SQLite. Every other space is a character of identifiers. -/
def isBlank (c : Char) : Bool := c = ' ' || c = '\t' || c = '\n' || c = '\x0c' || c = '\r'

/-- A doubled quote inside a string ends it and opens the next one. -/
def step : Mode → Char → Option Char → Kind × Mode
  | .code, c, next =>
    if isBlank c then (.space, .code)
    else if c = ';' then (.semicolon, .code)
    else if c = '-' ∧ next = some '-' then (.comment, .comment)
    else if c = '/' ∧ next = some '*' then (.token, .opening)
    else
      match quote? c with
      | some quote => (.token, .quoted quote)
      | none => (.token, .code)
  | .comment, c, _ => if c = '\n' then (.space, .code) else (.comment, .comment)
  | .quoted quote, c, _ => (.token, if c = quote.close then .code else .quoted quote)
  | .opening, _, _ => (.token, .block false)
  | .block star, c, _ => (.token, if star = true ∧ c = '/' then .code else .block (c = '*'))

/-- The two begin a comment. -/
def Joins (c next : Char) : Prop := (c = '-' ∧ next = '-') ∨ (c = '/' ∧ next = '*')

theorem step_of_not_joins {mode : Mode} {c : Char} {next : Option Char}
    (h : ∀ n ∈ next, ¬ Joins c n) : step mode c next = step mode c none := by
  cases mode with
  | code =>
    have hline : ¬ (c = '-' ∧ next = some '-') := fun ⟨hc, hn⟩ => h _ hn (.inl ⟨hc, rfl⟩)
    have hblock : ¬ (c = '/' ∧ next = some '*') := fun ⟨hc, hn⟩ => h _ hn (.inr ⟨hc, rfl⟩)
    simp only [step, hline, hblock, if_false, reduceCtorEq, and_false]
  | _ => rfl

theorem not_joins_of_isWhitespace {c next : Char}
    (h : Text.isWhitespace c = true ∨ Text.isWhitespace next = true) : ¬ Joins c next := by
  rintro (⟨rfl, rfl⟩ | ⟨rfl, rfl⟩) <;> exact absurd h (by decide)

/-- Between the tokens. -/
def Settled (mode : Mode) : Prop := mode = .code ∨ mode = .comment

theorem kind_of_not_settled {mode : Mode} (h : ¬ Settled mode) (c : Char) (next : Option Char) :
    (step mode c next).1 = .token := by
  cases mode with
  | code => exact absurd (.inl rfl) h
  | comment => exact absurd (.inr rfl) h
  | _ => rfl

theorem step_comment_iff (mode : Mode) (c : Char) (next : Option Char) :
    (step mode c next).1 = .comment ↔ (step mode c next).2 = .comment := by
  cases mode with
  | code =>
    rw [step]
    split_ifs
    · simp
    · simp
    · simp
    · simp
    · split <;> simp
  | comment =>
    rw [step]
    split_ifs <;> simp
  | quoted quote =>
    rw [step]
    split_ifs <;> simp
  | opening => simp [step]
  | block star =>
    rw [step]
    split_ifs <;> simp

theorem kind_ne_semicolon {c : Char} (h : c ≠ ';') (mode : Mode) (next : Option Char) :
    (step mode c next).1 ≠ .semicolon := by
  cases mode with
  | code =>
    rw [step]
    split_ifs
    · simp
    · simp
    · simp
    · split <;> simp
  | comment =>
    rw [step]
    split_ifs <;> simp
  | quoted _ | opening | block _ => simp [step]

theorem isWhitespace_of_isBlank {c : Char} (h : isBlank c = true) : Text.isWhitespace c = true := by
  simp only [isBlank, Bool.or_eq_true, decide_eq_true_eq] at h
  rcases h with (((rfl | rfl) | rfl) | rfl) | rfl <;> decide

/-- White space begins nothing, even where it is part of an identifier. -/
theorem step_code_space {c : Char} (hspace : Text.isWhitespace c = true) (next : Option Char) :
    (step .code c next).2 = .code := by
  have hne : ∀ d, Text.isWhitespace d = false → c ≠ d := by
    rintro d hd rfl
    rw [hspace] at hd
    cases hd
  have hsemi := hne ';' (by decide)
  have hline := hne '-' (by decide)
  have hblock := hne '/' (by decide)
  have hquote : quote? c = none := by
    unfold quote?
    split
    · exact absurd rfl (hne '\'' (by decide))
    · exact absurd rfl (hne '"' (by decide))
    · exact absurd rfl (hne '\x60' (by decide))
    · exact absurd rfl (hne '[' (by decide))
    · rfl
  simp only [step, hsemi, hline, hblock, hquote, false_and, if_false]
  split <;> rfl

/-- White space does not end a token that it is read in. -/
theorem settled_of_step_space {mode : Mode} {c : Char} {next : Option Char}
    (hspace : Text.isWhitespace c = true) (h : Settled (step mode c next).2) : Settled mode := by
  cases mode with
  | code => exact .inl rfl
  | comment => exact .inr rfl
  | quoted quote =>
    have hclose : c ≠ quote.close := by
      rintro rfl
      cases quote <;> exact absurd hspace (by decide)
    simp [step, hclose, Settled] at h
  | opening => simp [step, Settled] at h
  | block star =>
    have hslash : c ≠ '/' := by
      rintro rfl
      exact absurd hspace (by decide)
    simp [step, hslash, Settled] at h

/-! ## Reading a text -/

variable [Letter α]

/-- Note the kind of each letter. -/
def lex : Mode → List α → List (α × Kind)
  | _, [] => []
  | mode, a :: rest =>
    let read := step mode (char a) (rest.head?.map char)
    (a, read.1) :: lex read.2 rest

/-- The noted kinds are those that are read from the one mode to the other. -/
def Reads : Mode → List (α × Kind) → Mode → Prop
  | mode, [], mode' => mode = mode'
  | mode, x :: rest, mode' =>
    (step mode (char x) (rest.head?.map char)).1 = x.2 ∧
      Reads (step mode (char x) (rest.head?.map char)).2 rest mode'

theorem map_fst_lex (mode : Mode) (text : List α) : (lex mode text).map Prod.fst = text := by
  induction text generalizing mode with
  | nil => rfl
  | cons a text ih => rw [lex, List.map_cons, ih]

theorem head?_map_char (text : List (α × Kind)) :
    (text.map Prod.fst).head?.map char = text.head?.map char := by
  cases text <;> rfl

theorem exists_reads_lex (mode : Mode) (text : List α) :
    ∃ mode', Reads mode (lex mode text) mode' := by
  induction text generalizing mode with
  | nil => exact ⟨mode, rfl⟩
  | cons a text ih =>
    obtain ⟨mode', h⟩ := ih (step mode (char a) (text.head?.map char)).2
    have hnext := head?_map_char (lex (step mode (char a) (text.head?.map char)).2 text)
    rw [map_fst_lex] at hnext
    refine ⟨mode', ?_⟩
    rw [lex, Reads, ← hnext]
    exact ⟨rfl, h⟩

theorem Reads.lex_eq {mode mode' : Mode} {text : List (α × Kind)} (h : Reads mode text mode') :
    lex mode (text.map Prod.fst) = text := by
  induction text generalizing mode with
  | nil => rfl
  | cons x text ih =>
    obtain ⟨hkind, hrest⟩ := h
    rw [List.map_cons, lex, head?_map_char]
    exact congrArg₂ _ (Prod.ext rfl hkind) (ih hrest)

/-- A text is read in two halves, when no comment begins across them. -/
theorem reads_append {mode mode' : Mode} {text text' : List (α × Kind)}
    (h : ∀ x ∈ text.getLast?, ∀ y ∈ text'.head?, ¬ Joins (char x) (char y)) :
    Reads mode (text ++ text') mode' ↔
      ∃ middle, Reads mode text middle ∧ Reads middle text' mode' := by
  induction text generalizing mode with
  | nil => simp [Reads]
  | cons x text ih =>
    cases text with
    | nil =>
      have hstep : step mode (char x) (text'.head?.map char) = step mode (char x) none := by
        refine step_of_not_joins fun n hn => ?_
        obtain ⟨y, hy, rfl⟩ := Option.map_eq_some_iff.mp hn
        exact h x rfl y hy
      simp only [List.singleton_append, Reads, hstep, List.head?_nil, Option.map_none]
      simp only [and_assoc, exists_and_left, exists_eq_left']
    | cons y text =>
      rw [List.cons_append, Reads, ih (by rwa [List.getLast?_cons_cons] at h)]
      simp only [Reads, List.cons_append, List.head?_cons, and_assoc, exists_and_left]

theorem Reads.lex_append {mode middle : Mode} {text : List (α × Kind)} {rest : List α}
    (h : Reads mode text middle)
    (hrest : ∀ x ∈ text.getLast?, ∀ a ∈ rest.head?, ¬ Joins (char x) (char a)) :
    lex mode (text.map Prod.fst ++ rest) = text ++ lex middle rest := by
  obtain ⟨mode', hlex⟩ := exists_reads_lex middle rest
  have hsafe : ∀ x ∈ text.getLast?, ∀ y ∈ (lex middle rest).head?, ¬ Joins (char x) (char y) := by
    intro x hx y hy
    refine hrest x hx y.1 ?_
    rw [← map_fst_lex middle rest, List.head?_map]
    exact Option.mem_map_of_mem Prod.fst hy
  have hread := ((reads_append hsafe).mpr ⟨middle, h, hlex⟩).lex_eq
  rwa [List.map_append, map_fst_lex] at hread

/-! ## What is read in each mode -/

variable {mode mode' : Mode} {text : List (α × Kind)}

theorem Reads.of_semicolon (h : Reads mode text mode') :
    ∀ x ∈ text, x.2 = .semicolon → char x = ';' := by
  induction text generalizing mode with
  | nil => exact List.forall_mem_nil _
  | cons x text ih =>
    refine List.forall_mem_cons.mpr ⟨fun hkind => ?_, ih h.2⟩
    by_contra hne
    rw [← h.1] at hkind
    exact kind_ne_semicolon hne _ _ hkind

theorem Reads.blank (h : Reads .code text mode') (hspace : ∀ x ∈ text, isSpace x = true) :
    mode' = .code := by
  induction text with
  | nil => exact h.symm
  | cons x text ih =>
    have hrest := h.2
    rw [step_code_space (hspace x List.mem_cons_self)] at hrest
    exact ih hrest fun y hy => hspace y (List.mem_cons_of_mem x hy)

theorem Reads.settled_of_blank (h : Reads mode text mode')
    (hspace : ∀ x ∈ text, isSpace x = true) (hmode : Settled mode') : Settled mode := by
  induction text generalizing mode with
  | nil => rwa [show mode = mode' from h]
  | cons x text ih =>
    exact settled_of_step_space (hspace x List.mem_cons_self)
      (ih h.2 fun y hy => hspace y (List.mem_cons_of_mem x hy))

theorem Reads.comment (h : Reads .comment text mode')
    (hline : ∀ x ∈ text, isNewline x = false) :
    (∀ x ∈ text, x.2 = .comment) ∧ mode' = .comment := by
  induction text with
  | nil => exact ⟨List.forall_mem_nil _, h.symm⟩
  | cons x text ih =>
    have hx : char x ≠ '\n' := beq_eq_false_iff_ne.mp (hline x List.mem_cons_self)
    obtain ⟨hkind, hrest⟩ := h
    simp only [step, hx, if_false] at hkind hrest
    obtain ⟨htext, hmode⟩ := ih hrest fun y hy => hline y (List.mem_cons_of_mem x hy)
    exact ⟨List.forall_mem_cons.mpr ⟨hkind.symm, htext⟩, hmode⟩

theorem comment_of_mem_lex {line : List α} (hline : ∀ a ∈ line, isNewline a = false) :
    ∀ x ∈ lex .comment line, x.2 = .comment := by
  obtain ⟨mode', hlex⟩ := exists_reads_lex .comment line
  refine (hlex.comment fun x hx => hline x.1 ?_).1
  rw [← map_fst_lex .comment line]
  exact List.mem_map_of_mem hx

/-- On one line a comment goes on to the end. -/
theorem Reads.eq_comment_iff (h : Reads mode text mode')
    (hline : ∀ x ∈ text, isNewline x = false) :
    mode' = .comment ↔ mode = .comment ∨ ∃ x ∈ text, x.2 = .comment := by
  induction text generalizing mode with
  | nil => simp [show mode = mode' from h]
  | cons x text ih =>
    obtain ⟨hkind, hrest⟩ := h
    have hx : char x ≠ '\n' := beq_eq_false_iff_ne.mp (hline x List.mem_cons_self)
    have hstay : mode = .comment → x.2 = .comment := by
      rintro rfl
      rw [← hkind, step, if_neg hx]
    rw [ih hrest fun y hy => hline y (List.mem_cons_of_mem x hy), ← step_comment_iff, hkind,
      List.exists_mem_cons_iff]
    exact ⟨.inr, fun h => h.elim (fun hmode => .inl (hstay hmode)) id⟩

theorem Reads.token_of_head {x : α × Kind} (h : Reads .code (x :: text) mode')
    (hspace : isSpace x = false) (hsemi : char x ≠ ';')
    (hcomment : startsWith ['-', '-'] (x :: text) = false) : x.2 = .token := by
  have hx : ¬ isBlank (char x) = true := fun hblank =>
    absurd (isWhitespace_of_isBlank hblank) (Bool.eq_false_iff.mp hspace)
  rw [← h.1, step, if_neg hx, if_neg hsemi, if_neg]
  · split_ifs
    · rfl
    · split <;> rfl
  · rintro ⟨hx, hnext⟩
    obtain ⟨y, hy, hchar⟩ := Option.map_eq_some_iff.mp hnext
    obtain ⟨rest, rfl⟩ := List.head?_eq_some_iff.mp hy
    simp [startsWith, hx, hchar] at hcomment

theorem Reads.comment_of_startsWith (h : Reads .code text mode')
    (hcomment : startsWith ['-', '-'] text = true) (hline : ∀ x ∈ text, isNewline x = false) :
    ∀ x ∈ text, x.2 = .comment := by
  match text, h with
  | [], _ => exact List.forall_mem_nil _
  | [x], _ => simp [startsWith] at hcomment
  | x :: y :: rest, h =>
    simp only [startsWith, List.map_cons, List.isPrefixOf_cons_cons, Bool.and_eq_true, beq_iff_eq,
      List.isPrefixOf_nil_left, and_true] at hcomment
    obtain ⟨hkind, hrest⟩ := h
    have hstep : step .code (char x) (some (char y)) = (.comment, .comment) := by
      rw [← hcomment.1, ← hcomment.2]
      decide
    simp only [List.head?_cons, Option.map_some, hstep] at hkind hrest
    exact List.forall_mem_cons.mpr ⟨hkind.symm,
      (Reads.comment hrest fun z hz => hline z (List.mem_cons_of_mem x hz)).1⟩

/-- A line is read as before when the white space at its ends is gone. -/
theorem Reads.trim (h : Reads .code text mode') :
    ∃ middle, Reads .code (trim text) middle ∧ (Settled mode' → Settled middle) := by
  obtain ⟨before, after, hbefore, hafter, htext⟩ := exists_pad text
  rw [htext, reads_append fun x _ y hy =>
    not_joins_of_isWhitespace (.inr (hafter y (List.mem_of_mem_head? hy)))] at h
  obtain ⟨middle, hleft, hright⟩ := h
  rw [reads_append fun x hx y _ =>
    not_joins_of_isWhitespace (.inl (hbefore x (List.mem_of_mem_getLast? hx)))] at hleft
  obtain ⟨start, hpad, hcore⟩ := hleft
  rw [hpad.blank hbefore] at hcore
  exact ⟨middle, hcore, hright.settled_of_blank hafter⟩

/-- A separator is read between the tokens, when it is not in one. -/
theorem Reads.of_sep {text' : List (α × Kind)} {sep : α × Kind}
    (h : Reads mode (text ++ sep :: text') mode')
    (hsep : char sep = ';' ∨ char sep = '\n') (hkind : sep.2 ≠ .token) :
    ∃ middle, Settled middle ∧ Reads mode text middle ∧
      ∃ next, Settled next ∧ (char sep = '\n' → next = .code) ∧ Reads next text' mode' := by
  rw [reads_append] at h
  · obtain ⟨middle, htext, hread, hrest⟩ := h
    have hmiddle : Settled middle := by
      by_contra hnot
      exact hkind (hread.symm.trans (kind_of_not_settled hnot _ _))
    refine ⟨middle, hmiddle, htext, _, ?_, ?_, hrest⟩
    · obtain rfl | rfl := hmiddle
      · obtain hsep | hsep := hsep <;> rw [hsep] <;> exact .inl rfl
      · obtain hsep | hsep := hsep <;> rw [hsep]
        · exact .inr rfl
        · exact .inl rfl
    · intro hnewline
      rw [hnewline]
      obtain rfl | rfl := hmiddle <;> rfl
  · intro x _ y hy hjoins
    obtain rfl : sep = y := Option.some.inj hy
    obtain hsep | hsep := hsep <;> simp [Joins, hsep] at hjoins

/-! ## Cutting words into tokens -/

/-- A word is a token, or several that nothing separates, as in `a=1`. How it is cut depends
on its characters. -/
structure Tokenizer where
  cut : List Char → List (List Char)
  flatten_cut (word : List Char) : (cut word).flatten = word

theorem map_splitLengths {γ δ : Type} (f : γ → δ) (sizes : List Nat) (l : List γ) :
    (sizes.splitLengths l).map (List.map f) = sizes.splitLengths (l.map f) := by
  induction sizes generalizing l with
  | nil => rfl
  | cons size sizes ih =>
    rw [List.splitLengths_cons, List.splitLengths_cons, List.map_cons, ih, List.map_take,
      List.map_drop]

def Tokenizer.ofWord (t : Tokenizer) (word : List α) : List (List α) :=
  ((t.cut (word.map char)).map List.length).splitLengths word

def Tokenizer.tokens (t : Tokenizer) (text : List (α × Kind)) : List (List α) :=
  (words text).flatMap t.ofWord

theorem Tokenizer.flatten_ofWord (t : Tokenizer) (word : List α) :
    (t.ofWord word).flatten = word := by
  have hlength : ((t.cut (word.map char)).map List.length).sum = word.length := by
    rw [← List.length_flatten, t.flatten_cut, List.length_map]
  exact List.flatten_splitLengths _ _ hlength.ge

theorem Tokenizer.flatten_tokens (t : Tokenizer) (text : List (α × Kind)) :
    (t.tokens text).flatten = letters text := by
  rw [Tokenizer.tokens, ← flatten_words]
  induction words text with
  | nil => rfl
  | cons word words ih =>
    rw [List.flatMap_cons, List.flatten_append, ih, t.flatten_ofWord, List.flatten_cons]

theorem Tokenizer.tokens_eq_nil (t : Tokenizer) {text : List (α × Kind)} :
    t.tokens text = [] ↔ letters text = [] := by
  constructor
  · intro h
    rw [← t.flatten_tokens, h]
    rfl
  · intro h
    rw [Tokenizer.tokens, words_eq_nil (letters_eq_nil.mp h)]
    rfl

/-! ## The notes do not matter -/

variable {β : Type} [Inhabited β]

theorem erase_lex (mode : Mode) (text : List (α × β)) :
    erase (lex mode text) = lex mode (text.map Prod.fst) := by
  induction text generalizing mode with
  | nil => rfl
  | cons a text ih =>
    have hnext : (text.map Prod.fst).head?.map char = text.head?.map char := by
      rw [List.head?_map, Option.map_map]
      rfl
    rw [List.map_cons, lex, lex, hnext, erase, List.map_cons]
    exact congrArg _ (ih _)

theorem Tokenizer.map_tokens (t : Tokenizer) (text : List ((α × β) × Kind)) :
    (t.tokens text).map (List.map Prod.fst) = t.tokens (erase text) := by
  rw [Tokenizer.tokens, Tokenizer.tokens, List.map_flatMap, ← map_words, List.flatMap_map]
  refine List.flatMap_congr fun word _ => ?_
  rw [Tokenizer.ofWord, Tokenizer.ofWord, map_splitLengths, List.map_map]
  rfl

end SqlLexer
