-- SUMMARY: When splitting a script keeps its statements, token by token.
import EdgeReplica.Services.SqlStatements
import Mathlib.Algebra.Order.BigOperators.Group.List
import Mathlib.Algebra.Order.Ring.Nat
import Mathlib.Data.List.Nodup

/-!
# The tokens of the statements

The script is split before its comments are known, and a line that ends in a comment is put
before the next one. Here is what this does to the tokens of the script.
-/

namespace EdgeReplica.SqlStatements

open Letters SqlLexer

section Lists

variable {γ δ ε : Type}

theorem flatMap_filter_of {p : γ → Bool} {g : γ → List δ} {l : List γ}
    (h : ∀ x ∈ l, p x = false → g x = []) : (l.filter p).flatMap g = l.flatMap g := by
  induction l with
  | nil => rfl
  | cons x l ih =>
    rw [List.forall_mem_cons] at h
    rw [List.filter_cons, List.flatMap_cons]
    split
    · rw [List.flatMap_cons, ih h.2]
    · rename_i hp
      rw [h.1 (Bool.eq_false_iff.mpr hp), ih h.2, List.nil_append]

theorem map_filter_map {f : γ → δ} {g : δ → ε} {h : γ → ε} {p : δ → Bool} {q : ε → Bool}
    {l : List γ} (hl : ∀ x ∈ l, g (f x) = h x ∧ p (f x) = q (h x)) :
    ((l.map f).filter p).map g = (l.map h).filter q := by
  induction l with
  | nil => rfl
  | cons x l ih =>
    obtain ⟨⟨hg, hp⟩, hrest⟩ := List.forall_mem_cons.mp hl
    rw [List.map_cons, List.map_cons, List.filter_cons, List.filter_cons, hp, ← ih hrest]
    split
    · rw [List.map_cons, hg]
    · rfl

/-- Of several lists at most one of which has elements, that one is left. -/
theorem filter_eq_filter_flatten {ls : List (List γ)}
    (h : (ls.filter fun l => !l.isEmpty).length ≤ 1) :
    (ls.filter fun l => !l.isEmpty) = [ls.flatten].filter fun l => !l.isEmpty := by
  have hne : ∀ l ∈ ls.filter fun l => !l.isEmpty, (!l.isEmpty) = true :=
    fun l hl => (List.mem_filter.mp hl).2
  rw [← List.flatten_filter_not_isEmpty]
  generalize (ls.filter fun l => !l.isEmpty) = kept at h hne
  match kept, h, hne with
  | [], _, _ => rfl
  | [l], _, hne =>
    rw [List.flatten_singleton]
    exact (List.filter_eq_self.mpr hne).symm
  | _ :: _ :: _, h, _ => exact absurd h (by simp)

/-- When each is at most the other and the sums are the same, so is each. -/
theorem eq_of_sum_le {f g : γ → Nat} {l : List γ} (hle : ∀ x ∈ l, f x ≤ g x)
    (hsum : (l.map g).sum ≤ (l.map f).sum) : ∀ x ∈ l, f x = g x := by
  intro x hx
  by_contra hne
  exact absurd (List.sum_lt_sum f g hle ⟨x, hx, lt_of_le_of_ne (hle x hx) hne⟩) hsum.not_gt

end Lists

variable {α : Type} [Letter α]

def pieces (text : List (α × Kind)) : List (List (α × Kind)) := text.splitOnP isSemicolon

/-! ## One piece -/

/-- What is known of a piece when no token has a semicolon or a newline. -/
structure Piece (piece : List (α × Kind)) : Prop where
  semicolon : ∀ x ∈ piece, isSemicolon x = false
  newline : ∀ x ∈ piece, isNewline x = true → x.2 ≠ .token
  read : ∃ mode mode', Settled mode ∧ Reads mode piece mode'

def Whole (text : List (α × Kind)) : Prop :=
  ∀ x ∈ text, x.2 = .token → isSemicolon x = false ∧ isNewline x = false

theorem piece_of_mem {mode mode' : Mode} {text : List (α × Kind)} (h : Reads mode text mode')
    (hmode : Settled mode) (hwhole : Whole text) : ∀ piece ∈ pieces text, Piece piece := by
  have hnewline : ∀ part, part ⊆ text → ∀ x ∈ part, isNewline x = true → x.2 ≠ .token := by
    intro part hpart x hx hnewline hkind
    rw [(hwhole x (hpart hx) hkind).2] at hnewline
    cases hnewline
  have hread : ∀ piece ∈ pieces text, ∃ mode mode', Settled mode ∧ Reads mode piece mode' := by
    unfold pieces
    clear hnewline
    induction text using splitOnP_rec (isSemicolon : α × Kind → Bool) generalizing mode with
    | single piece hpiece =>
      rw [List.splitOnP_eq_singleton hpiece]
      exact List.forall_mem_singleton.mpr ⟨mode, mode', hmode, h⟩
    | split piece sep rest hpiece hsep ih =>
      have hkind : sep.2 ≠ .token := by
        intro hkind
        rw [(hwhole sep (by simp) hkind).1] at hsep
        cases hsep
      obtain ⟨middle, -, hfirst, next, hnext, -, hrest⟩ :=
        h.of_sep (.inl (beq_iff_eq.mp hsep)) hkind
      rw [List.splitOnP_append_cons_of_forall_mem hpiece sep hsep]
      exact List.forall_mem_cons.mpr ⟨⟨mode, middle, hmode, hfirst⟩,
        ih hrest hnext fun x hx => hwhole x (by simp [hx])⟩
  intro piece hpiece
  obtain ⟨hsemi, hsubset⟩ := of_mem_splitOnP hpiece
  exact ⟨hsemi, hnewline piece hsubset, hread piece hpiece⟩

section Piece

variable {piece : List (α × Kind)}

/-- The first line is read as code or is the rest of a comment, and the others are read on. -/
theorem Piece.exists_lines (h : Piece piece) : Lines (piece.splitOnP isNewline) ∨
    ∃ first rest, piece.splitOnP isNewline = first :: rest ∧ Lines rest ∧
      ∀ x ∈ first, x.2 = .comment := by
  obtain ⟨mode, mode', rfl | rfl, hread⟩ := h.read
  · exact .inl (lines_of_reads hread h.newline)
  · obtain ⟨first, rest, hsplit, hrest, middle, hfirst, -⟩ := exists_lines_of_reads hread h.newline
    have hmem : first ∈ piece.splitOnP isNewline := hsplit ▸ List.mem_cons_self
    exact .inr ⟨first, rest, hsplit, hrest, (hfirst.comment (of_mem_splitOnP hmem).1).1⟩

theorem Piece.lines (h : Piece piece) : ∀ line ∈ piece.splitOnP isNewline,
    (∃ mode, Reads .code line mode) ∨ ∀ x ∈ line, x.2 = .comment := by
  obtain hlines | ⟨first, rest, hsplit, hrest, hcomment⟩ := h.exists_lines
  · exact fun line hline => .inl (hlines.exists_reads line hline)
  · rw [hsplit]
    exact List.forall_mem_cons.mpr
      ⟨.inr hcomment, fun line hline => .inl (hrest.exists_reads line hline)⟩

theorem Piece.kept (h : Piece piece) : ∀ line ∈ cleanedLines piece, Kept line :=
  fun _ hline => kept_of_mem h.semicolon hline

/-- So it is with the lines that stay. -/
theorem Piece.cleanedLines_cases (h : Piece piece) : Lines (cleanedLines piece) ∨
    ∃ first ∈ piece.splitOnP isNewline, ∃ rest, cleanedLines piece = trim first :: rest ∧
      stays first = true ∧ ∀ x ∈ first, x.2 = .comment := by
  rw [cleanedLines_eq]
  obtain hlines | ⟨first, rest, hsplit, hrest, hcomment⟩ := h.exists_lines
  · exact .inl hlines.keep
  · rw [hsplit, List.map_cons, List.filter_cons]
    split
    · rename_i hstays
      exact .inr ⟨first, List.mem_cons_self, _, rfl, hstays, hcomment⟩
    · exact .inl hrest.keep

theorem Piece.letters_eq (h : Piece piece) :
    letters piece = (piece.splitOnP isNewline).flatMap letters :=
  eq_flatMap_splitOnP fun part sep rest hmem hsep =>
    letters_append_cons (beq_eq_false_iff_ne.mpr (h.newline sep hmem hsep)) part rest

theorem Piece.words_eq (h : Piece piece) :
    words piece = (piece.splitOnP isNewline).flatMap words :=
  eq_flatMap_splitOnP fun part sep rest hmem hsep =>
    words_append_cons (beq_eq_false_iff_ne.mpr (h.newline sep hmem hsep)) part rest

/-- The lines that are dropped have no tokens. -/
theorem Piece.letters_trim (h : Piece piece) : ∀ line ∈ piece.splitOnP isNewline,
    stays line = false → letters (trim line) = [] := by
  intro line hline hstays
  have hnewline : ∀ x ∈ trim line, isNewline x = false :=
    fun x hx => (of_mem_splitOnP hline).1 x (trim_subset line hx)
  refine letters_of_not_keep ?_ hnewline hstays
  obtain ⟨mode, hread⟩ | hcomment := h.lines line hline
  · obtain ⟨middle, htrim, -⟩ := hread.trim
    exact .inl ⟨middle, htrim⟩
  · exact .inr fun x hx => hcomment x (trim_subset line hx)

theorem Piece.flatMap_letters (h : Piece piece) :
    (cleanedLines piece).flatMap letters =
      (piece.splitOnP isNewline).flatMap fun line => letters (trim line) := by
  rw [cleanedLines_eq, flatMap_filter_of, List.flatMap_map]
  exact List.forall_mem_map.mpr h.letters_trim

theorem Piece.flatMap_words (h : Piece piece) :
    (cleanedLines piece).flatMap words =
      (piece.splitOnP isNewline).flatMap fun line => words (trim line) := by
  rw [cleanedLines_eq, flatMap_filter_of, List.flatMap_map]
  exact List.forall_mem_map.mpr fun line hline hkeep =>
    words_eq_nil (letters_eq_nil.mp (h.letters_trim line hline hkeep))

end Piece

/-! ## The tokens of a piece -/

theorem length_letters_trim_le (line : List (α × Kind)) :
    (letters (trim line)).length ≤ (letters line).length := by
  obtain ⟨before, after, -, -, hline⟩ := exists_pad line
  conv_rhs => rw [hline]
  rw [letters_append, letters_append, List.length_append, List.length_append]
  omega

/-- When trimming takes no letter of a token, it leaves the words. -/
theorem words_trim {line : List (α × Kind)}
    (h : (letters (trim line)).length = (letters line).length) :
    words (trim line) = words line := by
  obtain ⟨before, after, -, -, hline⟩ := exists_pad line
  conv_rhs at h => rw [hline]
  rw [letters_append, letters_append, List.length_append, List.length_append] at h
  have hbefore := List.eq_nil_of_length_eq_zero (show (letters before).length = 0 by omega)
  have hafter := List.eq_nil_of_length_eq_zero (show (letters after).length = 0 by omega)
  conv_rhs => rw [hline]
  rw [words_append_right (letters_eq_nil.mp hafter), words_append (letters_eq_nil.mp hbefore)]

/-- No line that is nothing but comment stays, no line that stays has a comment and a line
that stays after it, and no line begins or ends in white space of a token. -/
structure Intact (piece : List (α × Kind)) : Prop where
  start : ∀ line ∈ piece.splitOnP isNewline, stays line = true → ∃ x ∈ line, x.2 ≠ .comment
  last : (piece.splitOnP isNewline).Pairwise fun line later =>
    stays line = true → stays later = true → NoComment (trim line)
  ends : ∀ line ∈ piece.splitOnP isNewline, letters (trim line) = letters line

section Piece

variable {piece : List (α × Kind)}

theorem Piece.lines_of_start (h : Piece piece)
    (hstart : ∀ line ∈ piece.splitOnP isNewline, stays line = true → ∃ x ∈ line, x.2 ≠ .comment) :
    Lines (cleanedLines piece) := by
  obtain hlines | ⟨first, hfirst, _, _, hstays, hcomment⟩ := h.cleanedLines_cases
  · exact hlines
  · obtain ⟨x, hx, hkind⟩ := hstart first hfirst hstays
    exact absurd (hcomment x hx) hkind

theorem Piece.start_of_lines (h : Piece piece) (hlines : Lines (cleanedLines piece)) :
    ∀ line ∈ piece.splitOnP isNewline, stays line = true → ∃ x ∈ line, x.2 ≠ .comment := by
  intro line hline hstays
  have hmem := mem_cleanedLines.mpr ⟨line, hline, hstays, rfl⟩
  obtain ⟨mode, hread⟩ := hlines.exists_reads _ hmem
  have hkept := h.kept _ hmem
  obtain ⟨x, hx⟩ := hkept.exists_head
  have htoken := beq_iff_eq.mp (hkept.isToken_of_head hread x hx)
  refine ⟨x, trim_subset line (List.mem_of_mem_head? hx), ?_⟩
  rw [htoken]
  decide

theorem pairwise_cleanedLines : ((cleanedLines piece).Pairwise fun line _ => NoComment line) ↔
    (piece.splitOnP isNewline).Pairwise fun line later =>
      stays line = true → stays later = true → NoComment (trim line) := by
  rw [cleanedLines_eq, List.pairwise_filter, List.pairwise_map]
  rfl

theorem Piece.words_relex (h : Piece piece) (hintact : Intact piece) :
    words (relex (cleaned piece)) = words piece := by
  have hlines := h.lines_of_start hintact.start
  rw [cleaned_eq h.semicolon,
    hlines.relex_intercalate (fun line hline => (h.kept line hline).newline)
      (pairwise_cleanedLines.mpr hintact.last),
    words_intercalate, h.flatMap_words, h.words_eq]
  exact List.flatMap_congr fun line hline => words_trim (by rw [hintact.ends line hline])

theorem Piece.length_flatMap_letters_le (h : Piece piece) :
    ((cleanedLines piece).flatMap letters).length ≤ (letters piece).length := by
  rw [h.flatMap_letters, h.letters_eq, List.length_flatMap, List.length_flatMap]
  exact List.sum_le_sum fun line _ => length_letters_trim_le line

/-- No piece gains tokens, and one that loses none is intact. -/
theorem Piece.length_letters_le (h : Piece piece) (hlines : Lines (cleanedLines piece)) :
    (letters (relex (cleaned piece))).length ≤ (letters piece).length ∧
      ((letters piece).length ≤ (letters (relex (cleaned piece))).length → Intact piece) := by
  have hsum := h.length_flatMap_letters_le
  rw [cleaned_eq h.semicolon]
  by_cases hlast : (cleanedLines piece).Pairwise fun line _ => NoComment line
  · rw [hlines.relex_intercalate (fun line hline => (h.kept line hline).newline) hlast,
      letters_intercalate]
    refine ⟨hsum, fun hle => ⟨h.start_of_lines hlines, pairwise_cleanedLines.mp hlast, ?_⟩⟩
    rw [h.flatMap_letters, h.letters_eq, List.length_flatMap, List.length_flatMap] at hle
    intro line hline
    have hlength := eq_of_sum_le (fun l _ => length_letters_trim_le l) hle line hline
    rw [← flatten_words, ← flatten_words, words_trim hlength]
  · have hlt := hlines.length_letters_lt h.kept hlast
    exact ⟨by omega, fun hle => by omega⟩

/-- Of an intact piece nothing is left when there are no tokens in it. -/
theorem Piece.cleaned_eq_nil (h : Piece piece) (hintact : Intact piece) :
    cleaned piece = [] ↔ letters piece = [] := by
  constructor
  · intro hnil
    rw [← flatten_words, ← h.words_relex hintact, hnil]
    rfl
  · intro hnil
    rw [SqlStatements.cleaned_eq_nil h.semicolon]
    by_contra hne
    obtain ⟨line, rest, hlines⟩ := List.exists_cons_of_ne_nil hne
    have hmem : line ∈ cleanedLines piece := by
      rw [hlines]
      exact List.mem_cons_self
    obtain ⟨mode, hread⟩ := (h.lines_of_start hintact.start).exists_reads line hmem
    have hpos := List.length_pos_iff.mpr ((h.kept line hmem).letters_ne_nil hread)
    have hle := h.length_flatMap_letters_le
    rw [hnil, hlines, List.flatMap_cons, List.length_append, List.length_nil] at hle
    omega

end Piece

/-! ## The statements of a script -/

def hasTokens (text : List (α × Kind)) : Bool := !(letters text).isEmpty

/-- The splitting keeps to the statements: no token has a semicolon or a newline, every piece
is intact, and no statement has tokens in two pieces. -/
structure Splittable (text : List (α × Kind)) : Prop where
  whole : Whole text
  intact : ∀ piece ∈ pieces text, Intact piece
  one : ∀ statement ∈ statements text, (pieces statement).countP hasTokens ≤ 1

/-- The tokens of the statements that are returned are those of the statements of the script,
less the statements without tokens. -/
def Preserves (t : Tokenizer) (sql : List α) : Prop :=
  (split sql).map (fun stmt => t.tokens (lex .code stmt)) =
    ((statements (lex .code sql)).map t.tokens).filter fun tokens => !tokens.isEmpty

section Script

variable {t : Tokenizer} {text : List (α × Kind)} {mode : Mode}

theorem pieces_eq_flatMap (hread : Reads .code text mode) :
    pieces text = (statements text).flatMap pieces :=
  splitOnP_eq_flatMap fun x hx hsemi =>
    beq_iff_eq.mpr (hread.of_semicolon x hx (beq_iff_eq.mp hsemi))

theorem isToken_of_isSemicolon (hwhole : Whole text) {x : α × Kind} (hx : x ∈ text)
    (hsemi : isSemicolon x = true) : isToken x = false := by
  refine beq_eq_false_iff_ne.mpr fun hkind => ?_
  rw [(hwhole x hx hkind).1] at hsemi
  cases hsemi

theorem letters_eq_flatMap_pieces (hwhole : Whole text) :
    letters text = (pieces text).flatMap letters :=
  eq_flatMap_splitOnP fun part _ rest hmem hsep =>
    letters_append_cons (isToken_of_isSemicolon hwhole hmem hsep) part rest

theorem words_eq_flatMap_pieces (hwhole : Whole text) :
    words text = (pieces text).flatMap words :=
  eq_flatMap_splitOnP fun part _ rest hmem hsep =>
    words_append_cons (isToken_of_isSemicolon hwhole hmem hsep) part rest

theorem Whole.statement (h : Whole text) {statement : List (α × Kind)}
    (hstatement : statement ∈ statements text) : Whole statement :=
  fun x hx => h x ((of_mem_splitOnP hstatement).2 hx)

theorem tokens_eq_flatten (hwhole : Whole text) :
    t.tokens text = ((pieces text).map t.tokens).flatten := by
  rw [Tokenizer.tokens, words_eq_flatMap_pieces hwhole, List.flatMap_assoc]
  rfl

theorem isEmpty_tokens (t : Tokenizer) (text : List (α × Kind)) :
    (t.tokens text).isEmpty = (letters text).isEmpty := by
  rw [Bool.eq_iff_iff, List.isEmpty_iff, List.isEmpty_iff, t.tokens_eq_nil]

theorem isEmpty_comp_tokens (t : Tokenizer) :
    (fun tokens : List (List α) => !tokens.isEmpty) ∘ t.tokens = hasTokens :=
  funext fun text => congrArg _ (isEmpty_tokens t text)

/-- The pieces that are left have their tokens. -/
theorem Splittable.tokens_split (h : Splittable text) (hread : Reads .code text mode) :
    (split text).map (fun stmt => t.tokens (relex stmt)) =
      ((pieces text).map t.tokens).filter fun tokens => !tokens.isEmpty := by
  refine map_filter_map fun piece hpiece => ?_
  have hfacts := piece_of_mem hread (.inl rfl) h.whole piece hpiece
  have hintact := h.intact piece hpiece
  refine ⟨?_, ?_⟩
  · rw [Tokenizer.tokens, hfacts.words_relex hintact]
    rfl
  · rw [isEmpty_tokens, Bool.eq_iff_iff, Bool.not_eq_true', Bool.not_eq_true',
      List.isEmpty_eq_false_iff, List.isEmpty_eq_false_iff, Ne, Ne, hfacts.cleaned_eq_nil hintact]

/-- They are the statements that have tokens. -/
theorem Splittable.tokens_pieces (h : Splittable text) (hread : Reads .code text mode) :
    ((pieces text).map t.tokens).filter (fun tokens => !tokens.isEmpty) =
      ((statements text).map t.tokens).filter fun tokens => !tokens.isEmpty := by
  have hone : ∀ statement ∈ statements text,
      ((pieces statement).map t.tokens).filter (fun tokens => !tokens.isEmpty) =
        [t.tokens statement].filter fun tokens => !tokens.isEmpty := by
    intro statement hstatement
    rw [tokens_eq_flatten (h.whole.statement hstatement)]
    refine filter_eq_filter_flatten ?_
    rw [← List.countP_eq_length_filter, List.countP_map, isEmpty_comp_tokens]
    exact h.one statement hstatement
  rw [pieces_eq_flatMap hread, List.map_flatMap, List.filter_flatMap, List.flatMap_congr hone,
    ← List.filter_flatMap, ← List.map_eq_flatMap]

theorem preserves_iff {sql : List α} : Preserves t sql ↔
    (split (lex .code sql)).map (fun stmt => t.tokens (relex stmt)) =
      ((statements (lex .code sql)).map t.tokens).filter fun tokens => !tokens.isEmpty := by
  have hsplit := map_fst_split (lex .code sql)
  rw [map_fst_lex] at hsplit
  rw [Preserves, ← hsplit, List.map_map]
  rfl

theorem Splittable.preserves {sql : List α} (h : Splittable (lex .code sql)) :
    Preserves t sql := by
  obtain ⟨mode, hread⟩ := exists_reads_lex .code sql
  exact preserves_iff.mpr ((h.tokens_split hread).trans (h.tokens_pieces hread))

/-! ### What must be so -/

/-- All the tokens of the script are those of the statements that are returned. -/
theorem flatMap_letters_split
    (h : (split text).map (fun stmt => t.tokens (relex stmt)) =
      ((statements text).map t.tokens).filter fun tokens => !tokens.isEmpty) :
    (split text).flatMap (fun stmt => letters (relex stmt)) = letters text := by
  have hflatten : ∀ texts : List (List (α × Kind)),
      (texts.map t.tokens).flatMap List.flatten = texts.flatMap letters := by
    intro texts
    rw [List.flatMap_map]
    exact List.flatMap_congr fun l _ => t.flatten_tokens l
  have hreturned : (split text).flatMap (fun stmt => letters (relex stmt)) =
      ((split text).map fun stmt => t.tokens (relex stmt)).flatMap List.flatten := by
    rw [List.flatMap_map]
    exact List.flatMap_congr fun stmt _ => (t.flatten_tokens _).symm
  rw [hreturned, h, flatMap_filter_of, hflatten, ← letters_eq_flatMap_statements]
  intro tokens _ hempty
  rw [Bool.not_eq_false', List.isEmpty_iff] at hempty
  rw [hempty]
  rfl

theorem whole_of_flatMap
    (h : (split text).flatMap (fun stmt => letters (relex stmt)) = letters text) : Whole text := by
  intro x hx hkind
  have hletter : x.1 ∈ letters text :=
    List.mem_map_of_mem (List.mem_filter.mpr ⟨hx, beq_iff_eq.mpr hkind⟩)
  rw [← h, List.mem_flatMap] at hletter
  obtain ⟨stmt, hstmt, hmem⟩ := hletter
  have hmap := letters_subset _ hmem
  rw [relex, map_fst_lex] at hmap
  obtain ⟨y, hy, heq⟩ := List.mem_map.mp hmap
  obtain ⟨hnewline, hsemi⟩ := of_mem_split hstmt hy
  have hchar : char y = char x := show char y.1 = char x.1 from congrArg char heq
  rw [isNewline, hchar] at hnewline
  rw [isSemicolon, hchar] at hsemi
  exact ⟨hsemi, hnewline⟩

/-- The first letter that is returned of a piece is read as a token. -/
theorem Piece.mem_letters_relex {piece line : List (α × Kind)}
    {rest : List (List (α × Kind))} (h : Piece piece) (hlines : cleanedLines piece = line :: rest) :
    ∀ x ∈ line.head?, x.1 ∈ letters (relex (cleaned piece)) := by
  intro x hx
  have hline : Kept line := h.kept line (hlines ▸ List.mem_cons_self)
  have hcleaned := cleaned_eq h.semicolon
  have hhead := head?_intercalate hline.ne_nil rest
  rw [← hlines, ← hcleaned, show line.head? = some x from hx] at hhead
  have hstarts : startsWith ['-', '-'] (relex (cleaned piece)) = false := by
    rw [← startsWith_map_fst, relex, map_fst_lex, startsWith_map_fst, hcleaned, hlines]
    exact startsWith_intercalate hline rest
  obtain ⟨mode, hread⟩ := exists_reads_lex .code ((cleaned piece).map Prod.fst)
  obtain ⟨tail, htail⟩ := List.head?_eq_some_iff.mp hhead
  rw [relex] at hstarts ⊢
  rw [htail] at hread hstarts ⊢
  rw [List.map_cons, lex] at hread hstarts ⊢
  have hkind := hread.token_of_head (hline.head x hx)
    (beq_eq_false_iff_ne.mp (hline.semicolon x (List.mem_of_mem_head? hx))) hstarts
  exact List.mem_map.mpr
    ⟨_, List.mem_filter.mpr ⟨List.mem_cons_self, beq_iff_eq.mpr hkind⟩, rfl⟩

theorem cleaned_mem_split {piece : List (α × Kind)} (hpiece : piece ∈ pieces text)
    (hne : cleaned piece ≠ []) : cleaned piece ∈ split text := by
  refine List.mem_filter.mpr ⟨List.mem_map_of_mem hpiece, ?_⟩
  rw [List.isEmpty_eq_false_iff.mpr hne]
  rfl

/-- The rest of a comment is not returned, where no letter occurs twice. -/
theorem lines_of_flatMap (hnodup : (text.map Prod.fst).Nodup)
    (h : (split text).flatMap (fun stmt => letters (relex stmt)) = letters text)
    {piece : List (α × Kind)} (hpiece : piece ∈ pieces text) (hfacts : Piece piece) :
    Lines (cleanedLines piece) := by
  obtain hlines | ⟨first, hfirst, rest, hlines, hstays, hcomment⟩ := hfacts.cleanedLines_cases
  · exact hlines
  · exfalso
    have hkept := hfacts.kept _ (mem_cleanedLines.mpr ⟨first, hfirst, hstays, rfl⟩)
    obtain ⟨x, hx⟩ := hkept.exists_head
    have hne : cleaned piece ≠ [] := by
      rw [Ne, SqlStatements.cleaned_eq_nil hfacts.semicolon, hlines]
      exact List.cons_ne_nil _ rest
    have hletter : x.1 ∈ letters text := by
      rw [← h, List.mem_flatMap]
      exact ⟨_, cleaned_mem_split hpiece hne, hfacts.mem_letters_relex hlines x hx⟩
    obtain ⟨y, hy, heq⟩ := List.mem_map.mp hletter
    obtain ⟨hytext, htoken⟩ := List.mem_filter.mp hy
    have hxfirst : x ∈ first := trim_subset first (List.mem_of_mem_head? hx)
    have hxtext : x ∈ text := (of_mem_splitOnP hpiece).2 ((of_mem_splitOnP hfirst).2 hxfirst)
    rw [List.inj_on_of_nodup_map hnodup hytext hxtext heq, isToken, hcomment x hxfirst] at htoken
    cases htoken

theorem flatMap_split_eq (text : List (α × Kind)) :
    (split text).flatMap (fun stmt => letters (relex stmt)) =
      (pieces text).flatMap fun piece => letters (relex (cleaned piece)) := by
  rw [split, flatMap_filter_of, List.flatMap_map]
  · rfl
  · intro stmt _ hempty
    rw [Bool.not_eq_false', List.isEmpty_iff] at hempty
    rw [hempty]
    rfl

theorem intact_of_flatMap (hread : Reads .code text mode) (hnodup : (text.map Prod.fst).Nodup)
    (h : (split text).flatMap (fun stmt => letters (relex stmt)) = letters text) :
    ∀ piece ∈ pieces text, Intact piece := by
  have hwhole := whole_of_flatMap h
  have hle : ∀ piece ∈ pieces text,
      (letters (relex (cleaned piece))).length ≤ (letters piece).length ∧
        ((letters piece).length ≤ (letters (relex (cleaned piece))).length → Intact piece) := by
    intro piece hpiece
    have hfacts := piece_of_mem hread (.inl rfl) hwhole piece hpiece
    exact hfacts.length_letters_le (lines_of_flatMap hnodup h hpiece hfacts)
  rw [flatMap_split_eq, letters_eq_flatMap_pieces hwhole] at h
  have hsum := congrArg List.length h
  rw [List.length_flatMap, List.length_flatMap] at hsum
  intro piece hpiece
  have heq := eq_of_sum_le (fun p hp => (hle p hp).1) hsum.ge piece hpiece
  exact (hle piece hpiece).2 heq.ge

theorem hasTokens_of_piece (hwhole : Whole text) (h : hasTokens text = true) :
    ∃ piece ∈ pieces text, hasTokens piece = true := by
  by_contra hnone
  have hnil : letters text = [] := by
    rw [letters_eq_flatMap_pieces hwhole, List.flatMap_eq_nil_iff]
    intro piece hpiece
    by_contra hne
    exact hnone ⟨piece, hpiece, by rw [hasTokens, List.isEmpty_eq_false_iff.mpr hne]; rfl⟩
  rw [hasTokens, hnil] at h
  cases h

/-- Every statement that has tokens has a piece that does, and no more of these than
statements are returned. -/
theorem one_of_length (hread : Reads .code text mode) (hwhole : Whole text)
    (hintact : ∀ piece ∈ pieces text, Intact piece)
    (h : (split text).length =
      (((statements text).map t.tokens).filter fun tokens => !tokens.isEmpty).length) :
    ∀ statement ∈ statements text, (pieces statement).countP hasTokens ≤ 1 := by
  have hreturned : (split text).length =
      ((statements text).map fun statement => (pieces statement).countP hasTokens).sum := by
    rw [split, ← List.countP_eq_length_filter, List.countP_map]
    have hpieces : (pieces text).countP ((fun stmt => !stmt.isEmpty) ∘ cleaned) =
        (pieces text).countP hasTokens := by
      refine List.countP_congr fun piece hpiece => ?_
      have hnil := (piece_of_mem hread (.inl rfl) hwhole piece hpiece).cleaned_eq_nil
        (hintact piece hpiece)
      rw [Function.comp_apply, hasTokens, Bool.not_eq_true', Bool.not_eq_true',
        List.isEmpty_eq_false_iff, List.isEmpty_eq_false_iff, Ne, Ne, hnil]
    refine Eq.trans hpieces ?_
    rw [pieces_eq_flatMap hread, List.countP_flatMap]
    rfl
  have hscript : (((statements text).map t.tokens).filter fun tokens => !tokens.isEmpty).length =
      ((statements text).map fun statement => [statement].countP hasTokens).sum := by
    rw [← List.countP_eq_length_filter, List.countP_map, isEmpty_comp_tokens]
    conv_lhs => rw [← List.flatMap_singleton' (statements text), List.countP_flatMap]
    rfl
  have hle : ∀ statement ∈ statements text,
      [statement].countP hasTokens ≤ (pieces statement).countP hasTokens := by
    intro statement hstatement
    rw [List.countP_singleton]
    split
    · rename_i hhas
      exact List.one_le_countP_iff.mpr
        (hasTokens_of_piece (hwhole.statement hstatement) hhas)
    · exact Nat.zero_le _
  intro statement hstatement
  have heq := eq_of_sum_le hle (by rw [← hreturned, h, hscript]) statement hstatement
  rw [← heq]
  exact List.countP_le_length

/-- Where no letter occurs twice the condition is exact. -/
theorem preserves_iff_splittable {sql : List α} (hnodup : sql.Nodup) :
    Preserves t sql ↔ Splittable (lex .code sql) := by
  refine ⟨fun h => ?_, Splittable.preserves⟩
  obtain ⟨mode, hread⟩ := exists_reads_lex .code sql
  rw [preserves_iff] at h
  have hletters := flatMap_letters_split h
  have hwhole := whole_of_flatMap hletters
  have hintact := intact_of_flatMap hread (by rwa [map_fst_lex]) hletters
  have hlength := congrArg List.length h
  rw [List.length_map] at hlength
  exact ⟨hwhole, hintact, one_of_length hread hwhole hintact hlength⟩

end Script

/-! ## The script's own characters -/

/-- Every character with its place in the script. A space that is put in has none. -/
def numbered (sql : String) : List (Char × Option Nat) :=
  sql.toList.zipIdx.map fun x => (x.1, some x.2)

theorem map_fst_numbered (sql : String) : (numbered sql).map Prod.fst = sql.toList := by
  rw [numbered, List.map_map]
  exact List.zipIdx_map_fst 0 sql.toList

theorem nodup_numbered (sql : String) : (numbered sql).Nodup := by
  refine List.Nodup.of_map Prod.snd ?_
  rw [numbered, List.map_map]
  have hsnd : (Prod.snd ∘ fun x : Char × Nat => (x.1, some x.2)) = some ∘ Prod.snd := rfl
  rw [hsnd, ← List.map_map, List.zipIdx_map_snd]
  exact List.Nodup.map (Option.some_injective Nat) (List.nodup_range' ..)

theorem splitSqlStatements_eq (sql : String) :
    splitSqlStatements sql =
      (split (numbered sql)).map fun stmt => String.ofList (stmt.map Prod.fst) := by
  rw [splitSqlStatements, ← map_fst_numbered, ← map_fst_split, List.map_map]
  rfl

/-- Tokens that are the same with their places are so without. -/
theorem Preserves.map_fst {β : Type} [Inhabited β] {t : Tokenizer} {sql : List (α × β)}
    (h : Preserves t sql) : Preserves t (sql.map Prod.fst) := by
  have hempty : (fun tokens : List (List α) => !tokens.isEmpty) ∘ List.map (List.map Prod.fst) =
      fun tokens : List (List (α × β)) => !tokens.isEmpty := by
    funext tokens
    rw [Function.comp_apply, List.isEmpty_map]
  have htokens : List.map (List.map Prod.fst) ∘ t.tokens =
      t.tokens ∘ (erase : List ((α × β) × Kind) → List (α × Kind)) :=
    funext fun text => t.map_tokens text
  have hreturned : ((split sql).map fun stmt => t.tokens (lex .code stmt)).map
      (List.map (List.map Prod.fst)) =
        (split (sql.map Prod.fst)).map fun stmt => t.tokens (lex .code stmt) := by
    rw [← map_fst_split, List.map_map, List.map_map]
    refine List.map_congr_left fun stmt _ => ?_
    rw [Function.comp_apply, Function.comp_apply, t.map_tokens, erase_lex]
  rw [Preserves] at h
  rw [Preserves, ← hreturned, h, ← hempty, ← List.filter_map, List.map_map, htokens,
    ← List.map_map, map_statements, erase_lex]

/-- The tokens of the returned statements are those between the script's semicolons. -/
def PreservesTokens (t : Tokenizer) (sql : String) : Prop :=
  (splitSqlStatements sql).map (fun stmt => t.tokens (lex .code stmt.toList)) =
    ((statements (lex .code sql.toList)).map t.tokens).filter fun tokens => !tokens.isEmpty

theorem preservesTokens_iff {t : Tokenizer} {sql : String} :
    PreservesTokens t sql ↔ Preserves t sql.toList := by
  have hlist : (fun stmt : String => t.tokens (lex .code stmt.toList)) ∘ String.ofList =
      fun stmt => t.tokens (lex .code stmt) := by
    funext stmt
    rw [Function.comp_apply, String.toList_ofList]
  rw [PreservesTokens, Preserves, splitSqlStatements, List.map_map, hlist]

end EdgeReplica.SqlStatements
