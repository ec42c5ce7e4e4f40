-- SUMMARY: The splitting of a script into statements, and what becomes of the lines between two semicolons.
import EdgeReplica.Lib.SqlLexer

/-!
# The statements of a script

A schema is sent to the database one statement at a time. The script is split at every
semicolon, then the lines that are comments are dropped and the others put on one line. It
is defined on texts of letters, so that the statements can be compared with the script
letter by letter.
-/

namespace EdgeReplica.SqlStatements

open Letters SqlLexer

section Split

variable {α : Type} [Letter α]

def isSemicolon (a : α) : Bool := char a == ';'

/-- Neither empty nor a comment. -/
def keep (line : List α) : Bool := !line.isEmpty && !startsWith ['-', '-'] line

def cleanedLines (stmt : List α) : List (List α) := ((lines stmt).map trim).filter keep

def cleaned (stmt : List α) : List α := trim ([blank].intercalate (cleanedLines stmt))

def split (sql : List α) : List (List α) :=
  ((sql.splitOnP isSemicolon).map cleaned).filter fun stmt => !stmt.isEmpty

end Split

def splitSqlStatements (sql : String) : List String := (split sql.toList).map .ofList

/-! ## Letter by letter -/

section Notes

variable {α β : Type} [Letter α] [Inhabited β]

theorem map_fst_cleanedLines (stmt : List (α × β)) :
    (cleanedLines stmt).map (List.map Prod.fst) = cleanedLines (stmt.map Prod.fst) := by
  have hkeep : keep ∘ List.map Prod.fst = (keep : List (α × β) → Bool) := by
    funext line
    rw [Function.comp_apply, keep, keep, startsWith_map_fst, List.isEmpty_map]
  have htrim : List.map Prod.fst ∘ trim = trim ∘ List.map (Prod.fst : α × β → α) :=
    funext map_fst_trim
  have hfilter : ∀ ls : List (List (α × β)),
      (ls.filter keep).map (List.map Prod.fst) = (ls.map (List.map Prod.fst)).filter keep := by
    intro ls
    rw [List.filter_map, hkeep]
  rw [cleanedLines, cleanedLines, ← map_fst_lines, hfilter, List.map_map, List.map_map, htrim]

theorem map_fst_cleaned (stmt : List (α × β)) :
    (cleaned stmt).map Prod.fst = cleaned (stmt.map Prod.fst) := by
  rw [cleaned, cleaned, map_fst_trim, map_fst_intercalate, map_fst_cleanedLines]

theorem map_fst_split (sql : List (α × β)) :
    (split sql).map (List.map Prod.fst) = split (sql.map Prod.fst) := by
  have hsplit : (sql.map Prod.fst).splitOnP isSemicolon =
      (sql.splitOnP isSemicolon).map (List.map Prod.fst) := map_splitOnP sql
  have hempty : (fun stmt : List α => !stmt.isEmpty) ∘ List.map Prod.fst =
      fun stmt : List (α × β) => !stmt.isEmpty := by
    funext stmt
    rw [Function.comp_apply, List.isEmpty_map]
  have hcleaned : List.map Prod.fst ∘ cleaned = cleaned ∘ List.map (Prod.fst : α × β → α) :=
    funext map_fst_cleaned
  have hfilter : ∀ stmts : List (List (α × β)),
      (stmts.filter fun stmt => !stmt.isEmpty).map (List.map Prod.fst) =
        (stmts.map (List.map Prod.fst)).filter fun stmt => !stmt.isEmpty := by
    intro stmts
    rw [List.filter_map, hempty]
  rw [split, split, hsplit, hfilter, List.map_map, List.map_map, hcleaned]

end Notes

/-! ## The lines of a piece -/

variable {α : Type} [Letter α]

theorem cleanedLines_eq (stmt : List α) :
    cleanedLines stmt = ((stmt.splitOnP isNewline).map trim).filter keep :=
  filter_trim_lines rfl stmt

/-- The line is not dropped. -/
def stays (line : List α) : Bool := keep (trim line)

theorem mem_cleanedLines {stmt line : List α} : line ∈ cleanedLines stmt ↔
    ∃ whole ∈ stmt.splitOnP isNewline, stays whole = true ∧ trim whole = line := by
  rw [cleanedLines_eq, List.mem_filter, List.mem_map]
  constructor
  · rintro ⟨⟨whole, hwhole, rfl⟩, hkeep⟩
    exact ⟨whole, hwhole, hkeep, rfl⟩
  · rintro ⟨whole, hwhole, hkeep, rfl⟩
    exact ⟨⟨whole, hwhole, rfl⟩, hkeep⟩

theorem keep_iff {line : List α} :
    keep line = true ↔ line ≠ [] ∧ startsWith ['-', '-'] line = false := by
  rw [keep, Bool.and_eq_true, Bool.not_eq_true', Bool.not_eq_true', List.isEmpty_eq_false_iff]

/-- What is known of a line that stays. -/
structure Kept (line : List α) : Prop where
  ne_nil : line ≠ []
  startsWith : startsWith ['-', '-'] line = false
  head : ∀ a ∈ line.head?, isSpace a = false
  last : ∀ a ∈ line.getLast?, isSpace a = false
  newline : ∀ a ∈ line, isNewline a = false
  semicolon : ∀ a ∈ line, isSemicolon a = false

theorem Kept.exists_head {line : List α} (h : Kept line) : ∃ a, a ∈ line.head? :=
  Option.ne_none_iff_exists'.mp (mt List.head?_eq_none_iff.mp h.ne_nil)

theorem kept_of_mem {stmt line : List α} (hstmt : ∀ a ∈ stmt, isSemicolon a = false)
    (h : line ∈ cleanedLines stmt) : Kept line := by
  obtain ⟨whole, hwhole, hkeep, rfl⟩ := mem_cleanedLines.mp h
  obtain ⟨hnewline, hsubset⟩ := of_mem_splitOnP hwhole
  exact ⟨(keep_iff.mp hkeep).1, (keep_iff.mp hkeep).2, fun _ => isSpace_of_head?_trim,
    fun _ => isSpace_of_getLast?_trim, fun a ha => hnewline a (trim_subset whole ha),
    fun a ha => hstmt a (hsubset (trim_subset whole ha))⟩

/-! ## Joining the lines -/

theorem eq_blank_or_mem_of_mem_intercalate {a : α} {lines : List (List α)}
    (h : a ∈ [blank].intercalate lines) : a = blank ∨ ∃ line ∈ lines, a ∈ line := by
  induction lines with
  | nil => exact absurd h List.not_mem_nil
  | cons line rest ih =>
    cases rest with
    | nil => exact .inr ⟨line, List.mem_cons_self, by rwa [List.intercalate_singleton] at h⟩
    | cons line' rest =>
      rw [List.intercalate_cons_cons, List.append_assoc, List.mem_append, List.mem_append,
        List.mem_singleton] at h
      obtain h | h | h := h
      · exact .inr ⟨line, List.mem_cons_self, h⟩
      · exact .inl h
      · obtain h | ⟨other, hother, ha⟩ := ih h
        · exact .inl h
        · exact .inr ⟨other, List.mem_cons_of_mem line hother, ha⟩

theorem head?_intercalate {line : List α} (hline : line ≠ []) (rest : List (List α)) :
    ([blank].intercalate (line :: rest)).head? = line.head? := by
  cases rest with
  | nil => rw [List.intercalate_singleton]
  | cons line' rest =>
    rw [List.intercalate_cons_cons, List.append_assoc, List.head?_append_of_ne_nil _ hline]

/-- A line put after it does not make a comment of a line. -/
theorem startsWith_intercalate {line : List α} (hline : Kept line) (rest : List (List α)) :
    startsWith ['-', '-'] ([blank].intercalate (line :: rest)) = false := by
  cases rest with
  | nil =>
    rw [List.intercalate_singleton]
    exact hline.startsWith
  | cons line' rest =>
    rw [List.intercalate_cons_cons, List.append_assoc]
    match line, hline.ne_nil, hline.startsWith with
    | [a], _, _ => simp [startsWith, List.isPrefixOf, Letter.char_blank]
    | a :: b :: line, _, hstarts => simpa [startsWith, List.isPrefixOf] using hstarts

theorem mem_getLast?_of_intercalate {a : α} {lines : List (List α)}
    (hlines : ∀ line ∈ lines, line ≠ []) (h : a ∈ ([blank].intercalate lines).getLast?) :
    ∃ line ∈ lines, a ∈ line.getLast? := by
  induction lines with
  | nil => exact absurd h (Option.not_mem_none a)
  | cons line rest ih =>
    cases rest with
    | nil => exact ⟨line, List.mem_cons_self, by rwa [List.intercalate_singleton] at h⟩
    | cons line' rest =>
      obtain ⟨b, hb⟩ := Option.ne_none_iff_exists'.mp
        (mt List.head?_eq_none_iff.mp (hlines line' (by simp)))
      have hne : [blank].intercalate (line' :: rest) ≠ [] := by
        rw [← head?_intercalate (hlines line' (by simp)) rest] at hb
        rintro hnil
        rw [hnil] at hb
        cases hb
      rw [List.intercalate_cons_cons, List.getLast?_append_of_ne_nil _ hne] at h
      obtain ⟨other, hother, ha⟩ := ih (fun l hl => hlines l (List.mem_cons_of_mem line hl)) h
      exact ⟨other, List.mem_cons_of_mem line hother, ha⟩

/-- The joined lines are trimmed already. -/
theorem cleaned_eq {stmt : List α} (hstmt : ∀ a ∈ stmt, isSemicolon a = false) :
    cleaned stmt = [blank].intercalate (cleanedLines stmt) := by
  have hkept : ∀ line ∈ cleanedLines stmt, Kept line := fun _ h => kept_of_mem hstmt h
  refine trim_eq_self (fun a ha => ?_) fun a ha => ?_
  · cases hlines : cleanedLines stmt with
    | nil =>
      rw [hlines] at ha
      cases ha
    | cons line rest =>
      have hline := hkept line (by rw [hlines]; exact List.mem_cons_self)
      rw [hlines, head?_intercalate hline.ne_nil] at ha
      exact hline.head a ha
  · obtain ⟨line, hline, ha⟩ := mem_getLast?_of_intercalate (fun l hl => (hkept l hl).ne_nil) ha
    exact (hkept line hline).last a ha

theorem cleaned_eq_nil {stmt : List α} (hstmt : ∀ a ∈ stmt, isSemicolon a = false) :
    cleaned stmt = [] ↔ cleanedLines stmt = [] := by
  rw [cleaned_eq hstmt]
  constructor
  · intro h
    cases hlines : cleanedLines stmt with
    | nil => rfl
    | cons line rest =>
      have hline := kept_of_mem hstmt (hlines ▸ List.mem_cons_self : line ∈ cleanedLines stmt)
      rw [hlines] at h
      have hhead := head?_intercalate hline.ne_nil rest
      rw [h] at hhead
      exact absurd (List.head?_eq_none_iff.mp hhead.symm) hline.ne_nil
  · intro h
    rw [h]
    rfl

theorem isNewline_blank : isNewline (blank : α) = false := by
  rw [isNewline, Letter.char_blank]
  decide

theorem isSemicolon_blank : isSemicolon (blank : α) = false := by
  rw [isSemicolon, Letter.char_blank]
  decide

theorem of_mem_intercalate {a : α} {lines : List (List α)} (hkept : ∀ line ∈ lines, Kept line)
    (ha : a ∈ [blank].intercalate lines) : isNewline a = false ∧ isSemicolon a = false := by
  obtain rfl | ⟨line, hline, ha⟩ := eq_blank_or_mem_of_mem_intercalate ha
  · exact ⟨isNewline_blank, isSemicolon_blank⟩
  · exact ⟨(hkept line hline).newline a ha, (hkept line hline).semicolon a ha⟩

/-- No newline or semicolon is left. -/
theorem of_mem_split {sql stmt : List α} {a : α} (h : stmt ∈ split sql) (ha : a ∈ stmt) :
    isNewline a = false ∧ isSemicolon a = false := by
  obtain ⟨piece, hpiece, rfl⟩ := List.mem_map.mp (List.mem_filter.mp h).1
  obtain ⟨hsemi, -⟩ := of_mem_splitOnP hpiece
  rw [cleaned_eq hsemi] at ha
  exact of_mem_intercalate (fun line hline => kept_of_mem hsemi hline) ha

/-! ## Reading the lines -/

/-- Lines that are read one after the other, with a newline between them that is in no token. -/
inductive Lines : List (List (α × Kind)) → Prop
  | nil : Lines []
  | last {mode : Mode} {line : List (α × Kind)} (hread : Reads .code line mode) : Lines [line]
  | cons {mode : Mode} {line : List (α × Kind)} {rest : List (List (α × Kind))}
      (hread : Reads .code line mode) (hmode : Settled mode) (hrest : Lines rest) :
      Lines (line :: rest)

/-- After the first line every line is read as code. -/
theorem exists_lines_of_reads {mode mode' : Mode} {stmt : List (α × Kind)}
    (h : Reads mode stmt mode') (hwhole : ∀ x ∈ stmt, isNewline x = true → x.2 ≠ .token) :
    ∃ first rest, stmt.splitOnP isNewline = first :: rest ∧ Lines rest ∧
      ∃ middle, Reads mode first middle ∧ (rest = [] ∨ Settled middle) := by
  induction stmt using splitOnP_rec (isNewline : α × Kind → Bool) generalizing mode with
  | single line hline =>
    exact ⟨line, [], List.splitOnP_eq_singleton hline, .nil, mode', h, .inl rfl⟩
  | split line sep rest hline hsep ih =>
    have hnewline : char sep = '\n' := beq_iff_eq.mp hsep
    obtain ⟨middle, hmiddle, hread, next, -, hnext, hrest⟩ :=
      h.of_sep (.inr hnewline) (hwhole sep (by simp) hsep)
    rw [hnext hnewline] at hrest
    obtain ⟨second, others, hsplit, hothers, after, hsecond, hafter⟩ :=
      ih hrest fun x hx => hwhole x (by simp [hx])
    refine ⟨line, second :: others, ?_, ?_, middle, hread, .inr hmiddle⟩
    · rw [List.splitOnP_append_cons_of_forall_mem hline sep hsep, hsplit]
    · obtain rfl | hafter := hafter
      · exact .last hsecond
      · exact .cons hsecond hafter hothers

theorem lines_of_reads {mode : Mode} {stmt : List (α × Kind)} (h : Reads .code stmt mode)
    (hwhole : ∀ x ∈ stmt, isNewline x = true → x.2 ≠ .token) :
    Lines (stmt.splitOnP isNewline) := by
  obtain ⟨first, rest, hsplit, hrest, middle, hfirst, rfl | hmiddle⟩ :=
    exists_lines_of_reads h hwhole
  · rw [hsplit]
    exact .last hfirst
  · rw [hsplit]
    exact .cons hfirst hmiddle hrest

theorem Lines.exists_reads {lines : List (List (α × Kind))} (h : Lines lines) :
    ∀ line ∈ lines, ∃ mode, Reads .code line mode := by
  induction h with
  | nil => exact List.forall_mem_nil _
  | last hread => exact List.forall_mem_singleton.mpr ⟨_, hread⟩
  | cons hread _ _ ih => exact List.forall_mem_cons.mpr ⟨⟨_, hread⟩, ih⟩

/-- The lines that are kept are read as they were. -/
theorem Lines.keep {lines : List (List (α × Kind))} (h : Lines lines) :
    Lines ((lines.map trim).filter SqlStatements.keep) := by
  induction h with
  | nil => exact .nil
  | @last _ line hread =>
    obtain ⟨mode, htrim, -⟩ := hread.trim
    rw [List.map_singleton, List.filter_singleton]
    cases SqlStatements.keep (trim line) with
    | true => exact .last htrim
    | false => exact .nil
  | cons hread hmode _ ih =>
    obtain ⟨mode, htrim, hsettled⟩ := hread.trim
    rw [List.map_cons, List.filter_cons]
    split
    · exact .cons htrim (hsettled hmode) ih
    · exact ih

/-- A line that stays begins with a token. -/
theorem Kept.isToken_of_head {line : List (α × Kind)} {mode : Mode} (hline : Kept line)
    (h : Reads .code line mode) : ∀ x ∈ line.head?, isToken x = true := by
  intro x hx
  obtain ⟨rest, rfl⟩ := List.head?_eq_some_iff.mp hx
  exact beq_iff_eq.mpr (h.token_of_head (hline.head x hx)
    (beq_eq_false_iff_ne.mp (hline.semicolon x List.mem_cons_self)) hline.startsWith)

theorem Kept.letters_ne_nil {line : List (α × Kind)} {mode : Mode} (hline : Kept line)
    (h : Reads .code line mode) : letters line ≠ [] := by
  obtain ⟨x, hx⟩ := hline.exists_head
  intro hnil
  have hnot := letters_eq_nil.mp hnil x (List.mem_of_mem_head? hx)
  rw [hline.isToken_of_head h x hx] at hnot
  cases hnot

/-- There are no tokens in a line that is dropped. -/
theorem letters_of_not_keep {line : List (α × Kind)}
    (hread : (∃ mode, Reads .code line mode) ∨ ∀ x ∈ line, x.2 = .comment)
    (hline : ∀ x ∈ line, isNewline x = false) (hkeep : keep line = false) : letters line = [] := by
  have hcomment : line ≠ [] → ∀ x ∈ line, x.2 = .comment := by
    intro hne
    obtain ⟨mode, hread⟩ | hall := hread
    · refine hread.comment_of_startsWith ?_ hline
      by_contra hstarts
      exact absurd (keep_iff.mpr ⟨hne, Bool.eq_false_iff.mpr hstarts⟩) (by rw [hkeep]; decide)
    · exact hall
  cases line with
  | nil => rfl
  | cons x rest =>
    refine letters_eq_nil.mpr fun y hy => ?_
    rw [isToken, hcomment (List.cons_ne_nil x rest) y hy]
    rfl

/-- The text as it is read on its own. -/
def relex (text : List (α × Kind)) : List (α × Kind) := lex .code (text.map Prod.fst)

theorem relex_of_reads {text : List (α × Kind)} {mode : Mode} (h : Reads .code text mode) :
    relex text = text :=
  h.lex_eq

/-- The white space put between two lines is read as such, or in the comment before it. -/
theorem relex_append_blank {text text' : List (α × Kind)} {middle : Mode}
    (h : Reads .code text middle) :
    relex (text ++ blank :: text') = text ++ lex middle ((blank :: text').map Prod.fst) := by
  rw [relex, List.map_append]
  refine h.lex_append fun x _ a ha => not_joins_of_isWhitespace (.inr ?_)
  obtain rfl : (blank : α × Kind).1 = a := Option.some.inj ha
  rw [show char (blank : α × Kind).1 = ' ' from Letter.char_blank]
  decide

theorem lex_code_blank (text : List (α × Kind)) :
    lex .code ((blank :: text).map Prod.fst) = blank :: relex text := by
  rw [List.map_cons, lex, show char (blank : α × Kind).1 = ' ' from Letter.char_blank]
  rfl

theorem letters_blank_cons (text : List (α × Kind)) : letters (blank :: text) = letters text :=
  letters_append_cons rfl [] text

variable {lines : List (List (α × Kind))}

/-- What is additive at white space is so over the lines. -/
theorem intercalate_eq_flatMap {γ : Type} {g : List (α × Kind) → List γ} (hnil : g [] = [])
    (hg : ∀ text text', g (text ++ blank :: text') = g text ++ g text') :
    g ([blank].intercalate lines) = lines.flatMap g := by
  induction lines with
  | nil => exact hnil
  | cons line rest ih =>
    cases rest with
    | nil => rw [List.intercalate_singleton, List.flatMap_singleton]
    | cons line' rest =>
      rw [List.intercalate_cons_cons, List.append_assoc, List.singleton_append, hg, ih]
      rfl

theorem letters_intercalate :
    letters ([blank].intercalate lines) = lines.flatMap letters :=
  intercalate_eq_flatMap rfl (letters_append_cons rfl)

theorem words_intercalate : words ([blank].intercalate lines) = lines.flatMap words :=
  intercalate_eq_flatMap rfl (words_append_cons rfl)

def NoComment (line : List (α × Kind)) : Prop := ∀ x ∈ line, x.2 ≠ .comment

/-- With no comment but in the last line, the lines are read as they were. -/
theorem Lines.relex_intercalate (h : Lines lines)
    (hlines : ∀ line ∈ lines, ∀ x ∈ line, isNewline x = false)
    (hlast : lines.Pairwise fun line _ => NoComment line) :
    relex ([blank].intercalate lines) = [blank].intercalate lines := by
  induction h with
  | nil => rfl
  | last hread =>
    rw [List.intercalate_singleton]
    exact relex_of_reads hread
  | @cons mode line rest hread hmode hrest ih =>
    cases rest with
    | nil =>
      rw [List.intercalate_singleton]
      exact relex_of_reads hread
    | cons line' rest =>
      rw [List.pairwise_cons] at hlast
      rw [List.forall_mem_cons] at hlines
      have hcode : mode = .code := by
        refine hmode.resolve_right fun hcomment => ?_
        obtain hcode | ⟨x, hx, hkind⟩ := (hread.eq_comment_iff hlines.1).mp hcomment
        · cases hcode
        · exact hlast.1 line' List.mem_cons_self x hx hkind
      subst hcode
      rw [List.intercalate_cons_cons, List.append_assoc, List.singleton_append,
        relex_append_blank hread, lex_code_blank, ih hlines.2 hlast.2]

/-- With a comment before the last line, the tokens of a line after it are lost. -/
theorem Lines.length_letters_lt (h : Lines lines) (hkept : ∀ line ∈ lines, Kept line)
    (hlast : ¬ lines.Pairwise fun line _ => NoComment line) :
    (letters (relex ([blank].intercalate lines))).length <
      (lines.flatMap letters).length := by
  induction h with
  | nil => exact absurd List.Pairwise.nil hlast
  | last hread => exact absurd (List.pairwise_singleton _ _) hlast
  | @cons mode line rest hread hmode hrest ih =>
    cases rest with
    | nil => exact absurd (List.pairwise_singleton _ _) hlast
    | cons line' rest =>
      rw [List.forall_mem_cons] at hkept
      rw [List.intercalate_cons_cons, List.append_assoc, List.singleton_append,
        relex_append_blank hread, letters_append, List.flatMap_cons, List.length_append,
        List.length_append]
      refine Nat.add_lt_add_left ?_ _
      obtain rfl | rfl := hmode
      · rw [lex_code_blank, letters_blank_cons]
        refine ih hkept.2 fun hrest => hlast (List.pairwise_cons.mpr ⟨?_, hrest⟩)
        intro _ _ x hx hkind
        cases (hread.eq_comment_iff hkept.1.newline).mpr (.inr ⟨x, hx, hkind⟩)
      · have hnone : letters (lex .comment ((blank :: [blank].intercalate (line' :: rest)).map
            Prod.fst)) = [] := by
          refine letters_eq_nil.mpr fun x hx => ?_
          rw [isToken, comment_of_mem_lex ?_ x hx]
          · rfl
          · rw [List.map_cons]
            refine List.forall_mem_cons.mpr
              ⟨isNewline_blank, List.forall_mem_map.mpr fun y hy => ?_⟩
            exact (of_mem_intercalate hkept.2 hy).1
        obtain ⟨_, hread'⟩ := hrest.exists_reads line' List.mem_cons_self
        have hpos := List.length_pos_iff.mpr
          ((hkept.2 line' List.mem_cons_self).letters_ne_nil hread')
        rw [hnone, List.flatMap_cons, List.length_append, List.length_nil]
        omega

end EdgeReplica.SqlStatements
