-- SUMMARY: Texts whose characters carry notes: splitting, trimming and joining them.
import EdgeReplica.Lib.Text

/-!
# Texts of letters

A letter is a character with notes on it, such as the place it was read from. The
operations see the character only, so what they do with a text of letters is what they do
with its characters, and the notes tell where each character of the result comes from.
-/

namespace Letters

/-- `blank` is the space that an operation puts in. -/
class Letter (α : Type) where
  char : α → Char
  blank : α
  char_blank : char blank = ' '

export Letter (char blank)

instance : Letter Char := ⟨id, ' ', rfl⟩

instance {α β : Type} [Letter α] [Inhabited β] : Letter (α × β) :=
  ⟨fun x => char x.1, (blank, default), Letter.char_blank⟩

/-! ## Splitting -/

section Splitting

variable {α β : Type} {p : α → Bool}

/-- A list has no separator, or is split at its first one. -/
theorem splitOnP_rec {motive : List α → Prop} (p : α → Bool)
    (single : ∀ part, (∀ x ∈ part, p x = false) → motive part)
    (split : ∀ part sep rest, (∀ x ∈ part, p x = false) → p sep = true → motive rest →
      motive (part ++ sep :: rest)) (l : List α) : motive l := by
  have hgo : ∀ l part : List α, (∀ x ∈ part, p x = false) → motive (part ++ l) := by
    intro l
    induction l with
    | nil =>
      intro part hpart
      rw [List.append_nil]
      exact single part hpart
    | cons x l ih =>
      intro part hpart
      cases hx : p x with
      | true => exact split part x l hpart hx (ih [] (List.forall_mem_nil _))
      | false =>
        rw [List.append_cons]
        refine ih (part ++ [x]) fun y hy => ?_
        obtain hy | hy := List.mem_append.mp hy
        · exact hpart y hy
        · rw [List.mem_singleton.mp hy, hx]
  exact hgo l [] (List.forall_mem_nil _)

/-- What is additive at the separators is so over the parts. -/
theorem eq_flatMap_splitOnP {g : List α → List β} {l : List α}
    (h : ∀ part sep rest, sep ∈ l → p sep = true → g (part ++ sep :: rest) = g part ++ g rest) :
    g l = (l.splitOnP p).flatMap g := by
  induction l using splitOnP_rec p with
  | single part hpart => rw [List.splitOnP_eq_singleton hpart, List.flatMap_singleton]
  | split part sep rest hpart hsep ih =>
    rw [List.splitOnP_append_cons_of_forall_mem hpart sep hsep, List.flatMap_cons,
      h part sep rest (by simp) hsep,
      ih fun part' sep' rest' hmem => h part' sep' rest' (by simp [hmem])]

theorem of_mem_splitOnP {l part : List α} (h : part ∈ l.splitOnP p) :
    (∀ x ∈ part, p x = false) ∧ part ⊆ l := by
  induction l using splitOnP_rec p with
  | single whole hwhole =>
    rw [List.splitOnP_eq_singleton hwhole, List.mem_singleton] at h
    subst h
    exact ⟨hwhole, List.Subset.refl _⟩
  | split first sep rest hfirst hsep ih =>
    rw [List.splitOnP_append_cons_of_forall_mem hfirst sep hsep, List.mem_cons] at h
    obtain rfl | h := h
    · exact ⟨hfirst, List.subset_append_left _ _⟩
    · exact ⟨(ih h).1, List.Subset.trans (ih h).2 fun x hx => by simp [hx]⟩

/-- Some of the separators split first, and all of them then split the parts. -/
theorem splitOnP_eq_flatMap {q : α → Bool} {l : List α}
    (h : ∀ x ∈ l, q x = true → p x = true) :
    l.splitOnP p = (l.splitOnP q).flatMap (List.splitOnP p) :=
  eq_flatMap_splitOnP fun part sep rest hmem hsep =>
    List.splitOnP_append_cons part rest (h sep hmem hsep)

theorem map_splitOnP {f : β → α} (l : List β) :
    (l.map f).splitOnP p = (l.splitOnP (p ∘ f)).map (List.map f) := by
  induction l using splitOnP_rec (p ∘ f) with
  | single part hpart =>
    have hmap : ∀ y ∈ part.map f, p y = false := List.forall_mem_map.mpr hpart
    rw [List.splitOnP_eq_singleton hpart, List.splitOnP_eq_singleton hmap, List.map_singleton]
  | split part sep rest hpart hsep ih =>
    have hmap : ∀ y ∈ part.map f, p y = false := List.forall_mem_map.mpr hpart
    rw [List.splitOnP_append_cons_of_forall_mem hpart sep hsep, List.map_append, List.map_cons,
      List.splitOnP_append_cons_of_forall_mem hmap _ hsep, ih, List.map_cons]

end Splitting

/-! ## Lines -/

variable {α β : Type} [Letter α]

def isSpace (a : α) : Bool := Text.isWhitespace (char a)

def isNewline (a : α) : Bool := char a == '\n'

/-- Drop the white space at both ends. -/
def trim (text : List α) : List α := (text.dropWhile isSpace).rdropWhile isSpace

def stripReturn (line : List α) : List α :=
  if line.getLast?.any (char · == '\r') then line.dropLast else line

/-- Of the parts between newlines the last is a line only if there is something in it, and
only the others lose the carriage return before the newline. -/
def endLines : List (List α) → List (List α)
  | [] => []
  | [last] => if last.isEmpty then [] else [last]
  | line :: rest => stripReturn line :: endLines rest

def lines (text : List α) : List (List α) := endLines (text.splitOnP isNewline)

def startsWith (pattern : List Char) (text : List α) : Bool := pattern.isPrefixOf (text.map char)

theorem exists_pad (text : List α) :
    ∃ before after, (∀ a ∈ before, isSpace a = true) ∧ (∀ a ∈ after, isSpace a = true) ∧
      text = before ++ trim text ++ after :=
  Text.exists_dropped isSpace text

theorem trim_subset (text : List α) : trim text ⊆ text :=
  List.Subset.trans (List.rdropWhile_prefix _ _).subset (List.dropWhile_suffix _).subset

theorem isSpace_of_head?_trim {text : List α} {a : α} (h : a ∈ (trim text).head?) :
    isSpace a = false :=
  Text.of_mem_head?_dropped h

theorem isSpace_of_getLast?_trim {text : List α} {a : α} (h : a ∈ (trim text).getLast?) :
    isSpace a = false :=
  Text.of_mem_getLast?_dropped h

/-- There is no white space at either end. -/
theorem trim_eq_self {text : List α} (hhead : ∀ a ∈ text.head?, isSpace a = false)
    (hlast : ∀ a ∈ text.getLast?, isSpace a = false) : trim text = text := by
  rw [trim, Text.dropWhile_of_head? hhead, List.rdropWhile_eq_self_iff]
  intro hne
  exact Bool.eq_false_iff.mp (hlast _ (List.getLast_mem_getLast? hne))

theorem trim_stripReturn (line : List α) : trim (stripReturn line) = trim line := by
  rw [stripReturn]
  split
  · rename_i hreturn
    obtain ⟨a, ha, hchar⟩ := Option.any_eq_true _ _ |>.mp hreturn
    have hspace : isSpace a = true := by
      rw [isSpace, beq_iff_eq.mp hchar]
      decide
    obtain ⟨hne, rfl⟩ := List.mem_getLast?_eq_getLast ha
    conv_rhs => rw [← List.dropLast_append_getLast hne]
    rw [trim, trim, List.dropWhile_append]
    split
    · rename_i hempty
      rw [List.isEmpty_iff.mp hempty]
      simp [hspace]
    · rw [List.rdropWhile_concat_pos _ _ _ hspace]
  · rfl

/-- Which of the empty lines are dropped does not show once the blank lines are. -/
theorem filter_trim_lines {keep : List α → Bool} (hkeep : keep [] = false) (text : List α) :
    ((lines text).map trim).filter keep = ((text.splitOnP isNewline).map trim).filter keep := by
  rw [lines]
  induction text.splitOnP isNewline using endLines.induct with
  | case1 => rfl
  | case2 last hempty =>
    rw [endLines, if_pos hempty, List.isEmpty_iff.mp hempty]
    simp [trim, hkeep]
  | case3 last hempty => rw [endLines, if_neg hempty]
  | case4 line rest hrest ih =>
    rw [endLines, List.map_cons, List.map_cons, trim_stripReturn, List.filter_cons,
      List.filter_cons, ih]
    exact hrest

/-! ## The notes do not matter -/

variable [Inhabited β]

theorem map_fst_trim (text : List (α × β)) :
    (trim text).map Prod.fst = trim (text.map Prod.fst) := by
  rw [trim, trim, List.dropWhile_map, List.rdropWhile, List.rdropWhile, ← List.map_reverse,
    List.dropWhile_map, List.map_reverse]
  rfl

theorem map_fst_stripReturn (line : List (α × β)) :
    (stripReturn line).map Prod.fst = stripReturn (line.map Prod.fst) := by
  have hreturn : (line.map Prod.fst).getLast?.any (char · == '\r') =
      line.getLast?.any (char · == '\r') := by
    rw [List.getLast?_map, Option.any_map]
    rfl
  rw [stripReturn, stripReturn, hreturn]
  split
  · rw [List.map_dropLast]
  · rfl

theorem map_fst_lines (text : List (α × β)) :
    (lines text).map (List.map Prod.fst) = lines (text.map Prod.fst) := by
  have hsplit : (text.map Prod.fst).splitOnP isNewline =
      (text.splitOnP isNewline).map (List.map Prod.fst) := map_splitOnP text
  rw [lines, lines, hsplit]
  induction text.splitOnP isNewline using endLines.induct with
  | case1 => rfl
  | case2 last hempty => simp [endLines, List.isEmpty_iff.mp hempty]
  | case3 last hempty => simp [endLines, List.isEmpty_iff.not.mp hempty]
  | case4 line rest hrest ih =>
    have hrest' : ∀ (h : rest.map (List.map Prod.fst) = []), False :=
      fun h => hrest (List.map_eq_nil_iff.mp h)
    rw [endLines, List.map_cons, List.map_cons, endLines, map_fst_stripReturn, ih]
    · exact hrest'
    · exact hrest

theorem startsWith_map_fst (pattern : List Char) (text : List (α × β)) :
    startsWith pattern (text.map Prod.fst) = startsWith pattern text := by
  rw [startsWith, startsWith, List.map_map]
  rfl

theorem map_fst_intercalate (texts : List (List (α × β))) :
    ([blank].intercalate texts).map Prod.fst =
      [blank].intercalate (texts.map (List.map Prod.fst)) := by
  induction texts with
  | nil => rfl
  | cons text texts ih =>
    cases texts with
    | nil => simp
    | cons text' texts =>
      rw [List.intercalate_cons_cons, List.map_append, List.map_append, ih]
      exact List.intercalate_cons_cons.symm

end Letters
