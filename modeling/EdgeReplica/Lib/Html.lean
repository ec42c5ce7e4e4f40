-- SUMMARY: HTML as text: character references, the tags of a document, and the text of a `pre` element.
import EdgeReplica.Lib.Text

/-!
# HTML

Five characters are written as references. A text of such references and of other
characters has no markup: it adds no tag to the document it stands in.
-/

namespace Html

/-- The references of the characters that have a meaning in markup. -/
def references : List (List Char) :=
  ["&lt;".toList, "&gt;".toList, "&amp;".toList, "&quot;".toList, "&#39;".toList]

/-- Replace these references by their characters. -/
def unescape : List Char → List Char
  | '&' :: 'l' :: 't' :: ';' :: text => '<' :: unescape text
  | '&' :: 'g' :: 't' :: ';' :: text => '>' :: unescape text
  | '&' :: 'a' :: 'm' :: 'p' :: ';' :: text => '&' :: unescape text
  | '&' :: 'q' :: 'u' :: 'o' :: 't' :: ';' :: text => '"' :: unescape text
  | '&' :: '#' :: '3' :: '9' :: ';' :: text => '\'' :: unescape text
  | c :: text => c :: unescape text
  | [] => []

theorem unescape_cons {c : Char} (h : c ≠ '&') (text : List Char) :
    unescape (c :: text) = c :: unescape text := by
  rw [unescape] <;> simp [h]

/-- No angle bracket and no quote, and every ampersand begins a reference. -/
structure Inert (text : List Char) : Prop where
  chars : ∀ c ∈ text, c ∉ ['<', '>', '"', '\'']
  ampersands : ∀ after, '&' :: after <:+ text → ∃ ref ∈ references, ref <+: '&' :: after

theorem inert_nil : Inert [] where
  chars _ hmem := absurd hmem List.not_mem_nil
  ampersands _ h := nomatch List.suffix_nil.mp h

theorem Inert.cons {c : Char} {text : List Char} (h : Inert text)
    (hc : c ∉ ['<', '>', '"', '\'']) (hamp : c = '&' → ∃ ref ∈ references, ref <+: '&' :: text) :
    Inert (c :: text) where
  chars := List.forall_mem_cons.mpr ⟨hc, h.chars⟩
  ampersands after hsuffix := by
    rcases List.suffix_cons_iff.mp hsuffix with heq | hsuffix
    · obtain ⟨hhead, rfl⟩ := List.cons_eq_cons.mp heq
      exact hamp hhead.symm
    · exact h.ampersands after hsuffix

theorem Inert.append {before text : List Char} (h : Inert text)
    (hchars : ∀ c ∈ before, c ∉ ['<', '>', '"', '\'', '&']) : Inert (before ++ text) := by
  induction before with
  | nil => exact h
  | cons c before ih =>
    obtain ⟨hc, hbefore⟩ := List.forall_mem_cons.mp hchars
    refine (ih hbefore).cons (fun hmem => hc (List.mem_append_left ['&'] hmem)) fun heq => ?_
    exact absurd (heq ▸ hc) (by decide)

/-- A reference before an inert text. -/
theorem Inert.reference {text ref : List Char} (h : Inert text) (href : ref ∈ references) :
    Inert (ref ++ text) := by
  have hshape : ∀ ref ∈ references, ∃ name, ref = '&' :: name ∧
      ∀ c ∈ name, c ∉ ['<', '>', '"', '\'', '&'] := by
    simp only [references, List.forall_mem_cons]
    exact ⟨⟨_, rfl, Text.forall_of_all (by decide)⟩, ⟨_, rfl, Text.forall_of_all (by decide)⟩,
      ⟨_, rfl, Text.forall_of_all (by decide)⟩, ⟨_, rfl, Text.forall_of_all (by decide)⟩,
      ⟨_, rfl, Text.forall_of_all (by decide)⟩, nofun⟩
  obtain ⟨name, rfl, hname⟩ := hshape ref href
  exact (h.append hname).cons (by decide) fun _ => ⟨_, href, List.prefix_append _ _⟩

/-! ## Tags -/

/-- The tags that are done, and the one being read. -/
abbrev Scan := List (List Char) × Option (List Char)

def scan : Scan → Char → Scan
  | (tags, none), c => if c = '<' then (tags, some []) else (tags, none)
  | (tags, some tag), c => if c = '>' then (tags ++ [tag], none) else (tags, some (tag ++ [c]))

/-- What stands between angle brackets. -/
def tags (text : List Char) : Scan := text.foldl scan ([], none)

example : tags "<b>a &lt; b</b>".toList = (["b".toList, "/b".toList], none) := by decide

theorem foldl_scan_inert {text : List Char} (h : Inert text) (done : List (List Char)) :
    text.foldl scan (done, none) = (done, none) := by
  have hchars : ∀ c ∈ text, c ≠ '<' := by
    rintro c hmem rfl
    exact h.chars '<' hmem (by decide)
  clear h
  induction text with
  | nil => rfl
  | cons c text ih =>
    obtain ⟨hc, htext⟩ := List.forall_mem_cons.mp hchars
    rw [List.foldl_cons, scan, if_neg hc, ih htext]

/-- An inert text between tags leaves the tags as they are. -/
theorem tags_fill {before hole after : List Char} (h : Inert hole)
    (hbefore : (tags before).2 = none) :
    tags (before ++ hole ++ after) = tags (before ++ after) := by
  have hstate : tags before = ((tags before).1, none) := by rw [← hbefore]
  unfold tags at hstate ⊢
  rw [List.foldl_append, List.foldl_append, List.foldl_append, hstate, foldl_scan_inert h]

/-! ## The text of an element -/

/-- Line ends become line feeds. Does a carriage return stand just before the text? -/
def normalizeFrom (afterReturn : Bool) : List Char → List Char
  | [] => []
  | c :: text =>
    if c = '\n' ∧ afterReturn then normalizeFrom false text
    else (if c = '\r' then '\n' else c) :: normalizeFrom (c = '\r') text

def normalizeNewlines (text : List Char) : List Char := normalizeFrom false text

/-- The text before and after the first `pattern`. -/
def cut (pattern : List Char) : List Char → Option (List Char × List Char)
  | [] => if pattern = [] then some ([], []) else none
  | c :: text =>
    if pattern <+: c :: text then some ([], (c :: text).drop pattern.length)
    else (cut pattern text).map fun (before, after) => (c :: before, after)

/-- The text of the first `pre` element, without the line end that may follow its tag. -/
def preText (body : List Char) : Option (List Char) := do
  let (_, rest) ← cut "<pre>".toList (normalizeNewlines body)
  let (raw, _) ← cut "</pre>".toList rest
  match raw with
  | '\n' :: raw => return unescape raw
  | raw => return unescape raw

example : preText "<p>a<pre>\nb &amp;\r\nc</pre>".toList = some "b &\nc".toList := by decide

theorem normalizeFrom_cons {c : Char} (hc : c ∉ ['\n', '\r']) (afterReturn : Bool)
    (text : List Char) :
    normalizeFrom afterReturn (c :: text) = c :: normalizeFrom false text := by
  simp only [List.mem_cons, List.not_mem_nil, or_false, not_or] at hc
  simp [normalizeFrom, hc.1, hc.2]

theorem normalizeFrom_append {before : List Char} (h : '\r' ∉ before) (text : List Char) :
    normalizeFrom false (before ++ text) = before ++ normalizeFrom false text := by
  induction before with
  | nil => rfl
  | cons c before ih =>
    rw [List.mem_cons, not_or] at h
    have hc : c ≠ '\r' := Ne.symm h.1
    rw [List.cons_append, List.cons_append, ← ih h.2, normalizeFrom]
    simp [hc]

theorem normalizeNewlines_eq_self {text : List Char} (h : '\r' ∉ text) :
    normalizeNewlines text = text := by
  have happend := normalizeFrom_append h []
  rwa [List.append_nil, show normalizeFrom false [] = [] from rfl, List.append_nil] at happend

theorem normalizeFrom_append_cons {c : Char} (hc : c ∉ ['\n', '\r']) (afterReturn : Bool)
    (before text : List Char) :
    normalizeFrom afterReturn (before ++ c :: text) =
      normalizeFrom afterReturn before ++ c :: normalizeFrom false text := by
  induction before generalizing afterReturn with
  | nil => exact normalizeFrom_cons hc afterReturn text
  | cons d before ih =>
    rw [List.cons_append, normalizeFrom, normalizeFrom]
    split
    · exact ih false
    · rw [ih, List.cons_append]

theorem return_notMem_normalizeFrom (afterReturn : Bool) (text : List Char) :
    '\r' ∉ normalizeFrom afterReturn text := by
  induction text generalizing afterReturn with
  | nil => exact List.not_mem_nil
  | cons c text ih =>
    rw [normalizeFrom]
    split
    · exact ih false
    · rw [List.mem_cons, not_or]
      refine ⟨?_, ih _⟩
      split
      · decide
      · next hc => exact Ne.symm hc

theorem length_normalizeFrom_le (afterReturn : Bool) (text : List Char) :
    (normalizeFrom afterReturn text).length ≤ text.length := by
  induction text generalizing afterReturn with
  | nil => exact Nat.le_refl 0
  | cons c text ih =>
    rw [normalizeFrom]
    split
    · exact Nat.le_succ_of_le (ih false)
    · exact Nat.succ_le_succ (ih _)

/-- An encoding of characters that leaves line ends alone commutes with their
normalisation. -/
theorem normalizeFrom_flatMap {f : Char → List Char}
    (hf : ∀ c, f c = [c] ∨ f c ≠ [] ∧ c ∉ ['\n', '\r'] ∧ ∀ d ∈ f c, d ∉ ['\n', '\r'])
    (afterReturn : Bool) (text : List Char) :
    normalizeFrom afterReturn (text.flatMap f) = (normalizeFrom afterReturn text).flatMap f := by
  have hpass (piece rest : List Char) (hpiece : ∀ d ∈ piece, d ∉ ['\n', '\r']) :
      normalizeFrom false (piece ++ rest) = piece ++ normalizeFrom false rest :=
    normalizeFrom_append (fun hmem => hpiece '\r' hmem (by decide)) rest
  have hline : f '\n' = ['\n'] ∧ f '\r' = ['\r'] := by
    constructor
    · exact (hf '\n').resolve_right fun h => h.2.1 (by decide)
    · exact (hf '\r').resolve_right fun h => h.2.1 (by decide)
  induction text generalizing afterReturn with
  | nil => rfl
  | cons c text ih =>
    rw [List.flatMap_cons]
    rcases hf c with hone | ⟨hne, hc, hpiece⟩
    · rw [hone, List.singleton_append, normalizeFrom, normalizeFrom]
      split
      · exact ih false
      · rw [ih, List.flatMap_cons]
        split
        · rw [hline.1]
          rfl
        · rw [hone]
          rfl
    · rw [normalizeFrom_cons hc, List.flatMap_cons, ← ih false]
      cases hpieces : f c with
      | nil => exact absurd hpieces hne
      | cons d piece =>
        rw [hpieces] at hpiece
        obtain ⟨hd, hpiece⟩ := List.forall_mem_cons.mp hpiece
        rw [List.cons_append, normalizeFrom_cons hd, hpass piece _ hpiece]
        rfl

theorem length_of_cut {pattern text before after : List Char}
    (h : cut pattern text = some (before, after)) : pattern.length ≤ text.length := by
  induction text generalizing before after with
  | nil =>
    rw [cut] at h
    split at h
    · next hempty => rw [hempty]
    · cases h
  | cons c text ih =>
    rw [cut] at h
    split at h
    · next hprefix => exact hprefix.length_le
    · obtain ⟨⟨before', after'⟩, hcut, -⟩ := Option.map_eq_some_iff.mp h
      exact Nat.le_succ_of_le (ih hcut)

/-- What is found in a text is found in a longer one. -/
theorem cut_append {pattern text before after : List Char}
    (h : cut pattern text = some (before, after)) (rest : List Char) (hne : pattern ≠ []) :
    cut pattern (text ++ rest) = some (before, after ++ rest) := by
  induction text generalizing before after with
  | nil =>
    rw [cut, if_neg hne] at h
    cases h
  | cons c text ih =>
    rw [cut] at h
    rw [List.cons_append, cut]
    split at h
    · next hprefix =>
      obtain ⟨rfl, rfl⟩ := Prod.mk.inj (Option.some.inj h)
      have hlonger : pattern <+: c :: (text ++ rest) :=
        hprefix.trans (List.prefix_append (c :: text) rest)
      rw [if_pos hlonger, ← List.drop_append_of_le_length hprefix.length_le]
      rfl
    · next hprefix =>
      obtain ⟨⟨before', after'⟩, hcut, heq⟩ := Option.map_eq_some_iff.mp h
      obtain ⟨rfl, rfl⟩ := Prod.mk.inj heq
      have hlonger : ¬ pattern <+: c :: (text ++ rest) := fun hlonger =>
        hprefix (List.prefix_of_prefix_length_le hlonger (List.prefix_append (c :: text) rest)
          (Nat.le_succ_of_le (length_of_cut hcut)))
      rw [if_neg hlonger, ih hcut]
      rfl

/-- A pattern is found behind a text without its first character. -/
theorem cut_of_notMem {c : Char} {pattern before : List Char} (after : List Char)
    (h : c ∉ before) :
    cut (c :: pattern) (before ++ c :: (pattern ++ after)) = some (before, after) := by
  induction before with
  | nil =>
    rw [List.nil_append, cut, if_pos ⟨after, rfl⟩]
    simp
  | cons d before ih =>
    rw [List.mem_cons, not_or] at h
    rw [List.cons_append, cut, if_neg fun hprefix => h.1 (List.cons_prefix_cons.mp hprefix).1,
      ih h.2]
    rfl

end Html
