-- SUMMARY: The token of an `Authorization` header, with the slices that cut it out: where they panic, and that elsewhere it is exactly what follows the scheme.
import EdgeReplica.Lib.Text

/-!
# Bearer extraction

The header is trimmed by characters and then cut at its seventh byte. The guard in front of
the cut counts bytes, and says nothing of where a character begins.
-/

namespace EdgeReplica

namespace Middleware

def scheme : String := "Bearer "

/-- Without a value where a slice panics. -/
def extractBearer (s : String) : Option (Option String) := do
  let s := Text.trim s
  if s.utf8ByteSize > scheme.utf8ByteSize then
    let (before, after) ← Text.splitAtByte s.toList scheme.utf8ByteSize
    if Text.eqIgnoreAsciiCase (.ofList before) scheme = true then
      some (some (Text.trim (.ofList after)))
    else some none
  else some none

example : extractBearer "BEARER  abc " = some (some "abc") ∧
    extractBearer "Basic abc" = some none := by decide

/-- The trimmed text is the scheme, in any letter case, and at least one more character;
trimmed, what follows the scheme is `t`. -/
def IsBearer (s t : String) : Prop :=
  ∃ before after, (Text.trim s).toList = before ++ after ∧ after ≠ [] ∧
    Text.eqIgnoreAsciiCase (.ofList before) scheme = true ∧ t = Text.trim (.ofList after)

/-! ## The scheme is ASCII -/

/-- Lower case is ASCII only where the character is. -/
theorem utf8Size_of_toLower {c : Char} (h : c.toLower.val ≤ 127) : c.utf8Size = 1 := by
  rw [Char.utf8Size_eq_one_iff]
  unfold Char.toLower at h
  split at h
  case isTrue hupper => exact UInt32.le_trans hupper.2 (by decide)
  case isFalse => exact h

theorem length_of_scheme {before : List Char}
    (h : Text.eqIgnoreAsciiCase (.ofList before) scheme = true) :
    before.length = scheme.length := by
  unfold Text.eqIgnoreAsciiCase at h
  rw [String.toList_ofList, beq_iff_eq] at h
  rw [← List.length_map Char.toLower, h, List.length_map, String.length_toList]

theorem utf8Size_of_scheme {before : List Char}
    (h : Text.eqIgnoreAsciiCase (.ofList before) scheme = true) :
    Text.utf8Size before = scheme.utf8ByteSize := by
  have hlength := length_of_scheme h
  unfold Text.eqIgnoreAsciiCase at h
  rw [String.toList_ofList, beq_iff_eq] at h
  have hlower : ∀ d ∈ scheme.toList.map Char.toLower, d.val ≤ 127 :=
    Text.forall_of_all (by decide)
  have hone : ∀ c ∈ before, c.utf8Size = 1 := fun c hc =>
    utf8Size_of_toLower (hlower c.toLower (h ▸ List.mem_map_of_mem hc))
  rw [Text.utf8Size, List.map_congr_left hone, List.map_const', hlength]
  decide

/-- What follows the scheme ends the trimmed text, so that it is not all white space. -/
theorem trim_ne_empty {s t : String} (h : IsBearer s t) : t ≠ "" := by
  obtain ⟨before, after, heq, hafter, -, rfl⟩ := h
  intro hempty
  have hblank := Text.trim_eq_empty.mp hempty
  rw [String.toList_ofList] at hblank
  have hlast := (Text.trimmed_trim s).2 (after.getLast hafter) (by
    rw [heq, List.getLast?_append_of_ne_nil _ hafter, List.getLast?_eq_getLast_of_ne_nil hafter]
    rfl)
  rw [hblank _ (List.getLast_mem hafter)] at hlast
  cases hlast

/-! ## The three ways through the function -/

/-- A text with the scheme and something after it is longer than the scheme, and is cut behind
the scheme. -/
theorem splitAtByte_of_isBearer {s t : String} (h : IsBearer s t) :
    scheme.utf8ByteSize < (Text.trim s).utf8ByteSize ∧
      ∃ before after, Text.splitAtByte (Text.trim s).toList scheme.utf8ByteSize =
        some (before, after) ∧ Text.eqIgnoreAsciiCase (.ofList before) scheme = true ∧
        t = Text.trim (.ofList after) := by
  obtain ⟨before, after, heq, hafter, hscheme, rfl⟩ := h
  have hsize := utf8Size_of_scheme hscheme
  refine ⟨?_, before, after, Text.splitAtByte_eq_some.mpr ⟨heq, hsize⟩, hscheme, rfl⟩
  rw [Text.utf8ByteSize_eq (Text.trim s), heq, Text.utf8Size_append, hsize]
  exact Nat.lt_add_of_pos_right (Text.utf8Size_pos hafter)

theorem extractBearer_of_short {s : String}
    (h : (Text.trim s).utf8ByteSize ≤ scheme.utf8ByteSize) : extractBearer s = some none := by
  unfold extractBearer
  rw [if_neg (Nat.not_lt.mpr h)]

theorem extractBearer_of_boundary {s : String} {before after : List Char}
    (hlong : scheme.utf8ByteSize < (Text.trim s).utf8ByteSize)
    (hsplit : Text.splitAtByte (Text.trim s).toList scheme.utf8ByteSize = some (before, after)) :
    extractBearer s =
      if Text.eqIgnoreAsciiCase (.ofList before) scheme = true then
        some (some (Text.trim (.ofList after)))
      else some none := by
  unfold extractBearer
  rw [if_pos hlong, hsplit]
  rfl

theorem extractBearer_of_inside {s : String}
    (hlong : scheme.utf8ByteSize < (Text.trim s).utf8ByteSize)
    (h : ¬ Text.IsCharBoundary (Text.trim s) scheme.utf8ByteSize) : extractBearer s = none := by
  have hnone : Text.splitAtByte (Text.trim s).toList scheme.utf8ByteSize = none := by
    rw [← Option.not_isSome_iff_eq_none, Text.splitAtByte_isSome]
    exact h
  unfold extractBearer
  rw [if_pos hlong, hnone]
  rfl

/-! ## Exactness -/

/-- A token comes out exactly where the scheme and something after it are there. -/
theorem extractBearer_eq_some {s t : String} :
    extractBearer s = some (some t) ↔ IsBearer s t := by
  constructor
  · intro h
    by_cases hlong : scheme.utf8ByteSize < (Text.trim s).utf8ByteSize
    · cases hsplit : Text.splitAtByte (Text.trim s).toList scheme.utf8ByteSize with
      | none =>
        unfold extractBearer at h
        rw [if_pos hlong, hsplit] at h
        cases h
      | some parts =>
        obtain ⟨before, after⟩ := parts
        rw [extractBearer_of_boundary hlong hsplit] at h
        obtain ⟨heq, hsize⟩ := Text.splitAtByte_eq_some.mp hsplit
        split at h
        case isTrue hscheme =>
          refine ⟨before, after, heq, ?_, hscheme, (Option.some.inj (Option.some.inj h)).symm⟩
          rintro rfl
          rw [Text.utf8ByteSize_eq (Text.trim s), heq, List.append_nil, hsize] at hlong
          exact Nat.lt_irrefl _ hlong
        case isFalse => cases h
    · rw [extractBearer_of_short (Nat.not_lt.mp hlong)] at h
      cases h
  · intro h
    obtain ⟨hlong, before, after, hsplit, hscheme, rfl⟩ := splitAtByte_of_isBearer h
    rw [extractBearer_of_boundary hlong hsplit, if_pos hscheme]

/-- The function returns, and what it returns is the token after the scheme if there is one. -/
def Exact (s : String) : Prop :=
  ∃ result, extractBearer s = some result ∧ (∀ t, result = some t ↔ IsBearer s t) ∧
    ∀ t, result = some t → t ≠ ""

/-- No character of the trimmed text is cut. -/
def OnBoundary (s : String) : Prop :=
  (Text.trim s).utf8ByteSize ≤ scheme.utf8ByteSize ∨
    Text.IsCharBoundary (Text.trim s) scheme.utf8ByteSize

instance (s : String) : Decidable (OnBoundary s) := by
  unfold OnBoundary
  infer_instance

theorem extractBearer_ne_none {s : String} : extractBearer s ≠ none ↔ OnBoundary s := by
  constructor
  · intro h
    by_contra hcut
    obtain ⟨hlong, hinside⟩ := not_or.mp hcut
    exact h (extractBearer_of_inside (Nat.not_le.mp hlong) hinside)
  · intro h hnone
    by_cases hlong : scheme.utf8ByteSize < (Text.trim s).utf8ByteSize
    · obtain ⟨before, after, hparts⟩ := h.resolve_left (Nat.not_le.mpr hlong)
      rw [extractBearer_of_boundary hlong (Text.splitAtByte_eq_some.mpr hparts)] at hnone
      split at hnone <;> cases hnone
    · rw [extractBearer_of_short (Nat.not_lt.mp hlong)] at hnone
      cases hnone

/-- The function is total and exact on just the texts that it cuts between two characters. -/
theorem extract_bearer_iff (s : String) : Exact s ↔ OnBoundary s := by
  rw [← extractBearer_ne_none]
  constructor
  · rintro ⟨result, hresult, -⟩ hnone
    rw [hnone] at hresult
    cases hresult
  · intro h
    obtain ⟨result, hresult⟩ := Option.ne_none_iff_exists'.mp h
    have hexact : ∀ t, result = some t ↔ IsBearer s t := by
      intro t
      rw [← extractBearer_eq_some, hresult, Option.some.injEq]
    exact ⟨result, hresult, hexact, fun t ht => trim_ne_empty ((hexact t).mp ht)⟩

/-- An accented letter across the seventh byte of a header with another scheme. -/
theorem extract_bearer_cut : ¬ ∀ s, Exact s := by
  intro h
  obtain ⟨result, hresult, -⟩ := h "Basic \u00E9"
  have hpanic : extractBearer "Basic \u00E9" = none := by decide
  rw [hpanic] at hresult
  cases hresult

end Middleware

end EdgeReplica
