-- SUMMARY: What the decoder of the callback page makes of any text, and that it reads back what the encoder wrote.
import EdgeReplica.Lib.FormCoding
import EdgeReplica.Services.OAuth
import EdgeReplica.Worker.Routes

/-!
# URL decoding

The decoder's loop ends and stays in range. It is a form decoder, but for one thing: the
parser of the two bytes after a percent sign also takes a plus sign with a digit. The
encoder writes no such escape, so that its values come back as they were.
-/

namespace EdgeReplica

namespace Routes

open Form (decodeWith)

/-! ## The loop -/

/-- The byte that the source reads after a percent sign. -/
def escape (hi lo : UInt8) : Option UInt8 := hexByte [hi, lo]

theorem escape_eq (hi lo : UInt8) :
    escape hi lo = if hi = Hex.plus then Hex.value? lo else Hex.byte? hi lo := by
  rw [escape, hexByte, ← Hex.fromStrRadix_pair]
  cases hpair : Protobuf.ofUtf8? [hi, lo] with
  | some s => rw [Option.getD_some, Protobuf.utf8_of_ofUtf8? hpair]
  | none =>
    -- Bytes that are no text are no digits and no sign either.
    have hdigit : ∀ b : UInt8, 128 ≤ b.toNat → Hex.value? b = none ∧ b ≠ Hex.plus :=
      Hex.forall_byte (by decide +kernel)
    by_cases hascii : ∀ b ∈ [hi, lo], b.toNat < 128
    · obtain ⟨s, hs⟩ := Utf8.exists_utf8_eq hascii
      rw [← hs, Protobuf.ofUtf8?_utf8] at hpair
      cases hpair
    · rw [Hex.fromStrRadix_pair]
      simp only [List.forall_mem_cons, List.not_mem_nil, false_implies, implies_true, and_true,
        not_and_or, Nat.not_lt] at hascii
      rcases hascii with hhi | hlo
      · obtain ⟨hnone, hne⟩ := hdigit hi hhi
        rw [if_neg hne, Hex.byte?, hnone]
        rfl
      · rw [Hex.byte?, (hdigit lo hlo).1]
        cases Hex.value? hi <;> split <;> rfl

/-- The source reads the escapes of the format, and those with a sign. -/
theorem extends_byte? : Form.Extends escape Hex.byte? where
  reads hi lo byte h := by
    rw [escape_eq, if_neg, h]
    rintro rfl
    cases h
  percent hi lo byte h := by
    rw [escape_eq] at h
    constructor
    · rintro rfl
      cases h
    · rintro rfl
      cases hhi : Hex.value? hi <;> rw [Hex.byte?, hhi] at h <;> split at h <;> cases h

theorem slice_pair {bytes rest : List UInt8} {i : Nat} {hi lo : UInt8}
    (h : bytes.drop i = hi :: lo :: rest) : slice bytes i (i + 2) = some [hi, lo] := by
  have hlength := congrArg List.length h
  rw [List.length_drop, List.length_cons, List.length_cons] at hlength
  rw [slice, if_pos ⟨Nat.le_add_right _ _, by omega⟩, List.drop_take, h, Nat.add_sub_cancel_left]
  rfl

/-- A turn goes on by the bytes that it decodes, and stays in range. -/
theorem urlDecodeTurn_eq {bytes : List UInt8} {i : Nat} (hi : i < bytes.length)
    (out : List UInt8) :
    ∃ i' byte, urlDecodeTurn bytes i out = some (i', out ++ [byte]) ∧ i < i' ∧
      i' ≤ bytes.length ∧
      decodeWith escape (bytes.drop i) = byte :: decodeWith escape (bytes.drop i') := by
  rw [urlDecodeTurn, List.getElem?_eq_getElem hi, List.drop_eq_getElem_cons hi]
  generalize bytes[i] = b
  simp only [Option.bind_eq_bind, Option.bind_some]
  split
  · next hplus =>
    subst hplus
    exact ⟨i + 1, 32, rfl, Nat.lt_succ_self i, hi, Form.decodeWith_cons (by decide) _⟩
  · next hplus =>
    have hplain : Form.plain b = b := if_neg hplus
    split
    · next hescape =>
      obtain ⟨rfl, hroom⟩ := hescape
      obtain ⟨hi', lo, hpair⟩ : ∃ hi' lo, bytes.drop (i + 1) = hi' :: lo :: bytes.drop (i + 3) :=
        ⟨bytes[i + 1], bytes[i + 2], by
          rw [List.drop_eq_getElem_cons (by omega), List.drop_eq_getElem_cons (by omega)]⟩
      rw [slice_pair hpair, Option.bind_some, hpair]
      cases hread : escape hi' lo with
      | some byte =>
        rw [show hexByte [hi', lo] = some byte from hread]
        exact ⟨i + 3, byte, rfl, by omega, hroom, Form.decodeWith_escape hread _⟩
      | none =>
        rw [show hexByte [hi', lo] = none from hread]
        refine ⟨i + 1, 37, rfl, Nat.lt_succ_self i, hi, ?_⟩
        rw [hpair]
        exact Form.decodeWith_malformed hread _
    · next hescape =>
      refine ⟨i + 1, b, rfl, Nat.lt_succ_self i, hi, ?_⟩
      by_cases hpercent : b = Form.percent
      · have hshort : (bytes.drop (i + 1)).length < 2 := by
          rw [List.length_drop]
          have hroom : ¬ i + 2 < bytes.length := fun hroom => hescape ⟨hpercent, hroom⟩
          omega
        rw [Form.decodeWith_short hshort, hplain]
      · rw [Form.decodeWith_cons hpercent, hplain]

/-- The loop decodes what is left of the bytes, given a turn for each of them. -/
theorem urlDecodeLoop_eq {bytes : List UInt8} {turns i : Nat} (hi : i ≤ bytes.length)
    (hturns : bytes.length - i < turns) (out : List UInt8) :
    urlDecodeLoop bytes turns i out = some (out ++ decodeWith escape (bytes.drop i)) := by
  induction turns generalizing i out with
  | zero => exact absurd hturns (Nat.not_lt_zero _)
  | succ turns ih =>
    rw [urlDecodeLoop]
    split
    · next hlt =>
      obtain ⟨i', byte, hturn, hnext, hrange, hdecoded⟩ := urlDecodeTurn_eq hlt out
      have hrest := ih hrange (by omega) (out ++ [byte])
      rw [hturn, Option.bind_some, hdecoded]
      exact hrest.trans (by rw [List.append_assoc]; rfl)
    · next hge =>
      rw [List.drop_eq_nil_of_le (Nat.not_lt.mp hge)]
      exact congrArg some (List.append_nil out).symm

theorem urlDecodeBytes_eq (s : String) :
    urlDecodeBytes s = some (decodeWith escape (Protobuf.utf8 s)) :=
  urlDecodeLoop_eq (Nat.zero_le _) (Nat.lt_succ_self _) []

theorem urlDecode_eq (s : String) :
    urlDecode s = Utf8.fromUtf8Lossy (decodeWith escape (Protobuf.utf8 s)) := by
  rw [urlDecode, urlDecodeBytes_eq, Option.getD_some]

/-- A percent sign, a plus sign and a digit. -/
def SignedEscape (bytes : List UInt8) : Prop :=
  ∃ digit, (Hex.value? digit).isSome = true ∧ [Form.percent, Hex.plus, digit] <:+: bytes

theorem agree_iff (bytes : List UInt8) :
    Form.Agree escape Hex.byte? bytes ↔ ¬ SignedEscape bytes := by
  constructor
  · rintro hagree ⟨digit, hdigit, hin⟩
    have hread := hagree Hex.plus digit hin
    rw [escape_eq, if_pos rfl] at hread
    rw [hread] at hdigit
    cases hdigit
  · intro hnone hi lo hin
    rw [escape_eq]
    split
    · next hplus =>
      subst hplus
      cases hlo : Hex.value? lo with
      | none => rfl
      | some d => exact absurd ⟨lo, by rw [hlo]; rfl, hin⟩ hnone
    · rfl

/-- The loop ends without a panic. Its bytes are those of the form decoder exactly if no
percent sign has a sign and a digit behind it. -/
theorem url_decode_iff (s : String) :
    ∃ out, urlDecodeBytes s = some out ∧
      (out = Form.decode (Protobuf.utf8 s) ↔ ¬ SignedEscape (Protobuf.utf8 s)) := by
  refine ⟨_, urlDecodeBytes_eq s, ?_⟩
  rw [← agree_iff]
  exact Form.decodeWith_eq_iff extends_byte? _

/-- The parser of the two bytes takes a sign. -/
theorem url_decode_signed :
    urlDecodeBytes "%+A" = some [10] ∧
      Form.decode (Protobuf.utf8 "%+A") = Protobuf.utf8 "% A" ∧
      urlDecodeBytes "%+A" ≠ some (Form.decode (Protobuf.utf8 "%+A")) := by
  decide +kernel

/-! ## What the encoder writes -/

def IsUnreserved (c : Char) : Prop := c.isAlphanum = true ∨ c ∈ ['-', '_', '.', '~']

/-- The text that stands for a byte: the character itself, a plus sign, or an escape. -/
inductive Encodes : List Char → UInt8 → Prop where
  | unreserved (c : Char) (h : IsUnreserved c) : Encodes [c] (UInt8.ofNat c.toNat)
  | space : Encodes ['+'] Form.space
  | escaped (hi lo : Char) (b : UInt8)
      (h : Hex.byte? (UInt8.ofNat hi.toNat) (UInt8.ofNat lo.toNat) = some b)
      (hhi : hi.isAlphanum = true) (hlo : lo.isAlphanum = true) : Encodes ['%', hi, lo] b

theorem encodes_urlencodeByte (b : UInt8) : Encodes (OAuth.urlencodeByte b) b := by
  have hbyte : ∀ n < 256, (Char.ofNat n).toNat = n := by decide +kernel
  have hhex : ∀ b : UInt8,
      Hex.byte? (UInt8.ofNat (OAuth.hexDigit (b.toNat / 16)).toNat)
        (UInt8.ofNat (OAuth.hexDigit (b.toNat % 16)).toNat) = some b ∧
      (OAuth.hexDigit (b.toNat / 16)).isAlphanum = true ∧
      (OAuth.hexDigit (b.toNat % 16)).isAlphanum = true :=
    Hex.forall_byte (by decide +kernel)
  have hchar : UInt8.ofNat (Char.ofNat b.toNat).toNat = b := by
    rw [hbyte b.toNat b.toNat_lt, UInt8.ofNat_toNat]
  unfold OAuth.urlencodeByte
  dsimp only
  split
  · next h =>
    have hunreserved : IsUnreserved (Char.ofNat b.toNat) := by simpa [IsUnreserved] using h
    have hencodes := Encodes.unreserved _ hunreserved
    rwa [hchar] at hencodes
  · split
    · next h =>
      rw [h] at hchar
      rw [← hchar]
      exact .space
    · obtain ⟨hread, hhi, hlo⟩ := hhex b
      exact .escaped _ _ b hread hhi hlo

theorem lt_of_isAlphanum {c : Char} (h : c.isAlphanum = true) : c.toNat < 128 := by
  have hle (last : Char) (hc : c.val ≤ last.val) (hlast : last.val.toNat < 128) :
      c.toNat < 128 := lt_of_le_of_lt (UInt32.le_iff_toNat_le.mp hc) hlast
  obtain halpha | hdigit := Bool.or_eq_true_iff.mp h
  · obtain hupper | hlower := Bool.or_eq_true_iff.mp halpha
    · exact hle 'Z' (of_decide_eq_true hupper).2 (by decide)
    · exact hle 'z' (of_decide_eq_true (Bool.and_eq_true_iff.mp hlower).2) (by decide)
  · exact hle '9' (of_decide_eq_true (Bool.and_eq_true_iff.mp hdigit).2) (by decide)

theorem IsUnreserved.ascii {c : Char} (h : IsUnreserved c) : c.toNat < 128 := by
  rcases h with h | h
  · exact lt_of_isAlphanum h
  · exact Text.forall_of_all (P := fun c => c.toNat < 128) (by decide) c h

/-- No delimiter of a query stands in an encoded byte, and all of it is ASCII. -/
theorem Encodes.chars {piece : List Char} {b : UInt8} (h : Encodes piece b) :
    ∀ c ∈ piece, c.toNat < 128 ∧ c ≠ '&' ∧ c ≠ '=' := by
  have hother {c : Char} (hc : IsUnreserved c) : c ≠ '&' ∧ c ≠ '=' := by
    constructor <;> rintro rfl <;> revert hc <;> unfold IsUnreserved <;> decide
  cases h with
  | unreserved c h =>
    intro c' hmem
    obtain rfl := List.mem_singleton.mp hmem
    exact ⟨h.ascii, hother h⟩
  | space => exact Text.forall_of_all (by decide)
  | escaped hi lo b h hhi hlo =>
    simp only [List.forall_mem_cons]
    exact ⟨by decide, ⟨lt_of_isAlphanum hhi, hother (.inl hhi)⟩,
      ⟨lt_of_isAlphanum hlo, hother (.inl hlo)⟩, fun _ hmem => nomatch hmem⟩

/-- The decoder reads the byte back. -/
theorem Encodes.decodes {piece : List Char} {b : UInt8} (h : Encodes piece b)
    (rest : List UInt8) :
    decodeWith escape (Utf8.asciiBytes piece ++ rest) = b :: decodeWith escape rest := by
  cases h with
  | unreserved c h =>
    have hbyte : ∀ n < 128, UInt8.ofNat n = Form.percent ∨ UInt8.ofNat n = Form.plus →
        Char.ofNat n = '%' ∨ Char.ofNat n = '+' := by decide +kernel
    have hc := hbyte c.toNat h.ascii
    rw [Char.ofNat_toNat] at hc
    have hneither : ¬ (c = '%' ∨ c = '+') := by
      rintro (rfl | rfl) <;> revert h <;> unfold IsUnreserved <;> decide
    have hplus : UInt8.ofNat c.toNat ≠ Form.plus := fun heq => hneither (hc (.inr heq))
    refine (Form.decodeWith_cons (fun heq => hneither (hc (.inl heq))) rest).trans ?_
    rw [Form.plain, if_neg hplus]
  | space => exact Form.decodeWith_cons (by decide) rest
  | escaped hi lo b h => exact Form.decodeWith_escape (extends_byte?.reads _ _ b h) rest

open OAuth (urlencode urlencodeByte githubAuthorizeUrl)

theorem urlencode_chars (s : String) :
    ∀ c ∈ (urlencode s).toList, c.toNat < 128 ∧ c ≠ '&' ∧ c ≠ '=' := by
  intro c hmem
  rw [urlencode, String.toList_ofList] at hmem
  obtain ⟨b, -, hc⟩ := List.mem_flatMap.mp hmem
  exact (encodes_urlencodeByte b).chars c hc

theorem utf8_urlencode (s : String) :
    Protobuf.utf8 (urlencode s) =
      (Protobuf.utf8 s).flatMap fun b => Utf8.asciiBytes (urlencodeByte b) := by
  have hascii := urlencode_chars s
  rw [urlencode, String.toList_ofList] at hascii
  rw [urlencode, Utf8.utf8_ascii fun c hc => (hascii c hc).1, Utf8.asciiBytes, List.map_flatMap]
  rfl

theorem urlDecode_urlencode (s : String) : urlDecode (urlencode s) = s := by
  have hbytes (bytes : List UInt8) :
      decodeWith escape (bytes.flatMap fun b => Utf8.asciiBytes (urlencodeByte b)) = bytes := by
    induction bytes with
    | nil => rfl
    | cons b bytes ih => rw [List.flatMap_cons, (encodes_urlencodeByte b).decodes, ih]
  rw [urlDecode_eq, utf8_urlencode, hbytes, Utf8.fromUtf8Lossy_utf8]

/-! ## Queries -/

/-- The text of a parameter, encoded. -/
def encodePair (pair : String × String) : String := pair.1 ++ "=" ++ urlencode pair.2

def encodeQuery (pairs : List (String × String)) : String :=
  .ofList (['&'].intercalate (pairs.map fun pair => (encodePair pair).toList))

theorem readPair_encodePair {pair : String × String} (hkey : '=' ∉ pair.1.toList) :
    readPair (encodePair pair) = pair := by
  have hsplit : Text.splitOnce (encodePair pair) '=' = some (pair.1, urlencode pair.2) := by
    refine Text.splitOnce_append ?_ hkey
    rw [encodePair, String.toList_append, String.toList_append, List.append_assoc]
    rfl
  rw [readPair, hsplit, Option.getD_some]
  exact congrArg (Prod.mk pair.1) (urlDecode_urlencode pair.2)

theorem amp_notMem_encodePair {pair : String × String} (hkey : '&' ∉ pair.1.toList) :
    '&' ∉ (encodePair pair).toList := by
  rw [encodePair, String.toList_append, String.toList_append, List.mem_append, List.mem_append]
  rintro ((hmem | hmem) | hmem)
  · exact hkey hmem
  · cases List.mem_singleton.mp hmem
  · exact (urlencode_chars pair.2 '&' hmem).2.1 rfl

/-- An encoded query is read back, pair for pair. -/
theorem read_encodeQuery {pairs : List (String × String)} (hne : pairs ≠ [])
    (hkeys : ∀ pair ∈ pairs, '&' ∉ pair.1.toList ∧ '=' ∉ pair.1.toList) :
    (queryPairs (encodeQuery pairs)).map readPair = pairs := by
  have hsplit : Text.split (encodeQuery pairs) '&' = pairs.map encodePair := by
    rw [Text.split, encodeQuery, String.toList_ofList, List.splitOn_intercalate]
    · rw [List.map_map]
      exact List.map_congr_left fun pair _ => String.ofList_toList
    · intro piece hpiece
      obtain ⟨pair, hpair, rfl⟩ := List.mem_map.mp hpiece
      exact amp_notMem_encodePair (hkeys pair hpair).1
    · simpa using hne
  have hfilter : (pairs.map encodePair).filter (· ≠ "") = pairs.map encodePair := by
    refine List.filter_eq_self.mpr fun piece hpiece => ?_
    obtain ⟨pair, -, rfl⟩ := List.mem_map.mp hpiece
    refine decide_eq_true fun hempty => ?_
    have hlength := congrArg String.length hempty
    simp [encodePair] at hlength
  rw [queryPairs, hsplit, hfilter, List.map_map]
  refine (List.map_congr_left fun pair hpair => ?_).trans (List.map_id pairs)
  exact readPair_encodePair (hkeys pair hpair).2

/-- The parameters of the authorize URL. -/
def authorizeParams (clientId redirectUri state : String) : List (String × String) :=
  [("client_id", clientId), ("redirect_uri", redirectUri), ("state", state),
    ("scope", OAuth.GITHUB_SCOPES)]

theorem githubAuthorizeUrl_eq (clientId redirectUri state : String) :
    githubAuthorizeUrl clientId redirectUri state =
      OAuth.GITHUB_AUTHORIZE_URL ++ "?" ++
        encodeQuery (authorizeParams clientId redirectUri state) := by
  rw [← String.toList_inj]
  simp [githubAuthorizeUrl, encodeQuery, authorizeParams, encodePair, List.intercalate]

/-- What is encoded comes back. The encoder writes unreserved characters, plus signs and
escapes, so that no value of the authorize URL holds a delimiter, and its query is read
back as it was put together. -/
theorem oauth_parameters_survive :
    (∀ s, urlDecode (urlencode s) = s) ∧
    (∀ s, ∃ pieces : List (List Char), (urlencode s).toList = pieces.flatten ∧
      ∀ piece ∈ pieces, ∃ b, Encodes piece b) ∧
    ∀ clientId redirectUri state, ∃ query,
      Text.splitOnce (githubAuthorizeUrl clientId redirectUri state) '?' =
        some (OAuth.GITHUB_AUTHORIZE_URL, query) ∧
      (queryPairs query).map readPair =
        [("client_id", clientId), ("redirect_uri", redirectUri), ("state", state),
          ("scope", OAuth.GITHUB_SCOPES)] := by
  refine ⟨urlDecode_urlencode, fun s => ?_, fun clientId redirectUri state => ?_⟩
  · refine ⟨(Protobuf.utf8 s).map urlencodeByte, ?_, fun piece hpiece => ?_⟩
    · rw [urlencode, String.toList_ofList, List.flatMap_def]
    · obtain ⟨b, -, rfl⟩ := List.mem_map.mp hpiece
      exact ⟨b, encodes_urlencodeByte b⟩
  · refine ⟨encodeQuery (authorizeParams clientId redirectUri state), ?_, ?_⟩
    · refine Text.splitOnce_append ?_ (by decide)
      rw [githubAuthorizeUrl_eq, String.toList_append, String.toList_append, List.append_assoc]
      rfl
    · refine read_encodeQuery (List.cons_ne_nil _ _) fun pair hpair => ?_
      have hkeys : pair.1 ∈ ["client_id", "redirect_uri", "state", "scope"] := by
        have hmem := List.mem_map_of_mem (f := Prod.fst) hpair
        exact hmem
      revert hkeys
      generalize pair.1 = key
      revert key
      decide

end Routes

end EdgeReplica
