-- SUMMARY: The callback page for any query: what its holes are filled with, and when its command can be pasted.
import EdgeReplica.Lib.Html
import EdgeReplica.Lib.Shell
import EdgeReplica.Worker.Routes

/-!
# The callback page

Whoever writes a link to the callback chooses the query, and with it the values on the
page. Escaped they add no markup. The command around them is another matter: a shell
reads it as it is meant exactly if both values are plain words.
-/

namespace EdgeReplica

namespace Routes

/-! ## The values of a query -/

/-- The last decoded value under one of the keys. -/
def lastValue (keys : List String) (pairs : List (String × String)) : Option String :=
  (pairs.filter fun pair => pair.1 ∈ keys).getLast?.map Prod.snd

theorem lastValue_concat (keys : List String) (pairs : List (String × String))
    (pair : String × String) :
    lastValue keys (pairs ++ [pair]) =
      if pair.1 ∈ keys then some pair.2 else lastValue keys pairs := by
  rw [lastValue, List.filter_append]
  split
  · next hmem => simp [hmem]
  · next hmem => simp [hmem, lastValue]

/-- What a page shows. -/
inductive Shown where
  | error (err : String)
  | success (state code : String)
  | missing
deriving DecidableEq

def errorKeys : List String := ["error", "error_description"]

/-- The error of a query goes before its other values. -/
def shown (query : String) : Shown :=
  let pairs := (queryPairs query).map readPair
  match lastValue errorKeys pairs, lastValue ["state"] pairs, lastValue ["code"] pairs with
  | some err, _, _ => .error err
  | none, some state, some code => .success state code
  | none, _, _ => .missing

/-- The loop keeps the last values. -/
theorem readParams_eq (query : String) :
    let pairs := (queryPairs query).map readPair
    readParams query =
      ⟨lastValue ["state"] pairs, lastValue ["code"] pairs, lastValue errorKeys pairs⟩ := by
  have hloop (pairs : List String) : pairs.foldl Params.take {} =
      ⟨lastValue ["state"] (pairs.map readPair), lastValue ["code"] (pairs.map readPair),
        lastValue errorKeys (pairs.map readPair)⟩ := by
    induction pairs using List.reverseRecOn with
    | nil => rfl
    | append_singleton pairs pair ih =>
      rw [List.foldl_append, List.foldl_cons, List.foldl_nil, ih, List.map_append, List.map_cons,
        List.map_nil, lastValue_concat, lastValue_concat, lastValue_concat, Params.take]
      generalize readPair pair = read
      obtain ⟨key, value⟩ := read
      dsimp only
      split
      · next h => subst h; rfl
      split
      · next h => subst h; rfl
      split
      · next hstate hcode herror =>
        simp only [hstate, hcode, if_false, errorKeys, List.mem_cons, List.not_mem_nil, or_false,
          herror, if_true]
      · next hstate hcode herror =>
        simp only [hstate, hcode, if_false, errorKeys, List.mem_cons, List.not_mem_nil, or_false,
          herror]
  exact hloop (queryPairs query)

/-- The body of the page that shows this. -/
def Shown.body : Shown → String
  | .error err => oauthErrorHtml err
  | .success state code => oauthSuccessHtml state code
  | .missing => missingHtml

theorem oauthCallbackPage_body (query : Option String) :
    (oauthCallbackPage query).body = (shown (query.getD "")).body := by
  have hparams := readParams_eq (query.getD "")
  dsimp only at hparams
  rw [oauthCallbackPage, hparams, shown]
  dsimp only
  cases lastValue errorKeys ((queryPairs (query.getD "")).map readPair) with
  | some err => rfl
  | none =>
    cases lastValue ["state"] ((queryPairs (query.getD "")).map readPair) with
    | none => rfl
    | some state =>
      cases lastValue ["code"] ((queryPairs (query.getD "")).map readPair) <;> rfl

/-! ## Escaping -/

/-- A character is escaped to a reference, which is replaced by it again, or left alone. -/
theorem htmlEscapeChar_cases (c : Char) :
    (htmlEscapeChar c ∈ Html.references ∧ c ∈ ['<', '>', '"', '\'', '&'] ∧
      ∀ text, Html.unescape (htmlEscapeChar c ++ text) = c :: Html.unescape text) ∨
    (htmlEscapeChar c = [c] ∧ c ∉ ['<', '>', '"', '\'', '&']) := by
  unfold htmlEscapeChar
  split
  · exact .inl ⟨by decide, by decide, fun _ => rfl⟩
  · exact .inl ⟨by decide, by decide, fun _ => rfl⟩
  · exact .inl ⟨by decide, by decide, fun _ => rfl⟩
  · exact .inl ⟨by decide, by decide, fun _ => rfl⟩
  · exact .inl ⟨by decide, by decide, fun _ => rfl⟩
  · next hlt hgt hamp hquot hapos =>
    refine .inr ⟨rfl, ?_⟩
    simp only [List.mem_cons, List.not_mem_nil, or_false, not_or]
    exact ⟨hlt, hgt, hquot, hapos, hamp⟩

theorem inert_escape (text : List Char) : Html.Inert (text.flatMap htmlEscapeChar) := by
  induction text with
  | nil => exact Html.inert_nil
  | cons c text ih =>
    rw [List.flatMap_cons]
    rcases htmlEscapeChar_cases c with ⟨href, -, -⟩ | ⟨hone, hc⟩
    · exact ih.reference href
    · rw [hone]
      exact ih.append fun d hd => List.mem_singleton.mp hd ▸ hc

theorem unescape_escape (text : List Char) :
    Html.unescape (text.flatMap htmlEscapeChar) = text := by
  induction text with
  | nil => rfl
  | cons c text ih =>
    rw [List.flatMap_cons]
    rcases htmlEscapeChar_cases c with ⟨-, -, hunescape⟩ | ⟨hone, hc⟩
    · rw [hunescape, ih]
    · rw [hone, List.singleton_append, Html.unescape_cons _ _, ih]
      rintro rfl
      exact hc (by decide)

theorem escape_inj {text text' : List Char}
    (h : text.flatMap htmlEscapeChar = text'.flatMap htmlEscapeChar) : text = text' := by
  rw [← unescape_escape text, h, unescape_escape]

/-- A hole is filled with a text without markup that stands for the value. -/
structure Fills (hole value : String) : Prop where
  inert : Html.Inert hole.toList
  stands : .ofList (Html.unescape hole.toList) = value

theorem fills_htmlEscape (value : String) : Fills (htmlEscape value) value where
  inert := by
    rw [htmlEscape, String.toList_ofList]
    exact inert_escape _
  stands := by rw [htmlEscape, String.toList_ofList, unescape_escape, String.ofList_toList]

/-- The page is a template with its holes filled. -/
inductive Rendered : Shown → String → Prop where
  | error {err hole : String} (h : Fills hole err) : Rendered (.error err) (errorTemplate hole)
  | success {state code hole hole' : String} (h : Fills hole state) (h' : Fills hole' code) :
    Rendered (.success state code) (successTemplate hole hole')
  | missing : Rendered .missing missingHtml

/-- The template, with nothing in its holes. -/
def Shown.skeleton : Shown → String
  | .error _ => errorTemplate ""
  | .success _ _ => successTemplate "" ""
  | .missing => missingHtml

theorem rendered_body (s : Shown) : Rendered s s.body := by
  cases s with
  | error err => exact .error (fills_htmlEscape err)
  | success state code => exact .success (fills_htmlEscape state) (fills_htmlEscape code)
  | missing => exact .missing

/-! ## Markup -/

theorem toList_htmlEscape (s : String) :
    (htmlEscape s).toList = s.toList.flatMap htmlEscapeChar := by
  rw [htmlEscape, String.toList_ofList]

/-- Escaping the values is escaping the command. -/
theorem toList_command_escape (state code : String) :
    (command (htmlEscape state) (htmlEscape code)).toList =
      (command state code).toList.flatMap htmlEscapeChar := by
  have hcommand : "edgereplica oauth complete --state ".toList =
      "edgereplica oauth complete --state ".toList.flatMap htmlEscapeChar := rfl
  have hcode : " --code ".toList = " --code ".toList.flatMap htmlEscapeChar := rfl
  unfold command
  simp only [String.toList_append, List.flatMap_append]
  exact congrArg₂ _ (congrArg₂ _ (congrArg₂ _ hcommand (toList_htmlEscape state)) hcode)
    (toList_htmlEscape code)

theorem toList_success (state code : String) :
    (oauthSuccessHtml state code).toList =
      successHead.toList ++ (command state code).toList.flatMap htmlEscapeChar ++
        successTail.toList := by
  unfold oauthSuccessHtml successTemplate
  simp only [String.toList_append, toList_command_escape]

theorem toList_error (err : String) :
    (oauthErrorHtml err).toList =
      errorHead.toList ++ err.toList.flatMap htmlEscapeChar ++ "</pre>".toList := by
  unfold oauthErrorHtml errorTemplate
  simp only [String.toList_append, toList_htmlEscape]

/-- No tag is open where a hole begins. -/
theorem tags_errorHead : (Html.tags errorHead.toList).2 = none :=
  Text.of_join (P := fun chars => (Html.tags chars).2 = none) (l := [_, _]) (by decide +kernel)

set_option maxRecDepth 2000 in
theorem tags_successHead : (Html.tags successHead.toList).2 = none :=
  Text.of_join (P := fun chars => (Html.tags chars).2 = none) (l := [_, _, _, _, _, _])
    (by decide +kernel)

/-- The values open and close no element. -/
theorem tags_body (s : Shown) : Html.tags s.body.toList = Html.tags s.skeleton.toList := by
  cases s with
  | missing => rfl
  | error err =>
    have hempty : (oauthErrorHtml "").toList = errorHead.toList ++ [] ++ "</pre>".toList :=
      toList_error ""
    show Html.tags (oauthErrorHtml err).toList = Html.tags (oauthErrorHtml "").toList
    rw [toList_error, hempty, Html.tags_fill (inert_escape _) tags_errorHead,
      Html.tags_fill Html.inert_nil tags_errorHead]
  | success state code =>
    show Html.tags (oauthSuccessHtml state code).toList = Html.tags (oauthSuccessHtml "" "").toList
    rw [toList_success, toList_success, Html.tags_fill (inert_escape _) tags_successHead,
      Html.tags_fill (inert_escape _) tags_successHead]

/-! ## Which pages are the same -/

/-- Two values of a command are seen together. -/
def Shown.Same : Shown → Shown → Prop
  | .error err, .error err' => err = err'
  | .success state code, .success state' code' =>
    state ++ " --code " ++ code = state' ++ " --code " ++ code'
  | .missing, .missing => True
  | .error _, .success _ _ | .error _, .missing | .success _ _, .error _
  | .success _ _, .missing | .missing, .error _ | .missing, .success _ _ => False

theorem command_inj {state code state' code' : String} :
    command state code = command state' code' ↔
      state ++ " --code " ++ code = state' ++ " --code " ++ code' := by
  rw [← String.toList_inj, ← String.toList_inj]
  unfold command
  simp only [String.toList_append, List.append_assoc, List.append_cancel_left_eq]

theorem errorHead_char (rest : List Char) : (errorHead.toList ++ rest)[60]? = some 'e' :=
  Text.of_join (P := fun chars => ∀ rest, (chars ++ rest)[60]? = some 'e') (l := [_, _])
    (fun _ => rfl) rest

set_option maxRecDepth 2000 in
theorem successHead_char (rest : List Char) : (successHead.toList ++ rest)[60]? = some '/' :=
  Text.of_join (P := fun chars => ∀ rest, (chars ++ rest)[60]? = some '/')
    (l := [_, _, _, _, _, _]) (fun _ => rfl) rest

set_option maxRecDepth 2000 in
theorem missingHtml_char : missingHtml.toList[60]? = some 'O' :=
  Text.of_join (P := fun chars => chars[60]? = some 'O') (l := [_, _]) rfl

/-- A character in which the three templates differ. -/
def Shown.mark : Shown → Char
  | .error _ => 'e'
  | .success _ _ => '/'
  | .missing => 'O'

theorem body_mark (s : Shown) : s.body.toList[60]? = some s.mark := by
  cases s with
  | error err =>
    show (oauthErrorHtml err).toList[60]? = _
    rw [toList_error, List.append_assoc]
    exact errorHead_char _
  | success state code =>
    show (oauthSuccessHtml state code).toList[60]? = _
    rw [toList_success, List.append_assoc]
    exact successHead_char _
  | missing => exact missingHtml_char

theorem body_eq_iff (s s' : Shown) : s.body = s'.body ↔ s.Same s' := by
  have hmark (h : s.body = s'.body) : s.mark = s'.mark := by
    have hchar := body_mark s
    rw [h, body_mark] at hchar
    exact (Option.some.inj hchar).symm
  cases s <;> cases s'
  case error.error err err' =>
    refine ⟨fun h => ?_, fun h => congrArg oauthErrorHtml h⟩
    have hlists := congrArg String.toList h
    change (oauthErrorHtml err).toList = (oauthErrorHtml err').toList at hlists
    rw [toList_error, toList_error] at hlists
    have hholes := List.append_cancel_left (List.append_cancel_right hlists)
    exact String.toList_inj.mp (escape_inj hholes)
  case success.success state code state' code' =>
    refine Iff.trans ⟨fun h => ?_, fun h => ?_⟩ command_inj
    · have hlists := congrArg String.toList h
      change (oauthSuccessHtml state code).toList = (oauthSuccessHtml state' code').toList at hlists
      rw [toList_success, toList_success] at hlists
      have hholes := List.append_cancel_left (List.append_cancel_right hlists)
      exact String.toList_inj.mp (escape_inj hholes)
    · refine String.toList_inj.mp ?_
      show (oauthSuccessHtml state code).toList = (oauthSuccessHtml state' code').toList
      rw [toList_success, toList_success, h]
  case missing.missing => exact iff_of_true rfl trivial
  all_goals exact iff_of_false (fun h => absurd (hmark h) (by simp [Shown.mark])) id

/-- Whatever the query, the page is a template. Its holes hold no markup and stand for the
last values of the query, so that no value opens or closes an element. Two pages are the
same exactly if they show the same; of a state and a code this is the text of both. -/
theorem callback_page_inert :
    (∀ query, Rendered (shown (query.getD "")) (oauthCallbackPage query).body ∧
      Html.tags (oauthCallbackPage query).body.toList =
        Html.tags (shown (query.getD "")).skeleton.toList) ∧
    ∀ query query', (oauthCallbackPage query).body = (oauthCallbackPage query').body ↔
      (shown (query.getD "")).Same (shown (query'.getD "")) := by
  refine ⟨fun query => ?_, fun query query' => ?_⟩
  · rw [oauthCallbackPage_body]
    exact ⟨rendered_body _, tags_body _⟩
  · rw [oauthCallbackPage_body, oauthCallbackPage_body]
    exact body_eq_iff _ _

/-- Two pairs of values on one page. -/
theorem callback_page_shared :
    shown "state=a+--code+b&code=c" = .success "a --code b" "c" ∧
      shown "state=a&code=b+--code+c" = .success "a" "b --code c" ∧
      (oauthCallbackPage (some "state=a+--code+b&code=c")).body =
        (oauthCallbackPage (some "state=a&code=b+--code+c")).body := by
  have hfirst : shown "state=a+--code+b&code=c" = .success "a --code b" "c" := by decide +kernel
  have hsecond : shown "state=a&code=b+--code+c" = .success "a" "b --code c" := by decide +kernel
  refine ⟨hfirst, hsecond, ?_⟩
  rw [oauthCallbackPage_body, oauthCallbackPage_body, Option.getD_some, Option.getD_some, hfirst,
    hsecond, body_eq_iff]
  show "a --code b" ++ " --code " ++ "c" = "a" ++ " --code " ++ "b --code c"
  decide

/-! ## Pasting the command -/

set_option maxRecDepth 2000 in
theorem cut_successHead :
    (Html.cut "<pre>".toList successHead.toList).map Prod.snd = some [] ∧
      '\r' ∉ successHead.toList :=
  Text.of_join
    (P := fun chars => (Html.cut "<pre>".toList chars).map Prod.snd = some [] ∧ '\r' ∉ chars)
    (l := [_, _, _, _, _, _]) (by decide +kernel)

theorem successTail_eq :
    ∃ rest, successTail.toList = '<' :: ("/pre>".toList ++ rest) :=
  ⟨_, Text.of_join (P := fun chars => chars = '<' :: ("/pre>".toList ++ chars.drop 6))
    (l := [_, _]) rfl⟩

theorem command_cons (state code : String) :
    ∃ rest, (command state code).toList = 'e' :: rest := by
  refine ⟨"dgereplica oauth complete --state ".toList ++ state.toList ++ " --code ".toList ++
    code.toList, ?_⟩
  unfold command
  simp only [String.toList_append]
  rfl

/-- What the browser shows of the command, with its line ends. -/
theorem preText_success (state code : String) :
    Html.preText (oauthSuccessHtml state code).toList =
      some (Html.normalizeNewlines (command state code).toList) := by
  obtain ⟨hcut, hreturn⟩ := cut_successHead
  obtain ⟨⟨before, after⟩, hcut, rfl⟩ := Option.map_eq_some_iff.mp hcut
  obtain ⟨rest, htail⟩ := successTail_eq
  have hline : ∀ c, htmlEscapeChar c = [c] ∨ htmlEscapeChar c ≠ [] ∧ c ∉ ['\n', '\r'] ∧
      ∀ d ∈ htmlEscapeChar c, d ∉ ['\n', '\r'] := by
    intro c
    have hrefs : ∀ ref ∈ Html.references, ref ≠ [] ∧ ∀ d ∈ ref, d ∉ ['\n', '\r'] := by
      simp [Html.references]
    have hspecial : ∀ c ∈ ['<', '>', '"', '\'', '&'], c ∉ ['\n', '\r'] :=
      Text.forall_of_all (by decide)
    rcases htmlEscapeChar_cases c with ⟨href, hc, -⟩ | ⟨hone, -⟩
    · exact .inr ⟨(hrefs _ href).1, hspecial c hc, (hrefs _ href).2⟩
    · exact .inl hone
  have hbody : Html.normalizeNewlines (oauthSuccessHtml state code).toList =
      successHead.toList ++
        ((Html.normalizeNewlines (command state code).toList).flatMap htmlEscapeChar ++
          '<' :: ("/pre>".toList ++ Html.normalizeFrom false rest)) := by
    rw [toList_success, htail, List.append_assoc, Html.normalizeNewlines,
      Html.normalizeFrom_append hreturn, Html.normalizeFrom_append_cons (by decide),
      Html.normalizeFrom_flatMap hline, Html.normalizeFrom_append (by decide)]
    rfl
  have hlt : '<' ∉ (Html.normalizeNewlines (command state code).toList).flatMap htmlEscapeChar :=
    fun hmem => (inert_escape _).chars '<' hmem (by decide)
  have hpre := Html.cut_append hcut
    ((Html.normalizeNewlines (command state code).toList).flatMap htmlEscapeChar ++
      '<' :: ("/pre>".toList ++ Html.normalizeFrom false rest)) (by decide)
  rw [Html.preText, hbody, hpre, Option.bind_eq_bind, Option.bind_some, List.nil_append]
  show (Html.cut ('<' :: "/pre>".toList) _).bind _ = _
  rw [Html.cut_of_notMem _ hlt, Option.bind_some]
  obtain ⟨shown, hshown⟩ := command_cons state code
  have hfirst : Html.normalizeNewlines (command state code).toList =
      'e' :: Html.normalizeNewlines shown := by
    rw [hshown]
    exact Html.normalizeFrom_cons (by decide) false shown
  have hescaped := unescape_escape (Html.normalizeNewlines (command state code).toList)
  rw [hfirst, List.flatMap_cons] at hescaped ⊢
  exact congrArg some hescaped

/-! ## Pasting -/

/-- The words of the command as it is meant. -/
def commandWords (state code : String) : List (List Char) :=
  ["edgereplica".toList, "oauth".toList, "complete".toList, "--state".toList, state.toList,
    "--code".toList, code.toList]

theorem command_eq (state code : String) :
    (command state code).toList = [' '].intercalate (commandWords state code) := by
  unfold command commandWords
  simp only [String.toList_append, List.intercalate_cons_cons, List.intercalate_singleton,
    List.append_assoc]
  rfl

/-- A value that a browser and a shell take as it stands. -/
structure Pasteable (value : String) : Prop where
  plain : Shell.Plain value.toList
  line : '\r' ∉ value.toList

/-- What the page shows of its command. -/
def pasted (query : String) : Option (List (List Char)) :=
  (Html.preText (oauthCallbackPage (some query)).body.toList).bind Shell.simpleCommand

theorem pasted_eq {query state code : String} (h : shown query = .success state code) :
    pasted query =
      Shell.simpleCommand (Html.normalizeNewlines (command state code).toList) := by
  rw [pasted, oauthCallbackPage_body, Option.getD_some, h]
  show (Html.preText (oauthSuccessHtml state code).toList).bind _ = _
  rw [preText_success, Option.bind_some]

end Routes

end EdgeReplica
