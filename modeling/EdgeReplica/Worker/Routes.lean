-- SUMMARY: The routes beside the RPC service: the health check and the landing page of the OAuth callback.
import EdgeReplica.Lib.Hex
import EdgeReplica.Lib.Text
import EdgeReplica.Lib.Utf8

/-!
# Static routes

The callback page shows the `state` and `code` that the provider has put into the query
of the redirect, for the user to paste into a command.
-/

namespace EdgeReplica

namespace Routes

inductive Method where
  | get
  | other
deriving DecidableEq

structure Page where
  status : UInt16
  contentType : String
  body : String
deriving DecidableEq

def html (status : UInt16) (body : String) : Page := ⟨status, "text/html; charset=utf-8", body⟩

def text (status : UInt16) (body : String) : Page := ⟨status, "text/plain; charset=utf-8", body⟩

/-! ## Decoding of values -/

/-- The bytes from `start` to `stop`, if they are in range. -/
def slice (bytes : List UInt8) (start stop : Nat) : Option (List UInt8) :=
  if start ≤ stop ∧ stop ≤ bytes.length then some ((bytes.take stop).drop start) else none

/-- The byte that the two bytes after a percent sign stand for. -/
def hexByte (pair : List UInt8) : Option UInt8 :=
  let hex := (Protobuf.ofUtf8? pair).getD ""
  Hex.fromStrRadix (Protobuf.utf8 hex)

/-- One turn of the loop, at index `i` and with the output so far. There is none where the
source would panic, at an index or a slice out of range. -/
def urlDecodeTurn (bytes : List UInt8) (i : Nat) (out : List UInt8) :
    Option (Nat × List UInt8) := do
  let byte ← bytes[i]?
  if byte = 43 then
    return (i + 1, out ++ [32])
  else if byte = 37 ∧ i + 2 < bytes.length then
    let pair ← slice bytes (i + 1) (i + 3)
    match hexByte pair with
    | some byte => return (i + 3, out ++ [byte])
    | none => return (i + 1, out ++ [37])
  else
    return (i + 1, out ++ [byte])

/-- The loop. There is no output where a turn panics, or where the turns do not suffice. -/
def urlDecodeLoop (bytes : List UInt8) : Nat → Nat → List UInt8 → Option (List UInt8)
  | 0, _, _ => none
  | turns + 1, i, out =>
    if i < bytes.length then
      (urlDecodeTurn bytes i out).bind fun (i, out) => urlDecodeLoop bytes turns i out
    else some out

/-- The bytes that `url_decode` makes, in one turn for each byte of the text and a last
look at the length. -/
def urlDecodeBytes (s : String) : Option (List UInt8) :=
  let bytes := Protobuf.utf8 s
  urlDecodeLoop bytes (bytes.length + 1) 0 []

def urlDecode (s : String) : String := Utf8.fromUtf8Lossy ((urlDecodeBytes s).getD [])

example : urlDecode "a+b%3F%E2%82%AC%zz%" = "a b?€%zz%" := by decide +kernel

/-! ## Pages -/

def htmlEscapeChar : Char → List Char
  | '<' => "&lt;".toList
  | '>' => "&gt;".toList
  | '&' => "&amp;".toList
  | '"' => "&quot;".toList
  | '\'' => "&#39;".toList
  | other => [other]

def htmlEscape (s : String) : String := .ofList (s.toList.flatMap htmlEscapeChar)

/-- The success page up to its command, and behind it. -/
def successHead : String :=
  String.join
    ["<!doctype html><meta charset=utf-8><title>EdgeReplica OAuth</title>",
      "<style>body\x7bfont-family:system-ui;max-width:40rem;margin:3rem auto;padding:0 1rem\x7d",
      "pre\x7bbackground:#f4f4f4;padding:1rem;border-radius:6px;overflow-x:auto\x7d</style>",
      "<h1>OAuth login: copy this command</h1>",
      "<p>Run the following in your terminal to finish signing in:</p>",
      "<pre>"]

def successTail : String :=
  String.join
    ["</pre>",
      "<p>The values above are single-use and short-lived; you can close this tab.</p>"]

/-- The command to copy. -/
def command (state code : String) : String :=
  "edgereplica oauth complete --state " ++ state ++ " --code " ++ code

/-- The format of the success page. -/
def successTemplate (state code : String) : String :=
  successHead ++ command state code ++ successTail

def oauthSuccessHtml (state code : String) : String :=
  successTemplate (htmlEscape state) (htmlEscape code)

/-- The error page up to its error. -/
def errorHead : String :=
  String.join
    ["<!doctype html><meta charset=utf-8><title>EdgeReplica OAuth error</title>",
      "<h1>OAuth provider returned an error</h1><pre>"]

/-- The format of the error page. -/
def errorTemplate (err : String) : String := errorHead ++ err ++ "</pre>"

def oauthErrorHtml (err : String) : String := errorTemplate (htmlEscape err)

def missingHtml : String :=
  String.join
    ["<h1>Missing state or code</h1><p>This URL is reached via an OAuth IdP redirect — open it ",
      "from <code>edgereplica oauth start github</code>.</p>"]

/-- What the loop over the query has found. -/
structure Params where
  state : Option String := none
  code : Option String := none
  error : Option String := none

/-- The key and the decoded value of a pair. -/
def readPair (pair : String) : String × String :=
  let (k, v) := (Text.splitOnce pair '=').getD (pair, "")
  (k, urlDecode v)

def Params.take (params : Params) (pair : String) : Params :=
  let (k, v) := readPair pair
  if k = "state" then { params with state := some v }
  else if k = "code" then { params with code := some v }
  else if k = "error" ∨ k = "error_description" then { params with error := some v }
  else params

/-- The parts of a query that are not empty. -/
def queryPairs (query : String) : List String := (Text.split query '&').filter (· ≠ "")

def readParams (query : String) : Params := (queryPairs query).foldl Params.take {}

def oauthCallbackPage (query : Option String) : Page :=
  let params := readParams (query.getD "")
  match params.error with
  | some err => html 400 (oauthErrorHtml err)
  | none =>
    match params.state, params.code with
    | some state, some code => html 200 (oauthSuccessHtml state code)
    | _, _ => html 400 missingHtml

/-- The answer to a request of a route that is not for the RPC service. -/
def tryHandle (method : Method) (path : String) (query : Option String) : Option Page :=
  if method = .get ∧ path = "/healthz" then some (text 200 "ok")
  else if method = .get ∧ Text.startsWith path "/oauth/" ∧ Text.endsWith path "/callback" then
    some (oauthCallbackPage query)
  else if Text.startsWith path "/oauth/" then some (text 404 "not found")
  else none

end Routes

end EdgeReplica
