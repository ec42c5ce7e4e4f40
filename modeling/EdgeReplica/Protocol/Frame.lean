-- SUMMARY: Frames of the sync WebSocket: the MessagePack body that the serde attributes prescribe, and its decoding.
import EdgeReplica.Lib.Msgpack
import EdgeReplica.Lib.Protobuf
import EdgeReplica.Protocol.Sync

/-!
# Frames

A frame is the version byte and the message as MessagePack. The message is a map of
its `kind` and its `data`, which is in turn a map of the variant's fields by their
names; `Complete` has no data. The reader takes the entries of a map in any order, their
keys as names or as places, and passes over the ones it does not know. What it says about
a body it cannot read is up to the MessagePack library.
-/

namespace EdgeReplica

open Msgpack (Value)
open Protobuf (utf8 ofUtf8? ofUtf8?_utf8)

/-- The `rmp-serde` crate, as far as this program sees more of it than MessagePack. -/
class RmpSerde where
  decodeError : Bytes → String

/-! ## Serialization -/

namespace Wire

/-- A map with the given keys. -/
def named (fields : List (String × Value)) : Value :=
  .map (fields.map fun field => (.str (utf8 field.1), field.2))

def ofU32 (n : UInt32) : Value := .int n.toNat

def ofU64 (n : UInt64) : Value := .int n.toNat

/-- `Bytes` are MessagePack `bin`, not a sequence. -/
def ofBytes (data : Bytes) : Value := .bin data

def ofString (s : String) : Value := .str (utf8 s)

def ofList {α : Type} (item : α → Value) (items : List α) : Value := .array (items.map item)

def ofEntry (entry : PageDataEntry) : Value :=
  named [("page_no", ofU32 entry.pageNo), ("data", ofBytes entry.data)]

/-- A variant with fields. -/
def variant (kind : String) (fields : List (String × Value)) : Value :=
  named [("kind", ofString kind), ("data", named fields)]

def ofMessage : SyncMessage → Value
  | .hello protocolVersion pageSize maxPage =>
    variant "hello" [("protocol_version", ofU32 protocolVersion), ("page_size", ofU32 pageSize),
      ("max_page", ofU32 maxPage)]
  | .helloReply protocolVersion pageSize maxPage =>
    variant "hello_reply" [("protocol_version", ofU32 protocolVersion),
      ("page_size", ofU32 pageSize), ("max_page", ofU32 maxPage)]
  | .pageHash pageNo hash =>
    variant "page_hash" [("page_no", ofU32 pageNo), ("hash", ofBytes hash)]
  | .pageHashBatch startPage endPage combinedHash =>
    variant "page_hash_batch" [("start_page", ofU32 startPage), ("end_page", ofU32 endPage),
      ("combined_hash", ofBytes combinedHash)]
  | .requestPage pageNo => variant "request_page" [("page_no", ofU32 pageNo)]
  | .requestPages pageNumbers =>
    variant "request_pages" [("page_numbers", ofList ofU32 pageNumbers)]
  | .hashMismatch pageNo => variant "hash_mismatch" [("page_no", ofU32 pageNo)]
  | .hashMismatchBatch pageNumbers =>
    variant "hash_mismatch_batch" [("page_numbers", ofList ofU32 pageNumbers)]
  | .pageData pageNo data =>
    variant "page_data" [("page_no", ofU32 pageNo), ("data", ofBytes data)]
  | .pageDataBatch pages => variant "page_data_batch" [("pages", ofList ofEntry pages)]
  | .complete => named [("kind", ofString "complete")]
  | .syncComplete pagesTransferred bytesTransferred =>
    variant "sync_complete" [("pages_transferred", ofU64 pagesTransferred),
      ("bytes_transferred", ofU64 bytesTransferred)]
  | .error message => variant "error" [("message", ofString message)]

/-! ## Deserialization -/

/-- An identifier: one of the names, by its text or by its place, or none that is known. A
value of another type is no identifier. -/
def keyOf (names : List String) : Value → Option (Option String)
  | .str raw | .bin raw => some (names.find? fun name => utf8 name = raw)
  | .int n => if 0 ≤ n then some names[n.toNat]? else none
  | _ => none

def isKeyed (names : List String) (entries : List (Value × Value)) : Bool :=
  entries.all fun entry => (keyOf names entry.1).isSome

/-- The value under a name, if there is one; a name must not come twice. -/
def find? (names : List String) (name : String) (entries : List (Value × Value)) :
    Option (Option Value) :=
  match entries.filter fun entry => keyOf names entry.1 = some (some name) with
  | [] => some none
  | [entry] => some (some entry.2)
  | _ => none

def find (names : List String) (name : String) (entries : List (Value × Value)) : Option Value :=
  (find? names name entries).join

/-- The fields of a variant. -/
def fieldsOf (names : List String) : Value → Option (List Value)
  | .map entries =>
    if isKeyed names entries then names.mapM fun name => find names name entries else none
  | _ => none

/-- The fields of a struct may also come as an array, which gives them by position. -/
def structOf (names : List String) : Value → Option (List Value)
  | .array items => if items.length = names.length then some items else none
  | v => fieldsOf names v

/-- An integer of fewer than `bound` values. -/
def toNat? (bound : Nat) : Value → Option Nat
  | .int n => if 0 ≤ n ∧ n < bound then some n.toNat else none
  | _ => none

def toU32 (v : Value) : Option UInt32 := (toNat? (2 ^ 32) v).map UInt32.ofNat

def toU64 (v : Value) : Option UInt64 := (toNat? (2 ^ 64) v).map UInt64.ofNat

/-- `Bytes` may come as a string or as a sequence too. -/
def toBytes : Value → Option Bytes
  | .bin raw | .str raw => some raw
  | .array items => items.mapM fun item => (toNat? (2 ^ 8) item).map UInt8.ofNat
  | _ => none

def toString? : Value → Option String
  | .str raw | .bin raw => ofUtf8? raw
  | _ => none

def toList {α : Type} (item : Value → Option α) : Value → Option (List α)
  | .array items => items.mapM item
  | _ => none

/-- A page number and bytes. -/
def ofPaged : List Value → Option (UInt32 × Bytes)
  | [pageNo, data] => do return (← toU32 pageNo, ← toBytes data)
  | _ => none

def toPaged (name : String) (v : Value) : Option (UInt32 × Bytes) :=
  (fieldsOf ["page_no", name] v).bind ofPaged

def toEntry (v : Value) : Option PageDataEntry :=
  ((structOf ["page_no", "data"] v).bind ofPaged).map fun (pageNo, data) => ⟨pageNo, data⟩

/-- A range of pages and their combined hash. -/
def toRange (v : Value) : Option (UInt32 × UInt32 × Bytes) := do
  match ← fieldsOf ["start_page", "end_page", "combined_hash"] v with
  | [startPage, endPage, combinedHash] =>
    return (← toU32 startPage, ← toU32 endPage, ← toBytes combinedHash)
  | _ => none

/-- The totals of a session. -/
def toTotals (v : Value) : Option (UInt64 × UInt64) := do
  match ← fieldsOf ["pages_transferred", "bytes_transferred"] v with
  | [pages, bytes] => return (← toU64 pages, ← toU64 bytes)
  | _ => none

/-- A version and two page counts. -/
def toHandshake (v : Value) : Option (UInt32 × UInt32 × UInt32) := do
  match ← fieldsOf ["protocol_version", "page_size", "max_page"] v with
  | [protocolVersion, pageSize, maxPage] =>
    return (← toU32 protocolVersion, ← toU32 pageSize, ← toU32 maxPage)
  | _ => none

/-- A single field. -/
def toField {α : Type} (name : String) (item : Value → Option α) (v : Value) : Option α := do
  match ← fieldsOf [name] v with
  | [field] => item field
  | _ => none

/-- The variants, by their places. -/
def kinds : List String :=
  ["hello", "hello_reply", "page_hash", "page_hash_batch", "request_page", "request_pages",
    "hash_mismatch", "hash_mismatch_batch", "page_data", "page_data_batch", "complete",
    "sync_complete", "error"]

/-- A tag is read like a variant without data: a map of it to nothing will do. -/
def toKind : Value → Option String
  | .map [(key, .nil)] => (keyOf kinds key).join
  | key => (keyOf kinds key).join

def toVariant (kind : String) (data : Value) : Option SyncMessage :=
  match kind with
  | "hello" => (toHandshake data).map fun (version, size, max) => .hello version size max
  | "hello_reply" => (toHandshake data).map fun (version, size, max) => .helloReply version size max
  | "page_hash" => (toPaged "hash" data).map fun (pageNo, hash) => .pageHash pageNo hash
  | "page_hash_batch" =>
    (toRange data).map fun (startPage, endPage, hash) => .pageHashBatch startPage endPage hash
  | "request_page" => (toField "page_no" toU32 data).map .requestPage
  | "request_pages" => (toField "page_numbers" (toList toU32) data).map .requestPages
  | "hash_mismatch" => (toField "page_no" toU32 data).map .hashMismatch
  | "hash_mismatch_batch" => (toField "page_numbers" (toList toU32) data).map .hashMismatchBatch
  | "page_data" => (toPaged "data" data).map fun (pageNo, data) => .pageData pageNo data
  | "page_data_batch" => (toField "pages" (toList toEntry) data).map .pageDataBatch
  | "complete" =>
    match data with
    | .nil => some .complete
    | _ => none
  | "sync_complete" => (toTotals data).map fun (pages, bytes) => .syncComplete pages bytes
  | "error" => (toField "message" toString? data).map .error
  | _ => none

/-- A variant without data can only be `Complete`. -/
def toUnit (kind : String) : Option SyncMessage :=
  if kind = "complete" then some .complete else none

def toMessage : Value → Option SyncMessage
  | .map entries => do
    if ¬ isKeyed ["kind", "data"] entries then none
    else
      let kind ← toKind (← find ["kind", "data"] "kind" entries)
      match ← find? ["kind", "data"] "data" entries with
      | some data => toVariant kind data
      | none => toUnit kind
  | .array [kind, data] => do toVariant (← toKind kind) data
  | _ => none

example : toMessage (.map [(.int 1, .map [(.int 0, .int 7)]), (.str (utf8 "kind"), .int 4)]) =
      some (.requestPage 7) ∧
    toMessage (.map [(.int 0, .int 4), (.int 1, .array [.int 7])]) = none := by decide

/-! ## Round trips -/

theorem utf8_inj {s t : String} (h : utf8 s = utf8 t) : s = t := by
  have hread := ofUtf8?_utf8 t
  rw [← h, ofUtf8?_utf8] at hread
  exact Option.some.inj hread

section

variable {names : List String} {fields : List (String × Value)} {name : String}

/-- The entries of a map with the given keys. -/
def entriesOf (fields : List (String × Value)) : List (Value × Value) :=
  fields.map fun field => (.str (utf8 field.1), field.2)

theorem keyOf_utf8 (names : List String) (s : String) :
    keyOf names (.str (utf8 s)) = some (names.find? fun name => name = s) := by
  have hname : (fun name => decide (utf8 name = utf8 s)) = fun name => decide (name = s) :=
    funext fun name => decide_eq_decide.mpr ⟨utf8_inj, congrArg utf8⟩
  rw [keyOf, hname]

theorem keyOf_eq_name (hname : name ∈ names) {s : String} :
    keyOf names (.str (utf8 s)) = some (some name) ↔ s = name := by
  rw [keyOf_utf8, Option.some.injEq]
  constructor
  · intro h
    exact (of_decide_eq_true (List.find?_some h :)).symm
  · rintro rfl
    have hsome : (names.find? fun name => name = s).isSome = true :=
      List.find?_isSome.mpr ⟨s, hname, by simp⟩
    obtain ⟨found, hfound⟩ := Option.isSome_iff_exists.mp hsome
    obtain rfl : found = s := of_decide_eq_true (List.find?_some hfound :)
    exact hfound

theorem filter_entriesOf (hname : name ∈ names) (fields : List (String × Value)) :
    ((entriesOf fields).filter fun entry => keyOf names entry.1 = some (some name)) =
      entriesOf (fields.filter fun field => field.1 = name) := by
  rw [entriesOf, List.filter_map, entriesOf]
  congr 1
  exact List.filter_congr fun field _ => decide_eq_decide.mpr (keyOf_eq_name hname)

theorem filter_name (hnodup : (fields.map Prod.fst).Nodup) {field : String × Value}
    (hmem : field ∈ fields) : (fields.filter fun f => f.1 = field.1) = [field] := by
  induction fields with
  | nil => cases hmem
  | cons first fields ih =>
    obtain ⟨hfirst, hrest⟩ := List.nodup_cons.mp hnodup
    rcases List.mem_cons.mp hmem with rfl | hmem
    · have hnone : (fields.filter fun f => f.1 = field.1) = [] := by
        rw [List.filter_eq_nil_iff]
        intro f hf heq
        exact hfirst (List.mem_map.mpr ⟨f, hf, by simpa using heq⟩)
      rw [List.filter_cons_of_pos (by simp), hnone]
    · have hne : first.1 ≠ field.1 := fun heq =>
        hfirst (List.mem_map.mpr ⟨field, hmem, heq.symm⟩)
      rw [List.filter_cons_of_neg (by simpa using hne), ih hrest hmem]

theorem find?_entriesOf (hnodup : (fields.map Prod.fst).Nodup) {field : String × Value}
    (hname : field.1 ∈ names) (hmem : field ∈ fields) :
    find? names field.1 (entriesOf fields) = some (some field.2) := by
  rw [find?, filter_entriesOf hname, filter_name hnodup hmem]
  rfl

theorem find?_absent (hname : name ∈ names) (h : name ∉ fields.map Prod.fst) :
    find? names name (entriesOf fields) = some none := by
  have hnone : (fields.filter fun f => f.1 = name) = [] := by
    rw [List.filter_eq_nil_iff]
    intro f hf heq
    exact h (List.mem_map.mpr ⟨f, hf, by simpa using heq⟩)
  rw [find?, filter_entriesOf hname, hnone]
  rfl

theorem isKeyed_entriesOf (names : List String) (fields : List (String × Value)) :
    isKeyed names (entriesOf fields) = true := by
  rw [isKeyed, List.all_eq_true]
  intro entry hmem
  obtain ⟨field, -, rfl⟩ := List.mem_map.mp hmem
  rfl

/-- The fields of a struct are found by their names. -/
theorem fieldsOf_named (fields : List (String × Value)) (hnodup : (fields.map Prod.fst).Nodup) :
    fieldsOf (fields.map Prod.fst) (named fields) = some (fields.map Prod.snd) := by
  have hfind : ∀ l ⊆ fields, (l.map Prod.fst).mapM
      (fun name => find (fields.map Prod.fst) name (entriesOf fields)) = some (l.map Prod.snd) := by
    intro l hl
    induction l with
    | nil => rfl
    | cons field l ih =>
      obtain ⟨hfield, hrest⟩ := List.cons_subset.mp hl
      rw [List.map_cons, List.mapM_cons, find,
        find?_entriesOf hnodup (List.mem_map_of_mem hfield) hfield, ih hrest]
      rfl
  show (if isKeyed (fields.map Prod.fst) (entriesOf fields) then _ else _) = _
  rw [if_pos (isKeyed_entriesOf _ fields)]
  exact hfind fields (List.Subset.refl _)

end

theorem mapM_map {α : Type} {item : α → Value} {read : Value → Option α}
    (h : ∀ a, read (item a) = some a) (items : List α) :
    (items.map item).mapM read = some items := by
  induction items with
  | nil => rfl
  | cons a items ih =>
    rw [List.map_cons, List.mapM_cons, h, ih]
    rfl

theorem toU32_ofU32 (n : UInt32) : toU32 (ofU32 n) = some n := by
  have hlt := n.toNat_lt
  rw [toU32, ofU32, toNat?, if_pos (by omega)]
  simp

theorem toU64_ofU64 (n : UInt64) : toU64 (ofU64 n) = some n := by
  have hlt := n.toNat_lt
  rw [toU64, ofU64, toNat?, if_pos (by omega)]
  simp

theorem toBytes_ofBytes (data : Bytes) : toBytes (ofBytes data) = some data := rfl

theorem toString?_ofString (s : String) : toString? (ofString s) = some s := ofUtf8?_utf8 s

theorem toList_ofList {α : Type} {item : α → Value} {read : Value → Option α}
    (h : ∀ a, read (item a) = some a) (items : List α) :
    toList read (ofList item items) = some items := mapM_map h items

theorem fieldsOf_one (name : String) (v : Value) :
    fieldsOf [name] (named [(name, v)]) = some [v] :=
  fieldsOf_named [(name, v)] (by simp)

theorem fieldsOf_two {name₁ name₂ : String} (h : name₁ ≠ name₂) (v₁ v₂ : Value) :
    fieldsOf [name₁, name₂] (named [(name₁, v₁), (name₂, v₂)]) = some [v₁, v₂] :=
  fieldsOf_named [(name₁, v₁), (name₂, v₂)] (by simp [h])

theorem fieldsOf_three {name₁ name₂ name₃ : String} (h : [name₁, name₂, name₃].Nodup)
    (v₁ v₂ v₃ : Value) :
    fieldsOf [name₁, name₂, name₃] (named [(name₁, v₁), (name₂, v₂), (name₃, v₃)]) =
      some [v₁, v₂, v₃] :=
  fieldsOf_named [(name₁, v₁), (name₂, v₂), (name₃, v₃)] h

theorem toField_named {α : Type} {read : Value → Option α} {v : Value} {a : α}
    (h : read v = some a) (name : String) : toField name read (named [(name, v)]) = some a := by
  rw [toField, fieldsOf_one]
  exact h

theorem toPaged_named {name : String} (hname : "page_no" ≠ name) {v₁ v₂ : Value} {pageNo : UInt32}
    {data : Bytes} (h₁ : toU32 v₁ = some pageNo) (h₂ : toBytes v₂ = some data) :
    toPaged name (named [("page_no", v₁), (name, v₂)]) = some (pageNo, data) := by
  rw [toPaged, fieldsOf_two hname, Option.bind_some, ofPaged]
  simp only [bind, Option.bind_some, h₁, h₂, pure]

theorem toEntry_ofEntry (entry : PageDataEntry) : toEntry (ofEntry entry) = some entry := by
  have hread : (structOf ["page_no", "data"] (ofEntry entry)).bind ofPaged =
      some (entry.pageNo, entry.data) :=
    toPaged_named (by simp) (toU32_ofU32 _) (toBytes_ofBytes _)
  rw [toEntry, hread]
  rfl

theorem toRange_named {v₁ v₂ v₃ : Value} {startPage endPage : UInt32} {hash : Bytes}
    (h₁ : toU32 v₁ = some startPage) (h₂ : toU32 v₂ = some endPage) (h₃ : toBytes v₃ = some hash) :
    toRange (named [("start_page", v₁), ("end_page", v₂), ("combined_hash", v₃)]) =
      some (startPage, endPage, hash) := by
  rw [toRange, fieldsOf_three (by simp)]
  simp only [bind, Option.bind_some, h₁, h₂, h₃, pure]

theorem toTotals_named {v₁ v₂ : Value} {pages bytes : UInt64} (h₁ : toU64 v₁ = some pages)
    (h₂ : toU64 v₂ = some bytes) :
    toTotals (named [("pages_transferred", v₁), ("bytes_transferred", v₂)]) =
      some (pages, bytes) := by
  rw [toTotals, fieldsOf_two (by simp)]
  simp only [bind, Option.bind_some, h₁, h₂, pure]

theorem toHandshake_named {v₁ v₂ v₃ : Value} {a b c : UInt32} (h₁ : toU32 v₁ = some a)
    (h₂ : toU32 v₂ = some b) (h₃ : toU32 v₃ = some c) :
    toHandshake (named [("protocol_version", v₁), ("page_size", v₂), ("max_page", v₃)]) =
      some (a, b, c) := by
  rw [toHandshake, fieldsOf_three (by simp)]
  simp only [bind, Option.bind_some, h₁, h₂, h₃, pure]

theorem toKind_ofString {kind : String} (hkind : kind ∈ kinds) :
    toKind (ofString kind) = some kind := by
  have hkey : keyOf kinds (ofString kind) = some (some kind) := (keyOf_eq_name hkind).mpr rfl
  show (keyOf kinds (ofString kind)).join = some kind
  rw [hkey]
  rfl

/-- A variant with fields is read by its fields. -/
theorem toMessage_variant {kind : String} (hkind : kind ∈ kinds)
    (fields : List (String × Value)) :
    toMessage (variant kind fields) = toVariant kind (named fields) := by
  have hnodup : (([("kind", ofString kind), ("data", named fields)] : List (String × Value)).map
      Prod.fst).Nodup := by simp
  have htag : find? ["kind", "data"] "kind"
      (entriesOf [("kind", ofString kind), ("data", named fields)]) =
        some (some (ofString kind)) := find?_entriesOf hnodup (by simp) List.mem_cons_self
  have hdata : find? ["kind", "data"] "data"
      (entriesOf [("kind", ofString kind), ("data", named fields)]) =
        some (some (named fields)) :=
    find?_entriesOf hnodup (by simp) (List.mem_cons_of_mem _ List.mem_cons_self)
  have hkeys := isKeyed_entriesOf ["kind", "data"]
    [("kind", ofString kind), ("data", named fields)]
  have hentries : variant kind fields =
      .map (entriesOf [("kind", ofString kind), ("data", named fields)]) := rfl
  rw [hentries, toMessage, hkeys, find, htag, hdata]
  simp only [not_true, if_false, Option.join_some, bind, Option.bind_some, toKind_ofString hkind]

/-- `Complete` is read without data. -/
theorem toMessage_complete : toMessage (ofMessage .complete) = some .complete := by
  have hnodup : (([("kind", ofString "complete")] : List (String × Value)).map Prod.fst).Nodup := by
    simp
  have htag : find? ["kind", "data"] "kind" (entriesOf [("kind", ofString "complete")]) =
      some (some (ofString "complete")) := find?_entriesOf hnodup (by simp) List.mem_cons_self
  have hdata : find? ["kind", "data"] "data" (entriesOf [("kind", ofString "complete")]) =
      some none := find?_absent (by simp) (by simp)
  have hkind : toKind (ofString "complete") = some "complete" := toKind_ofString (by decide)
  have hentries : ofMessage .complete = .map (entriesOf [("kind", ofString "complete")]) := rfl
  rw [hentries, toMessage, isKeyed_entriesOf, find, htag, hdata]
  simp only [not_true, if_false, Option.join_some, bind, Option.bind_some, hkind]
  rfl

/-- Every message is read back. -/
theorem toMessage_ofMessage (msg : SyncMessage) : toMessage (ofMessage msg) = some msg := by
  cases msg with
  | complete => exact toMessage_complete
  | hello version size max =>
    rw [ofMessage, toMessage_variant (by decide), toVariant,
      toHandshake_named (toU32_ofU32 _) (toU32_ofU32 _) (toU32_ofU32 _)]
    rfl
  | helloReply version size max =>
    rw [ofMessage, toMessage_variant (by decide), toVariant,
      toHandshake_named (toU32_ofU32 _) (toU32_ofU32 _) (toU32_ofU32 _)]
    rfl
  | pageHash p hash =>
    rw [ofMessage, toMessage_variant (by decide), toVariant,
      toPaged_named (by simp) (toU32_ofU32 _) (toBytes_ofBytes _)]
    rfl
  | pageHashBatch startPage endPage hash =>
    rw [ofMessage, toMessage_variant (by decide), toVariant,
      toRange_named (toU32_ofU32 _) (toU32_ofU32 _) (toBytes_ofBytes _)]
    rfl
  | requestPage p =>
    rw [ofMessage, toMessage_variant (by decide), toVariant, toField_named (toU32_ofU32 p)]
    rfl
  | requestPages ps =>
    rw [ofMessage, toMessage_variant (by decide), toVariant,
      toField_named (toList_ofList toU32_ofU32 ps)]
    rfl
  | hashMismatch p =>
    rw [ofMessage, toMessage_variant (by decide), toVariant, toField_named (toU32_ofU32 p)]
    rfl
  | hashMismatchBatch ps =>
    rw [ofMessage, toMessage_variant (by decide), toVariant,
      toField_named (toList_ofList toU32_ofU32 ps)]
    rfl
  | pageData p data =>
    rw [ofMessage, toMessage_variant (by decide), toVariant,
      toPaged_named (by simp) (toU32_ofU32 _) (toBytes_ofBytes _)]
    rfl
  | pageDataBatch pages =>
    rw [ofMessage, toMessage_variant (by decide), toVariant,
      toField_named (toList_ofList toEntry_ofEntry pages)]
    rfl
  | syncComplete pages bytes =>
    rw [ofMessage, toMessage_variant (by decide), toVariant,
      toTotals_named (toU64_ofU64 _) (toU64_ofU64 _)]
    rfl
  | error message =>
    rw [ofMessage, toMessage_variant (by decide), toVariant,
      toField_named (toString?_ofString message)]
    rfl

/-! ## Messages that can be written -/

/-- The strings, byte strings and lists of a message are shorter than `2 ^ 32`. -/
def Short : SyncMessage → Prop
  | .pageHash _ data | .pageHashBatch _ _ data | .pageData _ data => data.length < 2 ^ 32
  | .requestPages ps | .hashMismatchBatch ps => ps.length < 2 ^ 32
  | .pageDataBatch pages =>
    pages.length < 2 ^ 32 ∧ ∀ entry ∈ pages, entry.data.length < 2 ^ 32
  | .error message => (utf8 message).length < 2 ^ 32
  | .hello .. | .helloReply .. | .requestPage _ | .hashMismatch _ | .complete
  | .syncComplete .. => True

theorem fits_ofU32 (depth : Nat) (n : UInt32) : (ofU32 n).Fits (depth + 1) := by
  have hlt := n.toNat_lt
  exact ⟨by omega, by omega⟩

theorem fits_ofU64 (depth : Nat) (n : UInt64) : (ofU64 n).Fits (depth + 1) := by
  have hlt := n.toNat_lt
  exact ⟨by omega, by omega⟩

/-- The names of the wire format. -/
def names : List String :=
  ["kind", "data", "protocol_version", "page_size", "max_page", "page_no", "hash", "start_page",
    "end_page", "combined_hash", "page_numbers", "pages", "pages_transferred", "bytes_transferred",
    "message", "hello", "hello_reply", "page_hash", "page_hash_batch", "request_page",
    "request_pages", "hash_mismatch", "hash_mismatch_batch", "page_data", "page_data_batch",
    "complete", "sync_complete", "error"]

theorem short_names : ∀ name ∈ names, (utf8 name).length < 2 ^ 32 := by decide

theorem fits_ofBytes {data : Bytes} (h : data.length < 2 ^ 32) (depth : Nat) :
    (ofBytes data).Fits (depth + 1) := h

theorem fits_ofList {α : Type} {item : α → Value} {items : List α} {depth : Nat}
    (hlen : items.length < 2 ^ 32) (hitems : ∀ a ∈ items, (item a).Fits depth) :
    (ofList item items).Fits (depth + 1) := by
  refine ⟨?_, ?_⟩
  · show (items.map item).length < 2 ^ 32
    rwa [List.length_map]
  · intro v hmem
    obtain ⟨a, ha, rfl⟩ := List.mem_map.mp hmem
    exact hitems a ha

/-- The fields of a struct: their names are those of the wire format, and their values
fit. -/
def FieldsFit (depth : Nat) (fields : List (String × Value)) : Prop :=
  ∀ field ∈ fields, field.1 ∈ names ∧ field.2.Fits depth

theorem FieldsFit.nil (depth : Nat) : FieldsFit depth [] := List.forall_mem_nil _

theorem FieldsFit.cons {depth : Nat} {name : String} {v : Value} {fields : List (String × Value)}
    (hname : name ∈ names) (hv : v.Fits depth) (h : FieldsFit depth fields) :
    FieldsFit depth ((name, v) :: fields) := List.forall_mem_cons.mpr ⟨⟨hname, hv⟩, h⟩

theorem FieldsFit.one {depth : Nat} {name : String} {v : Value} (hname : name ∈ names)
    (hv : v.Fits depth) : FieldsFit depth [(name, v)] := .cons hname hv (.nil depth)

/-- A map fits if its values do. -/
theorem fits_named {depth : Nat} {fields : List (String × Value)} (hcount : fields.length < 2 ^ 32)
    (h : FieldsFit (depth + 1) fields) : (named fields).Fits (depth + 2) := by
  refine ⟨?_, ?_⟩
  · show (fields.map _).length < 2 ^ 32
    rwa [List.length_map]
  · intro entry hmem
    obtain ⟨field, hfield, rfl⟩ := List.mem_map.mp hmem
    obtain ⟨hname, hvalue⟩ := h field hfield
    exact ⟨short_names field.1 hname, hvalue⟩

theorem fits_variant {depth : Nat} {kind : String} {fields : List (String × Value)}
    (hkind : kind ∈ names) (hcount : fields.length < 2 ^ 32) (h : FieldsFit (depth + 1) fields) :
    (variant kind fields).Fits (depth + 3) := by
  have hdata : (named fields).Fits (depth + 2) := fits_named hcount h
  exact fits_named (by simp)
    (.cons (by decide) (short_names kind hkind) (.one (by decide) hdata))

theorem fits_ofEntry {entry : PageDataEntry} (h : entry.data.length < 2 ^ 32) (depth : Nat) :
    (ofEntry entry).Fits (depth + 2) :=
  fits_named (by simp)
    (.cons (by decide) (fits_ofU32 depth _) (.one (by decide) (fits_ofBytes h depth)))

/-- A short message fits, five levels deep at most. -/
theorem fits_ofMessage {msg : SyncMessage} (h : Short msg) (depth : Nat) :
    (ofMessage msg).Fits (depth + 5) := by
  cases msg with
  | hello version size max | helloReply version size max =>
    exact fits_variant (by decide) (by simp) (.cons (by decide) (fits_ofU32 _ _)
      (.cons (by decide) (fits_ofU32 _ _) (.one (by decide) (fits_ofU32 _ _))))
  | pageHash p data | pageData p data =>
    exact fits_variant (by decide) (by simp) (.cons (by decide) (fits_ofU32 _ _)
      (.one (by decide) (fits_ofBytes h _)))
  | pageHashBatch startPage endPage data =>
    exact fits_variant (by decide) (by simp) (.cons (by decide) (fits_ofU32 _ _)
      (.cons (by decide) (fits_ofU32 _ _) (.one (by decide) (fits_ofBytes h _))))
  | requestPage p | hashMismatch p =>
    exact fits_variant (by decide) (by simp) (.one (by decide) (fits_ofU32 _ _))
  | requestPages ps | hashMismatchBatch ps =>
    exact fits_variant (by decide) (by simp)
      (.one (by decide) (fits_ofList h fun p _ => fits_ofU32 _ p))
  | pageDataBatch pages =>
    exact fits_variant (by decide) (by simp)
      (.one (by decide) (fits_ofList h.1 fun entry hmem => fits_ofEntry (h.2 entry hmem) _))
  | complete => exact fits_named (by simp) (.one (by decide) (short_names "complete" (by decide)))
  | syncComplete pages bytes =>
    exact fits_variant (by decide) (by simp) (.cons (by decide) (fits_ofU64 _ _)
      (.one (by decide) (fits_ofU64 _ _)))
  | error message => exact fits_variant (by decide) (by simp) (.one (by decide) h)

/-- How deep the library lets a value nest. -/
def MAX_DEPTH : Nat := 1024

/-- `rmp_serde::from_slice`. Bytes after the value are not looked at. -/
def fromSlice (body : Bytes) : Option SyncMessage := do
  let (v, _) ← Msgpack.read MAX_DEPTH body
  toMessage v

/-- The body of a short message is read back, whatever follows it. -/
theorem fromSlice_write {msg : SyncMessage} (h : Short msg) (rest : Bytes) :
    fromSlice (Msgpack.write (ofMessage msg) ++ rest) = some msg := by
  have hread := Msgpack.read_write (fits_ofMessage h 1019) rest
  rw [fromSlice, MAX_DEPTH, hread]
  exact toMessage_ofMessage msg

end Wire

/-- `encode_frame`. -/
def encodeFrame (msg : SyncMessage) : Except FrameError Bytes :=
  .ok (PROTOCOL_VERSION :: Msgpack.write (Wire.ofMessage msg))

/-- `decode_frame`. -/
def decodeFrame [RmpSerde] : Bytes → Except FrameError SyncMessage
  | [] => .error .empty
  | version :: body =>
    if version ≠ PROTOCOL_VERSION then .error (.versionMismatch PROTOCOL_VERSION version)
    else
      match Wire.fromSlice body with
      | some msg => .ok msg
      | none => .error (.decode (RmpSerde.decodeError body))

/-! ## The frame codec -/

section

variable [RmpSerde]

theorem decodeFrame_encoded {msg : SyncMessage} (h : Wire.Short msg) :
    decodeFrame (PROTOCOL_VERSION :: Msgpack.write (Wire.ofMessage msg)) = .ok msg := by
  have hread := Wire.fromSlice_write h []
  rw [List.append_nil] at hread
  rw [decodeFrame, if_neg (by simp), hread]

/-- Every message whose lengths fit is decoded from its frame, so that distinct ones
have distinct frames; without the version byte nothing is decoded. -/
theorem frame_codec :
    (∀ msg, Wire.Short msg → (encodeFrame msg).bind decodeFrame = .ok msg) ∧
    (∀ msg msg', Wire.Short msg → Wire.Short msg' → encodeFrame msg = encodeFrame msg' →
      msg = msg') ∧
    decodeFrame [] = .error .empty ∧
    ∀ version body, version ≠ PROTOCOL_VERSION →
      decodeFrame (version :: body) = .error (.versionMismatch PROTOCOL_VERSION version) := by
  have hround : ∀ msg, Wire.Short msg → (encodeFrame msg).bind decodeFrame = .ok msg :=
    fun msg h => decodeFrame_encoded h
  refine ⟨hround, ?_, rfl, ?_⟩
  · intro msg msg' h h' heq
    have hmsg := hround msg h
    rw [heq, hround msg' h'] at hmsg
    exact (Except.ok.inj hmsg).symm
  · intro version body hversion
    rw [decodeFrame, if_pos hversion]

end

example : encodeFrame .complete =
    .ok [1, 0x81, 0xa4, 107, 105, 110, 100, 0xa8, 99, 111, 109, 112, 108, 101, 116, 101] := by
  decide

/-- Page numbers on both sides of each width of an integer. -/
theorem frame_codec_widths :
    letI : RmpSerde := ⟨fun _ => ""⟩
    (encodeFrame (.requestPages [127, 128, 255, 256, 65535, 65536, 4294967295])).bind decodeFrame =
      .ok (.requestPages [127, 128, 255, 256, 65535, 65536, 4294967295]) :=
  letI : RmpSerde := ⟨fun _ => ""⟩
  frame_codec.1 _ (show 7 < 2 ^ 32 by decide)

end EdgeReplica
