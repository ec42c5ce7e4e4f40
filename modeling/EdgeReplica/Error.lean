-- SUMMARY: The storage error that every back end shares.
import Mathlib.Data.List.Basic

/-!
# Storage errors

The storage layer reports its failures in these four kinds; the handlers map them to
the codes of the transport.
-/

namespace EdgeReplica

inductive StoreError where
  | notFound (message : String)
  | alreadyExists (message : String)
  | conflict (message : String)
  | backend (message : String)
deriving DecidableEq, Repr

def StoreError.toString : StoreError → String
  | .notFound s => s!"not found: {s}"
  | .alreadyExists s => s!"already exists: {s}"
  | .conflict s => s!"conflict: {s}"
  | .backend s => s!"backend: {s}"

/-- A storage call: it may change the storage and may fail. -/
abbrev StoreM (σ : Type) := EStateM StoreError σ

end EdgeReplica
