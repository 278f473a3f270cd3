import MediaQuery.Error
import MediaQuery.Inputs
import MediaQuery.Json.Reader

/-!
# Options

The options of a query and of a finder, with their defaults, and how they are read from JSON text. Anything but
an absent field has to be of the right kind. Secrets are read but never written.
-/

namespace MediaQuery

/-- The options of a query. -/
structure QueryOptions where
  secrets : Secrets
  /-- How many pages a query makes at most. -/
  fetchCountLimit : Nat
  cacheRequests : Bool
  deriving Inhabited

/-- The options of a finder. -/
structure FinderOptions where
  /-- Whether to warn of a source that replaces another. -/
  warnOnSourceOverwrite : Bool
  deriving DecidableEq, Repr, Inhabited

namespace Settings

/-- An optional field: its default if it is absent. -/
def field? (fields : List (String × Json)) (name : String) (default : α) (read : Json → Option α) : Option α :=
  match fields.lookup name with
  | some j => read j
  | none => some default

/-- A whole number of a 64-bit word without sign. -/
def count? : Json → Option Nat
  | .int n => if 0 ≤ n ∧ n < Int.pow 2 64 then some n.toNat else none
  | _ => none

/-- Texts by name; of texts with one name the last one stays. -/
def texts? : Json → Option (List (String × String))
  | .obj members => do
    let texts ← members.mapM fun (e : String × Json) => e.2.asStr?.map fun text => (e.1, text)
    some (Fields.sort texts)
  | _ => none

/-- Reads settings from text. -/
def ofText (read : Json → Option α) (text : String) : Except Error α :=
  match Json.read? text >>= read with
  | some settings => .ok settings
  | none => .error (.internal "Failed to parse config")

/-- Reads settings from the content of a file, if there is such a file. -/
def ofFile (read : Json → Option α) : Option String → Except Error α
  | none => .error (.internal "Failed to open config file")
  | some text =>
    match Json.read? text >>= read with
    | some settings => .ok settings
    | none => .error (.internal "Failed to parse config file")

end Settings

namespace QueryOptions

/-- Ten pages, no secrets, nothing cached. -/
def standard : QueryOptions := ⟨[], 10, false⟩

/-- The options with one more secret. -/
def withSecret (o : QueryOptions) (name text : String) : QueryOptions :=
  { o with secrets := Fields.put name text o.secrets }

/-- The options with another budget. -/
def withLimit (o : QueryOptions) (limit : Nat) : QueryOptions := { o with fetchCountLimit := limit }

/-- Reads options from their JSON form. -/
def ofJson? (j : Json) : Option QueryOptions := do
  let fields ← j.fields? ["secrets", "fetchCountLimit", "cacheNetworkRequests"]
  let secrets ← Settings.field? fields "secrets" standard.secrets Settings.texts?
  let fetchCountLimit ← Settings.field? fields "fetchCountLimit" standard.fetchCountLimit Settings.count?
  let cacheRequests ← Settings.field? fields "cacheNetworkRequests" standard.cacheRequests Json.asBool?
  some { secrets, fetchCountLimit, cacheRequests }

/-- The JSON form, without the secrets. -/
def wire (o : QueryOptions) : Json :=
  .obj [("fetchCountLimit", .int o.fetchCountLimit), ("cacheNetworkRequests", .bool o.cacheRequests)]

end QueryOptions

namespace FinderOptions

/-- Warnings are on. -/
def standard : FinderOptions := ⟨true⟩

/-- Reads options from their JSON form. -/
def ofJson? (j : Json) : Option FinderOptions := do
  let fields ← j.fields? ["warnOnSourceOverwrite"]
  let warnOnSourceOverwrite ←
    Settings.field? fields "warnOnSourceOverwrite" standard.warnOnSourceOverwrite Json.asBool?
  some { warnOnSourceOverwrite }

/-- The JSON form. -/
def wire (o : FinderOptions) : Json := .obj [("warnOnSourceOverwrite", .bool o.warnOnSourceOverwrite)]

end FinderOptions

end MediaQuery
