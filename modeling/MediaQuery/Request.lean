import MediaQuery.Value.Json

/-!
# Requests

A request names a source and a query type and may carry a page number, a cursor and further parameters. It is
written as one flat JSON object (`Request.wire`), read back by `Request.ofJson?`, and shown to templates as a map
(`Request.toValue`). `Request.withDefaults` fills what a request leaves open.
-/

namespace MediaQuery

/-- An opaque mark of a place in a listing, handed out by a source. -/
inductive Cursor where
  | number (n : Int64)
  | text (s : String)
  deriving DecidableEq, Repr, Inhabited

namespace Cursor

/-- The cursor as a JSON value. -/
def toJson : Cursor → Json
  | .number n => .int n.toInt
  | .text s => .str s

/-- The cursor as a value. -/
def toValue : Cursor → Value
  | .number n => .integer n
  | .text s => .string s

/-- A cursor is a text or a whole number of a 64-bit word. -/
def ofJson? : Json → Option Cursor
  | .str s => some (.text s)
  | j => j.asWord?.map fun n => .number (Int64.ofInt n)

end Cursor

/-- What a query asks of one handler of one source. The parameters are sorted by name. -/
structure Request where
  source : String
  queryType : String
  pageNumber : Option Int64
  cursor : Option Cursor
  params : List (String × Json)
  deriving Inhabited

namespace Request

/-- The request without page number, cursor and parameters. -/
def plain (source queryType : String) : Request := ⟨source, queryType, none, none, []⟩

/-- The names of the parts that are not parameters. -/
def reserved : List String := ["source", "queryType", "pageNumber", "cursor"]

/-- The request with one more parameter. -/
def withParam (r : Request) (name : String) (value : Json) : Request :=
  { r with params := Fields.put name value r.params }

/-- The parts of a request in the order of its text. -/
def parts (r : Request) : List (String × Json) :=
  [("source", .str r.source), ("queryType", .str r.queryType)] ++
    (r.pageNumber.map fun n => ("pageNumber", Json.int n.toInt)).toList ++
    (r.cursor.map fun c => ("cursor", c.toJson)).toList

/-- The JSON form. A parameter with a reserved name stands beside the part of that name. -/
def wire (r : Request) : Json := .obj (r.parts ++ r.params)

/-- The map that templates see. A parameter with a reserved name replaces the part of that name. -/
def toValue (r : Request) : Value :=
  let parts : List (String × Value) :=
    [("source", .string r.source), ("queryType", .string r.queryType)] ++
      (r.pageNumber.map fun n => ("pageNumber", Value.integer n)).toList ++
      (r.cursor.map fun c => ("cursor", c.toValue)).toList
  .map (Fields.insertAll parts (r.params.map fun e => (e.1, Value.ofJson e.2)))

/-- An optional part: absent or null is none, otherwise it has to be readable. -/
def optional? (read : Json → Option α) : Option Json → Option (Option α)
  | none => some none
  | some .null => some none
  | some j => (read j).map some

/-- A whole number of a 64-bit word. -/
def word? (j : Json) : Option Int64 := j.asWord?.map Int64.ofInt

/-- Reads a request from its JSON form. Source and query type are needed; everything that is not a part is a
parameter. -/
def ofJson? (j : Json) : Option Request :=
  match j.normalize with
  | .obj members => do
    let source ← members.lookup "source" >>= Json.asStr?
    let queryType ← members.lookup "queryType" >>= Json.asStr?
    let pageNumber ← optional? word? (members.lookup "pageNumber")
    let cursor ← optional? Cursor.ofJson? (members.lookup "cursor")
    some { source, queryType, pageNumber, cursor, params := members.filter (·.1 ∉ reserved) }
  | _ => none

/-- Fills one part or parameter that the request leaves open. Source and query type are never filled; a default
of the wrong kind for page number or cursor fills nothing. -/
def fill (r : Request) (name : String) (default : Json) : Request :=
  match name with
  | "source" => r
  | "queryType" => r
  | "pageNumber" => if r.pageNumber.isNone then { r with pageNumber := word? default } else r
  | "cursor" => if r.cursor.isNone then { r with cursor := Cursor.ofJson? default } else r
  | name => if (r.params.lookup name).isSome then r else r.withParam name default

/-- The request with every part and parameter that it leaves open and that has a default. -/
def withDefaults (r : Request) (defaults : List (String × Json)) : Request :=
  defaults.foldl (fun r e => r.fill e.1 e.2) r

end Request

end MediaQuery
