import MediaQuery.Request

/-!
# Responses

A response is a page of media together with the request it answers. `Response.ofValue?` reads the typed parts out
of an evaluated template; the whole template stays with the response as its body.
-/

namespace MediaQuery

/-- How a handler divides its listing into pages. -/
inductive Pagination where
  | offset
  | cursor
  | none
  deriving DecidableEq, Repr, Inhabited

namespace Pagination

/-- The name on the wire. -/
def name : Pagination → String
  | .offset => "offset"
  | .cursor => "cursor"
  | .none => "none"

/-- The kind of that name. -/
def ofName? : String → Option Pagination
  | "offset" => some .offset
  | "cursor" => some .cursor
  | "none" => some .none
  | _ => Option.none

/-- A name, alone or as the only member of an object with null beside it. -/
def ofJson? : Json → Option Pagination
  | .str s => ofName? s
  | .obj [(s, .null)] => ofName? s
  | _ => Option.none

/-- Whether the listing has pages. -/
def isPaged : Pagination → Bool
  | .none => false
  | _ => true

theorem ofName?_name (p : Pagination) : ofName? p.name = some p := by cases p <;> rfl

end Pagination

/-- What a response says of its place in the listing. -/
structure Page where
  pagination : Pagination
  pageNumber : Option Int64
  cursor : Option Cursor
  nextCursor : Option Cursor
  isLastPage : Option Bool
  totalMedia : Option Int64
  url : Option String
  fetchLimitReached : Bool
  deriving DecidableEq, Repr, Inhabited

namespace Page

/-- The fields of a page in the order of its text. -/
def fieldNames : List String :=
  ["paginationType", "pageNumber", "cursor", "nextCursor", "isLastPage", "totalMedia", "url", "pageFetchLimitReached"]

/-- Reads a page from its fields. -/
def ofMembers? (members : List (String × Json)) : Option Page := do
  let pagination ← members.lookup "paginationType" >>= Pagination.ofJson?
  let pageNumber ← Request.optional? Request.word? (members.lookup "pageNumber")
  let cursor ← Request.optional? Cursor.ofJson? (members.lookup "cursor")
  let nextCursor ← Request.optional? Cursor.ofJson? (members.lookup "nextCursor")
  let isLastPage ← Request.optional? Json.asBool? (members.lookup "isLastPage")
  let totalMedia ← Request.optional? Request.word? (members.lookup "totalMedia")
  let url ← Request.optional? Json.asStr? (members.lookup "url")
  let fetchLimitReached ← match members.lookup "pageFetchLimitReached" with
    | some j => j.asBool?
    | none => some false
  some { pagination, pageNumber, cursor, nextCursor, isLastPage, totalMedia, url, fetchLimitReached }

/-- Reads a page from its JSON form. -/
def ofJson? (j : Json) : Option Page := j.fields? fieldNames >>= ofMembers?

/-- The JSON form: absent fields are left out. -/
def wire (p : Page) : Json :=
  .obj <| [("paginationType", Json.str p.pagination.name)] ++
    (p.pageNumber.map fun n => ("pageNumber", Json.int n.toInt)).toList ++
    (p.cursor.map fun c => ("cursor", c.toJson)).toList ++
    (p.nextCursor.map fun c => ("nextCursor", c.toJson)).toList ++
    (p.isLastPage.map fun b => ("isLastPage", Json.bool b)).toList ++
    (p.totalMedia.map fun n => ("totalMedia", Json.int n.toInt)).toList ++
    (p.url.map fun s => ("url", Json.str s)).toList ++
    [("pageFetchLimitReached", .bool p.fetchLimitReached)]

end Page

/-- A page of media. -/
structure Response where
  page : Option Page
  media : List Value
  request : Request
  /-- The whole evaluated template. -/
  body : Value
  deriving Inhabited

namespace Response

/-- The list under `media` without its excluded items; empty if there is no such list. -/
def mediaOf (body : Value) : List Value :=
  ((body.get? "media" >>= Value.asList?).getD []).filter (!·.isExclude)

/-- Reads the typed parts out of an evaluated template. -/
def ofValue? (body : Value) : Option Response := do
  let json := body.toJson
  let page ← Request.optional? Page.ofJson? (json.get? "page")
  let request ← Request.ofJson? ((json.get? "request").getD .null)
  some { page, media := mediaOf body, request, body }

/-- Whether the page says that none follows it. -/
def isLastPage (r : Response) : Bool := (r.page >>= Page.isLastPage).getD false

/-- The JSON form; the body is left out. -/
def wire (r : Response) : Json :=
  .obj [("page", (r.page.map Page.wire).getD .null), ("media", (Value.list r.media).wire), ("request", r.request.wire)]

end Response

end MediaQuery
