import MediaQuery.Error
import MediaQuery.Response

/-!
# The pagination contract

What the entry `page` of an evaluated template has to say, given how the handler divides its listing and whether
the page is the last one that the budget allows.
-/

namespace MediaQuery

/-- What a body owes to its query. -/
structure Contract where
  handler : String
  source : String
  pagination : Pagination
  /-- Whether the page is the last one that the budget allows; none without pagination. -/
  fetchLimitReached : Option Bool
  deriving DecidableEq, Repr, Inhabited

namespace Contract

/-- The page of a body; null is none. -/
def page? (body : Value) : Option Value := (body.get? "page").filter (!·.isNull)

/-- What is wrong with an offset page. -/
def offsetFault? (page : Value) : Option String :=
  if (page.get? "pageNumber" >>= Value.asInt?).isSome then none
  else some "Offset page is missing an integer pageNumber"

/-- What is wrong with a cursor of a cursor page. -/
def cursorFault? (page : Value) (name : String) : Option String :=
  match page.get? name with
  | some (.string _) => none
  | some (.integer _) => none
  | some .null => none
  | some found =>
    some ("Cursor page field " ++ name ++ " must be a string, integer or null but was " ++ found.kind)
  | none => some ("Cursor page is missing " ++ name)

/-- What is wrong with the fields that only one kind of page has. -/
def fieldFault? (page : Value) : Pagination → Option String
  | .offset => offsetFault? page
  | .cursor => (cursorFault? page "cursor").or (cursorFault? page "nextCursor")
  | .none => none

/-- An optional flag in messages. -/
def showFlag (flag : Option Bool) : String := Text.showOption (fun b => if b then "true" else "false") flag

/-- What is wrong with the budget mark of a page. -/
def limitFault? (c : Contract) (page : Value) : Option String :=
  let reported := page.get? "pageFetchLimitReached" >>= Value.asBool?
  if reported = c.fetchLimitReached then none
  else
    some ("pageFetchLimitReached was " ++ showFlag reported ++ " but should be " ++ showFlag c.fetchLimitReached)

/-- What is wrong with a page where one is due. -/
def pageFault? (c : Contract) (page : Value) : Option String :=
  let declared := page.get? "paginationType" >>= Value.asString?
  if declared = some c.pagination.name then (fieldFault? page c.pagination).or (c.limitFault? page)
  else
    some ("Request was for a " ++ c.pagination.name ++ " page but response page type was " ++
      declared.getD "undefined")

/-- The first thing that is wrong with a body. -/
def fault? (c : Contract) (body : Value) : Option String :=
  match page? body with
  | some page =>
    if c.pagination.isPaged then c.pageFault? page
    else some "Handler does not paginate but the response has a page"
  | none =>
    if c.pagination.isPaged then
      some ("Request was for a " ++ c.pagination.name ++ " page but response has no page")
    else none

/-- Checks a body. -/
def check (c : Contract) (body : Value) : Except PaginationError Unit :=
  match c.fault? body with
  | none => .ok ()
  | some text => .error (.contractViolation c.handler c.source text)

/-- A body passes exactly if nothing is wrong with it. -/
theorem check_eq_ok_iff {c : Contract} {body : Value} : c.check body = .ok () ↔ c.fault? body = none := by
  unfold check
  cases c.fault? body <;> simp

end Contract

end MediaQuery
