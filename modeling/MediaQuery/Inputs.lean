import MediaQuery.Hook
import MediaQuery.Response

/-!
# What a query is run with

The parts that every branch of one query shares and none can change.
-/

namespace MediaQuery

/-- Secrets by name, sorted. -/
abbrev Secrets := List (String × String)

/-- What templates may know of the handler they belong to. -/
structure HandlerInfo where
  id : String
  displayName : String
  pagination : Pagination
  deriving DecidableEq, Repr, Inhabited

/-- What a query is run with. -/
structure Inputs where
  request : Request
  secrets : Secrets
  handler : Option HandlerInfo
  sourceId : String
  pagination : Pagination
  /-- Whether this page is the last one that the budget allows; none without pagination. -/
  fetchLimitReached : Option Bool
  cacheRequests : Bool
  hooks : Hooks
  deriving Inhabited

/-- A query for nothing in particular. -/
def Inputs.blank : Inputs :=
  { request := .plain "" ""
    secrets := []
    handler := none
    sourceId := ""
    pagination := .none
    fetchLimitReached := none
    cacheRequests := false
    hooks := .empty }

end MediaQuery
