import MediaQuery.Options
import MediaQuery.Response

/-!
# Walks

A walk is how far a query has come in a listing: the request of the next page, how many pages were made, and the
phase. `Walk.begin` and `Walk.advance` are the two halves of a step, before and after the page is made;
`Walk.fail` is what becomes of it if there is no page.
-/

namespace MediaQuery

/-- The phases of a walk. -/
inductive Phase where
  | idle
  | fetching
  | yielded
  | exhausted
  | limitReached
  deriving DecidableEq, Repr, Inhabited

namespace Phase

/-- The name of a phase. -/
def name : Phase → String
  | .idle => "Idle"
  | .fetching => "Fetching"
  | .yielded => "Yielded"
  | .exhausted => "Exhausted"
  | .limitReached => "LimitReached"

/-- Whether no page follows. -/
def isTerminal : Phase → Bool
  | .exhausted => true
  | .limitReached => true
  | _ => false

end Phase

/-- How far a query has come. -/
structure Walk where
  request : Request
  options : QueryOptions
  phase : Phase
  fetched : Nat
  deriving Inhabited

namespace Walk

/-- A walk that has not begun. -/
def start (request : Request) (options : QueryOptions) : Walk := ⟨request, options, .idle, 0⟩

/-- How many pages the walk makes at most. -/
def limit (w : Walk) : Nat := w.options.fetchCountLimit

/-- Whether the budget is used up. -/
def isSpent (w : Walk) : Bool := w.limit ≤ w.fetched

/-- Goes back to the beginning; the request stays what it has become. -/
def rewind (w : Walk) : Walk := { w with phase := .idle, fetched := 0 }

/-- Replaces the request and goes back to the beginning. -/
def setRequest (w : Walk) (request : Request) : Walk := { w with request }.rewind

/-- Replaces the options and goes back to the beginning. -/
def setOptions (w : Walk) (options : QueryOptions) : Walk := { w with options }.rewind

/-- The walk while its next page is made. -/
def begin (w : Walk) : Walk := { w with phase := .fetching, fetched := w.fetched + 1 }

/-- The walk after a failure. -/
def fail (w : Walk) : Walk := { w with phase := .exhausted }

/-- The walk when its budget has turned out to be used up. -/
def stop (w : Walk) : Walk := { w with phase := .limitReached }

/-- The request of the page after the given one. -/
def following (r : Request) (pagination : Pagination) (page? : Option Page) : Request :=
  match pagination, page? with
  | .offset, some page =>
    match page.pageNumber with
    | some n => { r with pageNumber := some (n + 1) }
    | none => r
  | .cursor, some page => { r with cursor := page.nextCursor }
  | _, _ => r

/-- The phase after a page. -/
def phaseAfter (w : Walk) (pagination : Pagination) (response : Response) : Phase :=
  if !pagination.isPaged || response.isLastPage then .exhausted
  else if w.isSpent then .limitReached
  else .yielded

/-- The walk after the page that it has begun. -/
def advance (w : Walk) (pagination : Pagination) (response : Response) : Walk :=
  { w with
    request := following w.request pagination response.page
    phase := w.phaseAfter pagination response }

end Walk

end MediaQuery
