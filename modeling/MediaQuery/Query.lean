import MediaQuery.PageTask
import MediaQuery.Walk

/-!
# Queries

A query walks through the pages of one listing. `Query.next` is the program of one step: nothing once the walk is
over, else a page or a failure. `Query.stream` takes all steps that are left; a failure is the last of them.
-/

namespace MediaQuery

/-- The sources and hooks that queries are run with. The sources are sorted by identifier. -/
structure Registry : Type 1 where
  sources : List (String × Source)
  hooks : Hooks

namespace Registry

/-- Nothing to query. -/
def empty : Registry := ⟨[], .empty⟩

/-- Adds a source, or replaces the one with its identifier. -/
def load (r : Registry) (s : Source) : Registry := { r with sources := Fields.put s.id s r.sources }

/-- Adds a hook. -/
def registerHook (r : Registry) (name : String) (hook : Hook) : Registry :=
  { r with hooks := r.hooks.register name hook }

/-- The source of an identifier. -/
def source (r : Registry) (id : String) : Except PaginationError Source :=
  match r.sources.lookup id with
  | some s => .ok s
  | none => .error (.unknownSource id)

end Registry

/-- A walk together with the sources and hooks as they were when it was made. -/
structure Query : Type 1 where
  registry : Registry
  walk : Walk

/-- What one step of a query answers: a page or none, or a failure; and the walk after it. -/
structure Step where
  result : Except Error (Option Response)
  walk : Walk

namespace Query

/-- The same query with another walk. -/
def withWalk (q : Query) (walk : Walk) : Query := { q with walk }

/-- The request of the next page. -/
def request (q : Query) : Request := q.walk.request

/-- The source that the request names. -/
def source (q : Query) : Except PaginationError Source := q.registry.source q.request.source

/-- The handler that the request names. -/
def handler (q : Query) : Except PaginationError Handler := do (← q.source).handler q.request.queryType

/-- The request as its handler will see it. -/
def requestWithDefaults (q : Query) : Except PaginationError Request :=
  match q.handler with
  | .ok h => .ok (h.requestWithDefaults q.request)
  | .error e => .error e

/-- Checks that the request names a source and a type of query. -/
def checkRequest (q : Query) : Except PaginationError Unit :=
  if q.request.source = "" ∨ q.request.queryType = "" then
    .error (.invalidRequest "source and queryType are required")
  else .ok ()

/-- Checks the secrets, at the beginning of a walk. -/
def checkSecrets (q : Query) (h : Handler) : Except PaginationError Unit :=
  if q.walk.phase = .idle then (h.validateSecrets q.walk.options.secrets).mapError .invalidSecrets
  else .ok ()

/-- Whether the next page is the last one that the budget allows; none without pagination. -/
def limitFlag (q : Query) (h : Handler) : Option Bool :=
  if h.pagination.isPaged then some (q.walk.fetched + 1 = q.walk.limit) else none

/-- The task of the next page of a handler. -/
def taskFor (q : Query) (source : Source) (h : Handler) : PageTask :=
  { source := source.id
    handler := h
    request := q.request
    secrets := q.walk.options.secrets
    fetchLimitReached := q.limitFlag h
    cacheRequests := q.walk.options.cacheRequests
    hooks := q.registry.hooks }

/-- The task of the next page, unless the request or the secrets do not allow it. -/
def task (q : Query) : Except PaginationError PageTask :=
  match q.checkRequest with
  | .error e => .error e
  | .ok () => do
    let source ← q.source
    let h ← source.handler q.request.queryType
    match q.checkSecrets h with
    | .error e => .error e
    | .ok () => .ok (q.taskFor source h)

/-- One step, below the given branch. -/
def next (q : Query) (branch : Route) : Prog Step :=
  if q.walk.phase.isTerminal then return ⟨.ok none, q.walk⟩
  else
    match q.task with
    | .error e => return ⟨.error (.pagination e), q.walk.fail⟩
    | .ok task =>
      if q.walk.isSpent then return ⟨.ok none, q.walk.stop⟩
      else do
        match ← task.run branch with
        | .ok response => return ⟨.ok (some response), q.walk.begin.advance task.handler.pagination response⟩
        | .error e => return ⟨.error e, q.walk.begin.fail⟩

/-- At most the given number of steps: their pages, and a failure if there is one. -/
def steps (q : Query) (branch : Route) : (bound : Nat) → Prog (List (Except Error Response))
  | 0 => return []
  | bound + 1 => do
    let step ← q.next branch
    match step.result with
    | .ok (some response) => return .ok response :: (← (q.withWalk step.walk).steps branch bound)
    | .ok none => return []
    | .error e => return [.error e]

/-- All steps that are left. Every page takes one from the budget, and one step more finds that it is used up or
fails before it is asked for. -/
def stream (q : Query) (branch : Route) : Prog (List (Except Error Response)) :=
  q.steps branch (q.walk.limit - q.walk.fetched + 1)

end Query

end MediaQuery
