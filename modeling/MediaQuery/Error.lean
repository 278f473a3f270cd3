import MediaQuery.Path
import MediaQuery.Text.Quoted

/-!
# What can go wrong

Causes are data, and the wording of each is in one place. A failure inside a template is an `EvalError`; where it
leaves the branch it happened in, it becomes an `ExecutionError`, which knows the path, the log so far and the
branch. An execution error that passes through an action on its way out travels as `EvalError.nested`, and
`EvalError.wrap` hands it on as it is, so that it is wrapped once.

Branches are named by routes (see `MediaQuery.Branch.Tree`); `under` restates an error for someone further up.
-/

namespace MediaQuery

/-- The way down from one branch to another: the positions of the forks to take. -/
abbrev Route := List Nat

/-- Failed access to the values of a branch. -/
inductive ContextError where
  | missingValue (key : String)
  | pendingValue (key : String)
  | staleWrite (key : String)
  | task (text : String)
  deriving DecidableEq, Repr, Inhabited

/-- The wording of failed access. -/
def ContextError.message : ContextError → String
  | .missingValue key => "Attempted to access value \"" ++ key ++ "\" but that value was never set"
  | .pendingValue key => "The value saved under the key \"" ++ key ++ "\" is still resolving"
  | .staleWrite key =>
    "The value saved under the key \"" ++ key ++
      "\" was changed before the original value (which was pending) finished resolving"
  | .task text => "Pending value task failed: " ++ text

/-- One problem of a validated value, and where it is. -/
structure Issue where
  path : String
  message : String
  deriving DecidableEq, Repr, Inhabited

/-- A value that did not pass validation. -/
structure ValidationError where
  headline : String
  issues : List Issue
  deriving DecidableEq, Repr, Inhabited

/-- The headline, and below it one line per issue. -/
def ValidationError.message (e : ValidationError) : String :=
  e.headline ++ String.join (e.issues.map fun i => "\n  - " ++ i.path ++ ": " ++ i.message)

/-- Failures of a query around the evaluation of a template. -/
inductive PaginationError where
  | contractViolation (handler source text : String)
  | unknownSource (source : String)
  | unknownRequestHandler (source queryType : String)
  | noMatchingResponse (handler : String)
  | invalidSecrets (e : ValidationError)
  | invalidRequest (text : String)
  deriving DecidableEq, Repr, Inhabited

/-- The wording of a query's failures. -/
def PaginationError.message : PaginationError → String
  | .contractViolation handler source text =>
    "The response returned from the request handler \"" ++ handler ++ "\" of the source \"" ++ source ++
      "\" broke the pagination contract: " ++ text
  | .unknownSource source =>
    "Attempted to query an unknown source \"" ++ source ++
      "\". If it is provided by a plugin please make sure that plugin is loaded first"
  | .unknownRequestHandler source queryType =>
    "Source \"" ++ source ++ "\" has no request handler for query type \"" ++ queryType ++ "\""
  | .noMatchingResponse handler =>
    "Could not find a response matching the request for request handler \"" ++ handler ++ "\""
  | .invalidSecrets e => e.message
  | .invalidRequest text => "Request is invalid: " ++ text

mutual

/-- A failure inside a template. -/
inductive EvalError where
  | context (e : ContextError)
  | invalidArrayMapSource (found : String)
  | arrayMapOutsideList
  | invalidInclude (found : String)
  /-- An action's own failure, with the messages of what caused it. -/
  | action (text : String) (causes : List String)
  /-- A nested request failed. -/
  | request (e : Error)
  /-- A failure further down that is wrapped already. -/
  | nested (e : ExecutionError)

/-- A failure together with the branch it happened in. -/
inductive ExecutionError where
  | failed (headline : String) (path : Path) (cause : EvalError) (log : List Path) (branch : Route)

/-- A failure of a query. -/
inductive Error where
  | execution (e : ExecutionError)
  | validation (e : ValidationError)
  | pagination (e : PaginationError)
  | context (e : ContextError)
  | internal (text : String)

end

instance : Inhabited EvalError := ⟨.arrayMapOutsideList⟩

namespace ExecutionError

/-- The headline; unless replaced it is the text of the cause. -/
def message : ExecutionError → String
  | .failed headline _ _ _ _ => headline

/-- The path of the branch. -/
def path : ExecutionError → Path
  | .failed _ path _ _ _ => path

/-- What went wrong. -/
def cause : ExecutionError → EvalError
  | .failed _ _ cause _ _ => cause

/-- The execution log as it was. -/
def log : ExecutionError → List Path
  | .failed _ _ _ log _ => log

/-- The branch. -/
def branch : ExecutionError → Route
  | .failed _ _ _ _ branch => branch

/-- The same failure with another headline. -/
def withMessage (e : ExecutionError) (headline : String) : ExecutionError :=
  .failed headline e.path e.cause e.log e.branch

instance : Inhabited ExecutionError := ⟨.failed "" .root default [] []⟩

end ExecutionError

/-- The wording of a query's failure. -/
def Error.message : Error → String
  | .execution e => e.message
  | .validation e => "Validation error: " ++ e.message
  | .pagination e => "Pagination error: " ++ e.message
  | .context e => "Context error: " ++ e.message
  | .internal text => "Internal error: " ++ text

instance : Inhabited Error := ⟨.internal ""⟩

namespace EvalError

/-- The wording of a failure inside a template. -/
def message : EvalError → String
  | .context e => e.message
  | .invalidArrayMapSource found => "array_map must return either a list or a selection but returned " ++ found
  | .arrayMapOutsideList => "array_map can only be used on an object template that is a list element"
  | .invalidInclude found => "include must return a map but returned " ++ found
  | .action text _ => text
  | .request e => "Nested request failed: " ++ e.message
  | .nested e => e.message

/-- The failure as it leaves its branch. One that is wrapped already passes unchanged. -/
def wrap (e : EvalError) (path : Path) (log : List Path) (branch : Route) : ExecutionError :=
  match e with
  | .nested inner => inner
  | e => .failed e.message path e log branch

end EvalError

mutual

/-- The error as seen from further up, where the way to the branch starts with the given route. -/
def EvalError.under (route : Route) : EvalError → EvalError
  | .request e => .request (e.under route)
  | .nested e => .nested (e.under route)
  | e => e

/-- The error as seen from further up. -/
def ExecutionError.under (route : Route) : ExecutionError → ExecutionError
  | .failed headline path cause log branch => .failed headline path (cause.under route) log (route ++ branch)

/-- The error as seen from further up. -/
def Error.under (route : Route) : Error → Error
  | .execution e => .execution (e.under route)
  | e => e

end

/-- A log entry. -/
def logLine (p : Path) : String := "Executing action for " ++ p.render

end MediaQuery
