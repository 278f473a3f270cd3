import MediaQuery.Contract
import MediaQuery.Handler
import MediaQuery.Template.Evaluate

/-!
# Pages

A `PageTask` is everything needed to make one page. Its program fills in the request, evaluates the template of
the plan that fits in a session of its own, checks what comes out, and reads the response out of it. An action
asks for a nested page in the same way (`Prog.loadRequest`).
-/

namespace MediaQuery

/-- Everything needed to make one page. -/
structure PageTask : Type 1 where
  source : String
  handler : Handler
  request : Request
  secrets : Secrets
  /-- Whether this page is the last one that the budget allows; none without pagination. -/
  fetchLimitReached : Option Bool
  cacheRequests : Bool
  hooks : Hooks

namespace PageTask

instance : Inhabited PageTask := ⟨⟨"", default, .plain "" "", [], none, false, .empty⟩⟩

/-- The request that templates see. -/
def filledRequest (t : PageTask) : Request := t.handler.requestWithDefaults t.request

/-- What the templates are run with. -/
def inputs (t : PageTask) : Inputs :=
  { request := t.filledRequest
    secrets := t.secrets
    handler := some t.handler.info
    sourceId := t.source
    pagination := t.handler.pagination
    fetchLimitReached := t.fetchLimitReached
    cacheRequests := t.cacheRequests
    hooks := t.hooks }

/-- What the page owes. -/
def contract (t : PageTask) : Contract := ⟨t.handler.id, t.source, t.handler.pagination, t.fetchLimitReached⟩

/-- The headline of a page that does not pass. -/
def headline (t : PageTask) : String :=
  "The response returned from the request handler \"" ++ t.handler.id ++ "\" of the source \"" ++ t.source ++
    "\" is invalid"

/-- Runs a validator on a page, under the headline of the task. -/
def validate (t : PageTask) (validator : Validator) (body : Value) : Except Error Unit :=
  (validator body).mapError fun e => .validation { e with headline := t.headline }

/-- Checks a page: its shape, then the contract, and last by the validator of its handler. -/
def accept (t : PageTask) (validator : Validator) (body : Value) : Except Error Unit := do
  t.validate (Validation.check t.filledRequest.toValue t.source) body
  (t.contract.check body).mapError .pagination
  t.validate validator body

/-- The response of a page that has passed its checks. -/
def read (body : Value) : Except Error Response :=
  match Response.ofValue? body with
  | some response => .ok response
  | none => .error (.internal "Failed to read validated response")

/-- Makes the page, in a session below the given branch. -/
def run (t : PageTask) (branch : Route) : Prog (Except Error Response) :=
  match t.handler.planFor t.filledRequest with
  | .error e => return .error (.pagination e)
  | .ok plan => do
    let first ← Prog.openSession branch t.inputs
    match ← plan.template.evaluate first with
    | .error e => return .error (.execution e)
    | .ok body => return (t.accept plan.validator body).bind fun _ => read body

end PageTask

/-- The task of a nested page: a request without source or query type is for the source of the asking query and
for the given handler. It has no budget, and its secrets are not checked. -/
def Inputs.nestedTask (inputs : Inputs) (handler : Handler) (request : Request) (secrets : Secrets) : PageTask :=
  let source := if request.source = "" then inputs.sourceId else request.source
  let queryType := if request.queryType = "" then handler.id else request.queryType
  { source
    handler
    request := { request with source, queryType }
    secrets
    fetchLimitReached := none
    cacheRequests := inputs.cacheRequests
    hooks := inputs.hooks }

/-- Makes a nested page. -/
def Prog.loadRequest (branch : Route) (handler : Handler) (request : Request) (secrets : Secrets) :
    Prog (Except Error Response) := do
  ((← Prog.inputs branch).nestedTask handler request secrets).run branch

end MediaQuery
