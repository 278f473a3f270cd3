import MediaQuery.Inputs
import MediaQuery.Template.Basic
import MediaQuery.Validation

/-!
# Handlers and sources

A source offers handlers, one per type of query. A handler knows the defaults of its requests, the secrets it
needs, and how to answer: each of its `ResponsePlan`s is for the requests that its matcher accepts, and one
without a matcher is for those that nothing else is for.
-/

namespace MediaQuery

/-- How a family of requests is answered. -/
structure ResponsePlan : Type 1 where
  accepts : Option (Request → Bool)
  validator : Validator
  template : Template

/-- Whether the matcher of a plan accepts a request. -/
def ResponsePlan.matchesRequest (plan : ResponsePlan) (r : Request) : Bool :=
  match plan.accepts with
  | some accepts => accepts r
  | none => false

/-- Whether a plan is for the requests that nothing else is for. -/
def ResponsePlan.isFallback (plan : ResponsePlan) : Bool := plan.accepts.isNone

/-- A secret that a handler knows of. -/
structure SecretSpec where
  name : String
  required : Bool
  deriving DecidableEq, Repr, Inhabited

/-- One type of query. The defaults are sorted by name. -/
structure Handler : Type 1 where
  id : String
  displayName : String
  description : String
  pagination : Pagination
  defaults : List (String × Json)
  secrets : List SecretSpec
  responses : List ResponsePlan

/-- A source of media. -/
structure Source : Type 1 where
  id : String
  displayName : String
  description : String
  handlers : List Handler

namespace Handler

instance : Inhabited Handler := ⟨⟨"", "", "", .none, [], [], []⟩⟩

/-- What templates may know of the handler. -/
def info (h : Handler) : HandlerInfo := ⟨h.id, h.displayName, h.pagination⟩

/-- A request as the handler sees it. -/
def requestWithDefaults (h : Handler) (r : Request) : Request := r.withDefaults h.defaults

/-! ## The answer to a request -/

/-- The plan for a request, with its position: the first one whose matcher accepts the request, else the last one
without a matcher. -/
def plan? (h : Handler) (r : Request) : Option (ResponsePlan × Nat) :=
  (h.responses.zipIdx.find? (·.1.matchesRequest r)).or (h.responses.zipIdx.reverse.find? (·.1.isFallback))

/-- The plan for a request, which has to be there. -/
def planFor (h : Handler) (r : Request) : Except PaginationError ResponsePlan :=
  match h.plan? r with
  | some (plan, _) => .ok plan
  | none => .error (.noMatchingResponse h.id)

/-! ## Secrets -/

/-- Whether a secret is there and not empty. -/
def hasSecret (secrets : Secrets) (name : String) : Bool :=
  match secrets.lookup name with
  | some text => text ≠ ""
  | none => false

/-- Which of the handler's secrets are there. -/
def providedSecrets (h : Handler) (secrets : Secrets) : Value :=
  .map (Fields.insertAll [] (h.secrets.map fun s => (s.name, Value.bool (secrets.lookup s.name).isSome)))

/-- The secrets that the handler requires and does not get. -/
def secretIssues (h : Handler) (secrets : Secrets) : List Issue :=
  (h.secrets.filter fun s => s.required && !hasSecret secrets s.name).map fun s => ⟨"$." ++ s.name, "Required"⟩

/-- Checks that every required secret is there and not empty. -/
def validateSecrets (h : Handler) (secrets : Secrets) : Except ValidationError Unit :=
  Validation.refuse
    ("Secrets for the request handler \"" ++ h.id ++ "\" are invalid (provided: " ++
      (h.providedSecrets secrets).display ++ ")")
    (h.secretIssues secrets)

/-- Secrets pass exactly if every required one is there and not empty. -/
theorem validateSecrets_eq_ok_iff {h : Handler} {secrets : Secrets} :
    h.validateSecrets secrets = .ok () ↔ ∀ s ∈ h.secrets, s.required → hasSecret secrets s.name := by
  unfold validateSecrets secretIssues
  rw [Validation.refuse_eq_ok_iff, List.map_eq_nil_iff, List.filter_eq_nil_iff]
  simp

end Handler

namespace Source

instance : Inhabited Source := ⟨⟨"", "", "", []⟩⟩

/-- The handler for a type of query. -/
def handler (s : Source) (queryType : String) : Except PaginationError Handler :=
  match s.handlers.find? (·.id = queryType) with
  | some h => .ok h
  | none => .error (.unknownRequestHandler s.id queryType)

end Source

end MediaQuery
