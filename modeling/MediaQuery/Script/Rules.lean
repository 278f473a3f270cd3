import MediaQuery.Handler

/-!
# Ready-made matchers and validators

Conditions on requests that choose between the plans of a handler, and checks of responses.
-/

namespace MediaQuery.Script

/-- Whether a parameter is there. -/
def hasParam (name : String) (r : Request) : Bool := (r.params.lookup name).isSome

/-- Whether a parameter has the given value. -/
def paramEquals (name : String) (value : Json) (r : Request) : Bool :=
  match r.params.lookup name with
  | some found => found == value
  | none => false

/-- Whether a request is for the given page. -/
def isPage (n : Int64) (r : Request) : Bool := r.pageNumber = some n

/-- Refuses every response. -/
def reject (e : ValidationError) : Validator := fun _ => .error e

/-- Refuses responses without an entry. -/
def requireKey (key : String) (e : ValidationError) : Validator := fun body =>
  if (body.get? key).isSome then .ok () else .error e

end MediaQuery.Script
