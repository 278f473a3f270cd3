import MediaQuery.Error
import MediaQuery.Value.Json

/-!
# Validation of evaluated templates

What every response has to be, whatever its handler: a map with a list of media that belong to the queried source
and with the request that it answers. `Validation.issues` finds every problem, in the order of the document, and
`Validation.check` refuses a body that has one.
-/

namespace MediaQuery

/-- A check of an evaluated template. -/
abbrev Validator := Value → Except ValidationError Unit

namespace Validation

/-- Every value passes. -/
def acceptAll : Validator := fun _ => .ok ()

/-- The problem of a value of the wrong kind. -/
def wrongKind (path expected : String) (found : Value) : Issue :=
  ⟨path, "Expected " ++ expected ++ ", received " ++ found.kind⟩

/-- The problem of one medium of the given position: it is no map, or it names another source. -/
def mediumIssue? (source : String) (i : Nat) (medium : Value) : Option Issue :=
  let path := "$.media[" ++ toString i ++ "]"
  if medium.asMap?.isNone then some (wrongKind path "object" medium)
  else
    match medium.get? "mediaFinderSource" with
    | some found =>
      if found.asString? = some source then none
      else
        some ⟨path ++ ".mediaFinderSource",
          "Request was for source " ++ source ++ " but media number " ++ toString i ++ " has source set to " ++
            found.display⟩
    | none => none

/-- The problems of media, the first of which has the given position. Excluded ones have none. -/
def mediaIssuesFrom (source : String) (i : Nat) : List Value → List Issue
  | [] => []
  | medium :: rest =>
    (if medium.isExclude then [] else (mediumIssue? source i medium).toList) ++ mediaIssuesFrom source (i + 1) rest

/-- The problems of the entry `media`. -/
def mediaIssues (source : String) : Option Value → List Issue
  | none => [⟨"$.media", "Required"⟩]
  | some media =>
    match media.asList? with
    | some items => mediaIssuesFrom source 0 items
    | none => [wrongKind "$.media" "array" media]

/-- The problems of the entry `request`. -/
def requestIssues (request : Value) : Option Value → List Issue
  | none => [⟨"$.request", "Required"⟩]
  | some found =>
    if found.asMap?.isNone then [wrongKind "$.request" "object" found]
    else if found.toJson == request.toJson then []
    else
      [⟨"$.request",
        "Does not match the request the page was generated for (expected " ++ request.display ++ ", received " ++
          found.display ++ ")"⟩]

/-- The problems of a body. -/
def issues (request : Value) (source : String) (body : Value) : List Issue :=
  if body.asMap?.isNone then [wrongKind "$" "object" body]
  else mediaIssues source (body.get? "media") ++ requestIssues request (body.get? "request")

/-- Passes, unless there are issues. -/
def refuse (headline : String) : List Issue → Except ValidationError Unit
  | [] => .ok ()
  | found => .error ⟨headline, found⟩

/-- Checks a body against the request that it answers and the source that was queried. -/
def check (request : Value) (source : String) : Validator := fun body =>
  refuse "Response is invalid" (issues request source body)

theorem refuse_eq_ok_iff {headline : String} {found : List Issue} : refuse headline found = .ok () ↔ found = [] := by
  cases found <;> simp [refuse]

/-- A body passes exactly if it has no issue. -/
theorem check_eq_ok_iff {request : Value} {source : String} {body : Value} :
    check request source body = .ok () ↔ issues request source body = [] := refuse_eq_ok_iff

end Validation

end MediaQuery
