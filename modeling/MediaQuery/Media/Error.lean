import MediaQuery.Error

/-!
# What can be wrong with a medium

Failures of what actions use to describe media, with their wording, and how they appear as failures of an action.
-/

namespace MediaQuery

/-- Failures in the description of a medium. -/
inductive MediaError where
  | invalidDuration (text : String)
  | unknownFileType (url : String) (extension? mimeType? : Option String)
  | invalidMediaType (mimeType : String)
  deriving DecidableEq, Repr, Inhabited

namespace MediaError

/-- The wording of a failure. -/
def message : MediaError → String
  | .invalidDuration text => "The value \"" ++ text ++ "\" is not a valid duration string"
  | .unknownFileType url extension? mimeType? =>
    "Couldn't derive file type of " ++ url ++ " (ext: " ++ Text.showOption Text.quote extension? ++ ", mimeType: " ++
      Text.showOption Text.quote mimeType? ++ ")"
  | .invalidMediaType mimeType => "Resource does not appear to be media: " ++ mimeType

/-- The failure of an action that is caused by this one. -/
def toEvalError (e : MediaError) : EvalError := .action e.message [e.message]

end MediaError

end MediaQuery
