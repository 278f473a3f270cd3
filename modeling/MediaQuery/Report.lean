import MediaQuery.Error

/-!
# Reports of failures

`ExecutionError.describe` draws the way from the root of the template to the branch that failed, lists the chain
of causes and ends with the newest entries of the execution log.
-/

namespace MediaQuery

mutual

/-- The messages of what is behind a failure, nearest first. -/
def EvalError.causes : EvalError → List String
  | .action _ causes => causes
  | .request e => e.message :: e.causes
  | .nested e => e.causes
  | _ => []

/-- The messages of what is behind a wrapped failure, its own cause first. -/
def ExecutionError.causes : ExecutionError → List String
  | .failed _ _ cause _ _ => cause.message :: cause.causes

/-- The messages of what is behind a query's failure, nearest first. -/
def Error.causes : Error → List String
  | .execution e => e.message :: e.causes
  | .validation e => [e.message]
  | .pagination e => [e.message]
  | .context e => [e.message]
  | .internal _ => []

end

/-- A list with equal neighbours merged. -/
def mergeRuns : List String → List String
  | a :: b :: rest => if a = b then mergeRuns (b :: rest) else a :: mergeRuns (b :: rest)
  | short => short

namespace Report

/-- How a segment is shown in the tree. -/
def label : Segment → String
  | .key name => name
  | .index i => "[" ++ toString i ++ "]"

/-- What the node of the failing branch is marked with. -/
def mark (step : Option Nat) : String :=
  "  <-- failed here" ++
    match step with
    | some n => " (chain step " ++ toString n ++ ")"
    | none => ""

/-- The nodes of the tree below the root, from the given depth on, each indented by four blanks more than the one
before; the last one is marked. -/
def nodes (step : Option Nat) (depth : Nat) : List Segment → List String
  | [] => []
  | s :: rest =>
    let line := "  " ++ String.ofList (List.replicate (4 * depth) ' ') ++ "└── " ++ label s
    (if rest.isEmpty then line ++ mark step else line) :: nodes step (depth + 1) rest

/-- The lines of the list of causes, numbered from the given number on. -/
def numbered (i : Nat) : List String → List String
  | [] => []
  | cause :: rest => ("    " ++ toString i ++ ": " ++ cause) :: numbered (i + 1) rest

/-- How many entries of the log a report shows. -/
def logTail : Nat := 20

/-- The lines about the causes. -/
def causeLines (causes : List String) : List String :=
  if causes.isEmpty then [] else ["", "  Caused by:"] ++ numbered 0 causes

/-- The lines about the log: its newest entries, in order. -/
def logLines (log : List Path) : List String :=
  if log.isEmpty then []
  else
    let skipped := log.length - logTail
    let title :=
      if 0 < skipped then
        "  Execution log (last " ++ toString logTail ++ " of " ++ toString log.length ++ " entries):"
      else "  Execution log:"
    ["", title] ++ (log.drop skipped).map fun p => "    " ++ logLine p

end Report

/-- The lines of a failure's report. -/
def ExecutionError.reportLines (e : ExecutionError) : List String :=
  [e.message, "  Error occurred at: " ++ e.path.render, "", "  $"] ++
    Report.nodes e.path.step 0 e.path.segments ++
    Report.causeLines (mergeRuns e.causes) ++
    Report.logLines e.log

/-- The report of a failure. -/
def ExecutionError.describe (e : ExecutionError) : String :=
  String.join (e.reportLines.map (· ++ "\n"))

end MediaQuery
