import MediaQuery.Program.Context

/-!
# Actions

An action is a program that runs on a fresh fork. It may answer a value, nothing, or a branch to go on with, such
as the end of a chain of actions. `executeAction` records what it answers, sees to it that everything it started
has come to an end, and reports a failure at the path of the fork; `chain` runs actions one after another, each
on a fork of the branch before.
-/

namespace MediaQuery

/-- What an action answers. -/
inductive Output where
  /-- A value, shown as text if it is a selection. -/
  | value (v : Value)
  /-- A value to be kept as it is. -/
  | raw (v : Value)
  /-- A branch to go on with. -/
  | context (branch : Route)
  | undefined
  deriving Inhabited

/-- A program that runs on a fork of its own. -/
abbrev Action := Prog (Except EvalError Output)

/-- A program that may fail, run on a branch further down. -/
def Prog.on {α : Type} (branch : Route) (p : Prog (Except EvalError α)) : Prog (Except EvalError α) := do
  return (← p.under branch).mapError (·.under branch)

/-- What has become of an action. -/
structure Completed where
  /-- The fork it ran on, or the branch it handed back. -/
  branch : Route
  /-- What it answered; the current value of a branch that it handed back. -/
  value : Option Value
  raw : Bool
  deriving Inhabited

/-- Waits for everything started on the action's fork and then on the branch it handed back. -/
def finishAction (own : Route) (path : Path) (completed : Completed) : Prog (Except ExecutionError Completed) :=
  ExceptT.run do
    ExceptT.mk (Prog.wrapping own path (Prog.waitForPending own))
    ExceptT.mk (Prog.wrapping completed.branch path (Prog.waitForPending completed.branch))
    return completed

/-- Keeps what an action has answered. -/
def keepOutput (own : Route) : Output → Prog Completed
  | .value v => do
    Prog.record own (some v)
    Prog.set own currentKey v
    return ⟨own, some v, false⟩
  | .raw v => do
    Prog.record own (some v)
    Prog.set own currentKey v
    return ⟨own, some v, true⟩
  | .context route => do
    let branch := own ++ route
    Prog.record branch none
    return ⟨branch, (← Prog.current branch).toOption, false⟩
  | .undefined => do
    Prog.record own none
    return ⟨own, none, false⟩

/-- Runs an action on a fork of a branch. -/
def executeAction (action : Action) (branch : Route) (path : Path) : Prog (Except ExecutionError Completed) :=
  ExceptT.run do
    ExceptT.lift (Prog.enter branch path)
    let own ← ExceptT.lift (Prog.fork branch (.place path))
    let output ← ExceptT.mk (Prog.wrapping own path (action.on own))
    let completed ← ExceptT.lift (keepOutput own output)
    ExceptT.mk (finishAction own path completed)

/-- Runs actions in order, each on a fork of the branch before; the first one is the given step. -/
def executeActions : List Action → Route → Path → (step : Nat) → Prog (Except ExecutionError Route)
  | [], branch, _, _ => return .ok branch
  | action :: rest, branch, path, step => ExceptT.run do
    let completed ← ExceptT.mk (executeAction action branch (path.withStep step))
    ExceptT.mk (executeActions rest completed.branch path (step + 1))

/-- Runs actions in order from a branch whose values have come to an end. -/
def chain (actions : List Action) (branch : Route) : Prog (Except EvalError Route) := ExceptT.run do
  ExceptT.mk (Prog.waitForPending branch)
  let path ← ExceptT.lift (Prog.path branch)
  ExceptT.adapt EvalError.nested (ExceptT.mk (executeActions actions branch path 1))

end MediaQuery
