import MediaQuery.Script.Expr

/-!
# Steps and scripts

A step is a program that does something on its branch. A script takes steps in order and ends with what the
action answers.
-/

namespace MediaQuery.Script

/-- A program that does something, or fails. -/
abbrev Step := Prog (Except EvalError Unit)

/-- Steps in order, up to the first failure. -/
def inOrder : List Step → Step
  | [] => return .ok ()
  | step :: rest => ExceptT.run do
    ExceptT.mk step
    ExceptT.mk (inOrder rest)

/-- A step that cannot fail. -/
def doing (p : Prog Unit) : Step := do
  p
  return .ok ()

/-- Evaluates an expression and goes on with its result. -/
def withResult (a : Expr) (next : Option Value → Prog Unit) : Step := ExceptT.run do
  let x ← ExceptT.mk a
  ExceptT.lift (next x)

/-- Sets a key. -/
def set (key : String) (a : Expr) : Step := withResult a fun x => Prog.set [] key (valueOf x)

/-- Stores a value that is computed after a pause. -/
def setFuture (key : String) (ms : Nat) (a : Expr) : Step :=
  doing <| Prog.setFuture [] key do
    Prog.pause ms
    return (← a).map valueOf

/-- A pause. -/
def pause (ms : Nat) : Step := doing (Prog.pause ms)

/-- Evaluates an expression for what it does. -/
def evaluate (a : Expr) : Step := withResult a fun _ => return ()

/-- Adds to the results of the branch. -/
def recordResult (a : Expr) : Step := withResult a (Prog.record [])

/-- Waits for every value that is still being computed. -/
def settle : Step := Prog.waitForPending []

/-- Makes a fork. -/
def fork (options : ForkOptions) : Step := doing do
  let _ ← Prog.fork [] options
  return ()

/-! ## Answers -/

/-- Answers nothing. -/
def answerNothing : Action := return .ok .undefined

/-- Answers the result of an expression in the given way. -/
def answer (wrap : Value → Output) (a : Expr) : Action := do
  return (← a).map fun x => x.elim .undefined wrap

/-- Hands back its own branch. -/
def answerSelf : Action := return .ok (.context [])

/-- Hands back the branch at the end of a chain. -/
def answerChain (actions : List Action) : Action := do
  return (← chain actions []).map .context

/-- Hands back a fork on which steps were taken. -/
def answerFork (options : ForkOptions) (steps : List Step) : Action := ExceptT.run do
  let branch ← ExceptT.lift (Prog.fork [] options)
  ExceptT.mk ((inOrder steps).on branch)
  return .context branch

/-- An action that takes steps and then answers. -/
def script (steps : List Step) (answer : Action) : Action := ExceptT.run do
  ExceptT.mk (inOrder steps)
  ExceptT.mk answer

end MediaQuery.Script
