import MediaQuery.Program.Basic

/-!
# What programs can do with a branch

The operations of `MediaQuery.Op` and the pauses of `MediaQuery.Prog` as programs of their own, and what is put
together from them: running hooks, and running programs side by side.
-/

namespace MediaQuery

namespace Prog

variable {α β : Type}

/-! ## Values -/

/-- The value of a key; one that is still resolving cannot be read yet. -/
def get (branch : Route) (key : String) : Prog (Except ContextError Value) := perform (.get branch key)

/-- The value of a key, waiting for one that is still resolving. -/
def getResolved (branch : Route) (key : String) : Prog (Except ContextError Value) := .resolve branch key .done

/-- The current value. -/
def current (branch : Route) : Prog (Except ContextError Value) := get branch currentKey

/-- Whether a key is set. -/
def has (branch : Route) (key : String) : Prog Bool := perform (.has branch key)

/-- Every value that is there, sorted by key. -/
def getAll (branch : Route) : Prog (List (String × Value)) := perform (.getAll branch)

/-- Sets a key. -/
def set (branch : Route) (key : String) (value : Value) : Prog Unit := perform (.set branch key value)

/-- Sets several keys in order. -/
def setAll (branch : Route) : List (String × Value) → Prog Unit
  | [] => pure ()
  | (key, value) :: rest => do
    set branch key value
    setAll branch rest

/-- Stores a value that is still to be computed. -/
def setFuture (branch : Route) (key : String) (future : Prog (Except EvalError Value)) : Prog Unit :=
  .spawn branch key future (.done ())

/-- Waits for every value stored with `setFuture`, and then for those the branch inherited. The first failure in
the order of their start is the result. -/
def waitForPending (branch : Route) : Prog (Except EvalError Unit) :=
  .settle branch fun r => .done (r.mapError (·.under branch))

/-! ## Results, forks, log -/

/-- Adds to the results of the branch. -/
def record (branch : Route) (result : Option Value) : Prog Unit := perform (.record branch result)

/-- All results of the branch, oldest first. -/
def history (branch : Route) : Prog (List (Option Value)) := perform (.history branch)

/-- The newest result; none also if it is "no result". -/
def lastResult (branch : Route) : Prog (Option Value) := do
  return ((← history branch).getLast?).join

/-- Makes a fork and answers the route to it. -/
def fork (branch : Route) (options : ForkOptions) : Prog Route := do
  return branch ++ [← perform (.fork branch options)]

/-- The path of the branch. -/
def path (branch : Route) : Prog Path := perform (.path branch)

/-- Adds an entry to the execution log. -/
def enter (branch : Route) (p : Path) : Prog Unit := perform (.enter branch p)

/-- The entries of the execution log. -/
def log (branch : Route) : Prog (List Path) := perform (.log branch)

/-- What the query is run with. -/
def inputs (branch : Route) : Prog Inputs := perform (.inputs branch)

/-- Starts a nested query and answers the route to its first branch. -/
def openSession (branch : Route) (session : Inputs) : Prog Route := do
  return branch ++ [← perform (.openSession branch session)]

/-- A pause. -/
def pause (ms : Nat) : Prog Unit := .sleep ms (.done ())

/-- Runs programs side by side; the values come in the order of the programs. -/
def parallel (parts : List (Prog (Except ExecutionError β))) : Prog (Except ExecutionError (List β)) :=
  .all parts.get .done

/-! ## Failures -/

/-- Runs a program on a branch; its failure leaves the branch as an execution error. -/
def wrapping (branch : Route) (p : Path) (prog : Prog (Except EvalError α)) : Prog (Except ExecutionError α) := do
  match ← prog with
  | .ok a => return .ok a
  | .error e => return .error (e.wrap p (← log branch) branch)

end Prog

/-! ## Hooks -/

/-- The program of a hook that has its answer from the rest of its chain. -/
def Hook.Rest.prog : Hook.Rest → Prog (Except EvalError Value)
  | .answer value => .done (.ok value)
  | .fail e => .done (.error e)
  | .sleep ms next => .sleep ms next.prog

/-- The program of a hook in front of the given rest of its chain. -/
def Hook.Plan.prog (rest : Value → Prog (Except EvalError Value)) : Hook.Plan → Prog (Except EvalError Value)
  | .answer value => .done (.ok value)
  | .fail e => .done (.error e)
  | .sleep ms next => .sleep ms (next.prog rest)
  | .ask input next => (rest input).bind fun r => (next r).prog

/-- The program of a chain of hooks in front of something else. -/
def Hook.runBefore (last : Value → Prog (Except EvalError Value)) :
    List Hook → Value → Prog (Except EvalError Value)
  | [], input => last input
  | hook :: rest, input => (hook input).prog (Hook.runBefore last rest)

/-- The program of a chain of hooks; at its end the input comes back. -/
def Hook.runChain (chain : List Hook) (input : Value) : Prog (Except EvalError Value) :=
  Hook.runBefore (fun value => .done (.ok value)) chain input

/-- Runs the chain of a name. -/
def Hooks.execute (hooks : Hooks) (name : String) (input : Value) : Prog (Except EvalError Value) :=
  Hook.runChain (hooks.chain name) input

/-- Runs the chain of a name of the query that a branch belongs to. -/
def Prog.runHook (branch : Route) (name : String) (input : Value) : Prog (Except EvalError Value) := do
  (← Prog.inputs branch).hooks.execute name input

end MediaQuery
