import MediaQuery.Branch.Tree

/-!
# Programs

A program is what an action does, as data: a tree of operations on branches, with one subtree for every reply.
It names branches by routes that start at its own branch, so a program can reach its own branch and those forked
from it and no others; `Prog.under` runs a program on a branch further down.

Besides the operations that take no time (`Op`) a program may sleep, store a value that is still being computed
(`spawn`), wait for one such value (`resolve`) or for all of a branch (`settle`), and run several programs side
by side (`all`).
-/

namespace MediaQuery

/-- Operations that take no time, with their replies. -/
inductive Op : Type → Type
  /-- The value of a key. -/
  | get (branch : Route) (key : String) : Op (Except ContextError Value)
  /-- Whether a key is set. -/
  | has (branch : Route) (key : String) : Op Bool
  /-- Every value that is there, sorted by key. -/
  | getAll (branch : Route) : Op (List (String × Value))
  /-- Sets a key. -/
  | set (branch : Route) (key : String) (value : Value) : Op Unit
  /-- Adds to the results of the branch; none is "no result". -/
  | record (branch : Route) (result : Option Value) : Op Unit
  /-- All results of the branch, oldest first. -/
  | history (branch : Route) : Op (List (Option Value))
  /-- Makes a branch below this one and answers its position. -/
  | fork (branch : Route) (options : ForkOptions) : Op Nat
  /-- The path of the branch. -/
  | path (branch : Route) : Op Path
  /-- Adds an entry to the execution log. -/
  | enter (branch : Route) (path : Path) : Op Unit
  /-- The entries of the execution log. -/
  | log (branch : Route) : Op (List Path)
  /-- What the query is run with. -/
  | inputs (branch : Route) : Op Inputs
  /-- Starts another query below this branch and answers the position of its first branch. -/
  | openSession (branch : Route) (inputs : Inputs) : Op Nat

/-- The operation on a branch further down. -/
def Op.under (route : Route) : Op α → Op α
  | .get branch key => .get (route ++ branch) key
  | .has branch key => .has (route ++ branch) key
  | .getAll branch => .getAll (route ++ branch)
  | .set branch key value => .set (route ++ branch) key value
  | .record branch result => .record (route ++ branch) result
  | .history branch => .history (route ++ branch)
  | .fork branch options => .fork (route ++ branch) options
  | .path branch => .path (route ++ branch)
  | .enter branch p => .enter (route ++ branch) p
  | .log branch => .log (route ++ branch)
  | .inputs branch => .inputs (route ++ branch)
  | .openSession branch session => .openSession (route ++ branch) session

/-- Programs by the type of what they compute. -/
inductive Prog : Type → Type 1
  | done {α : Type} (a : α) : Prog α
  /-- An operation that takes no time. -/
  | act {α β : Type} (op : Op β) (next : β → Prog α) : Prog α
  /-- A pause. -/
  | sleep {α : Type} (ms : Nat) (next : Prog α) : Prog α
  /-- Stores a value that another program is to compute; that program belongs to the branch that holds the
  value. -/
  | spawn {α : Type} (branch : Route) (key : String) (future : Prog (Except EvalError Value)) (next : Prog α) : Prog α
  /-- Waits for the value of one key. -/
  | resolve {α : Type} (branch : Route) (key : String) (next : Except ContextError Value → Prog α) : Prog α
  /-- Waits for every value of a branch. Errors are as seen from that branch. -/
  | settle {α : Type} (branch : Route) (next : Except EvalError Unit → Prog α) : Prog α
  /-- Runs programs side by side, until all have succeeded or one has failed. -/
  | all {α β : Type} {n : Nat} (parts : Fin n → Prog (Except ExecutionError β))
      (next : Except ExecutionError (List β) → Prog α) : Prog α

namespace Prog

variable {α β γ : Type}

instance [Inhabited α] : Inhabited (Prog α) := ⟨.done default⟩

/-- One program after another. -/
def bind : Prog α → (α → Prog β) → Prog β
  | .done a, k => k a
  | .act op next, k => .act op fun b => (next b).bind k
  | .sleep ms next, k => .sleep ms (next.bind k)
  | .spawn branch key future next, k => .spawn branch key future (next.bind k)
  | .resolve branch key next, k => .resolve branch key fun r => (next r).bind k
  | .settle branch next, k => .settle branch fun r => (next r).bind k
  | .all parts next, k => .all parts fun r => (next r).bind k

instance : Monad Prog where
  pure := .done
  bind := .bind

/-- The program of one operation. -/
def perform (op : Op α) : Prog α := .act op .done

/-- The program on a branch further down. Its results are still as seen from there. -/
def under (route : Route) : {α : Type} → Prog α → Prog α
  | _, .done a => .done a
  | _, .act op next => .act (op.under route) fun b => (next b).under route
  | _, .sleep ms next => .sleep ms (next.under route)
  | _, .spawn branch key future next => .spawn (route ++ branch) key future (next.under route)
  | _, .resolve branch key next => .resolve (route ++ branch) key fun r => (next r).under route
  | _, .settle branch next => .settle (route ++ branch) fun r => (next r).under route
  | _, .all parts next => .all (fun i => (parts i).under route) fun r => (next r).under route

/-! ## Laws of sequencing -/

theorem bind_done (p : Prog α) : p.bind .done = p := by
  induction p with
  | done a => rfl
  | act op next ih => exact congrArg (Prog.act op) (funext ih)
  | sleep ms next ih => exact congrArg (Prog.sleep ms) ih
  | spawn branch key future next _ ih => exact congrArg (Prog.spawn branch key future) ih
  | resolve branch key next ih => exact congrArg (Prog.resolve branch key) (funext ih)
  | settle branch next ih => exact congrArg (Prog.settle branch) (funext ih)
  | all parts next _ ih => exact congrArg (Prog.all parts) (funext ih)

theorem bind_assoc (p : Prog α) (f : α → Prog β) (g : β → Prog γ) :
    (p.bind f).bind g = p.bind fun a => (f a).bind g := by
  induction p with
  | done a => rfl
  | act op next ih => exact congrArg (Prog.act op) (funext fun b => ih b f)
  | sleep ms next ih => exact congrArg (Prog.sleep ms) (ih f)
  | spawn branch key future next _ ih => exact congrArg (Prog.spawn branch key future) (ih f)
  | resolve branch key next ih => exact congrArg (Prog.resolve branch key) (funext fun r => ih r f)
  | settle branch next ih => exact congrArg (Prog.settle branch) (funext fun r => ih r f)
  | all parts next _ ih => exact congrArg (Prog.all parts) (funext fun r => ih r f)

instance : LawfulMonad Prog := LawfulMonad.mk' _ bind_done (fun _ _ => rfl) bind_assoc

theorem bind_eq_bind (p : Prog α) (f : α → Prog β) : p >>= f = p.bind f := rfl

end Prog

end MediaQuery
