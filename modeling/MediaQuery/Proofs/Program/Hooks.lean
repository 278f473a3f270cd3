import MediaQuery.Proofs.Program.Calm
import MediaQuery.Proofs.Program.Uses

/-!
# What hooks do to a branch

A chain of hooks takes its time and comes to an end, and that is all (`pauses_runChain`). So to run the hooks of a query
is calm (`calm_runHook`), does not depend on the log (`alike_runHook`), and uses only the branch that asks for it
(`uses_runHook`).
-/

namespace MediaQuery

namespace Prog

variable {α β : Type}

/-- A program that does nothing but pause. -/
inductive Pauses : Prog α → Prop
  | done (a : α) : Pauses (.done a)
  | sleep (ms : Nat) {p : Prog α} (h : Pauses p) : Pauses (.sleep ms p)

variable {p : Prog α}

theorem Pauses.bind {k : α → Prog β} (h : p.Pauses) (hk : ∀ a, (k a).Pauses) : (p.bind k).Pauses := by
  induction h with
  | done a => exact hk a
  | sleep ms _ ih => exact .sleep ms ih

theorem Pauses.calm (h : p.Pauses) : p.Calm := by
  induction h with
  | done a => trivial
  | sleep ms _ ih => exact ih

theorem Pauses.alike (h : p.Pauses) (route : Route) : Alike route Eq p p := by
  induction h with
  | done a => exact .done rfl
  | sleep ms _ ih => exact .sleep ms ih

theorem Pauses.uses (h : p.Pauses) (T : Route → Prop) (base : Route) : p.Uses T base fun _ => True := by
  induction h with
  | done a => exact .done trivial
  | sleep ms _ ih => exact .sleep ih

end Prog

open Prog

/-! ## Chains -/

theorem Hook.Rest.pauses (rest : Hook.Rest) : rest.prog.Pauses := by
  induction rest with
  | answer value => exact .done _
  | fail e => exact .done _
  | sleep ms next ih => exact .sleep ms ih

/-- A hook pauses if the rest of its chain does. -/
theorem Hook.Plan.pauses (plan : Hook.Plan) {rest : Value → Prog (Except EvalError Value)}
    (hrest : ∀ input, (rest input).Pauses) : (plan.prog rest).Pauses := by
  induction plan with
  | answer value => exact .done _
  | fail e => exact .done _
  | sleep ms next ih => exact .sleep ms ih
  | ask input next => exact (hrest input).bind fun r => (next r).pauses

theorem pauses_runChain (chain : List Hook) (input : Value) : (Hook.runChain chain input).Pauses := by
  unfold Hook.runChain
  induction chain generalizing input with
  | nil => exact .done _
  | cons hook rest ih => exact (hook input).pauses ih

/-! ## The hooks of a query -/

variable (name : String) (input : Value)

theorem calm_runHook (branch : Route) : (runHook branch name input).Calm :=
  fun inputs => (pauses_runChain (inputs.hooks.chain name) input).calm

theorem alike_runHook (route branch : Route) :
    Alike route Eq (runHook (route ++ branch) name input) (runHook branch name input) :=
  .operate (.inputs branch) rfl fun inputs => (pauses_runChain (inputs.hooks.chain name) input).alike route

theorem uses_runHook {T : Route → Prop} {base branch : Route} (hb : T (base ++ branch)) :
    (runHook branch name input).Uses T base fun _ => True :=
  .operate (.inputs branch) hb fun inputs _ => (pauses_runChain (inputs.hooks.chain name) input).uses T base

end MediaQuery
