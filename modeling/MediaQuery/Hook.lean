import MediaQuery.Error
import MediaQuery.Value.Json

/-!
# Hooks

A hook stands around a step that others may change, such as the loading of an address. It is given an input and
may answer, fail, take its time, or hand an input of its choice to the rest of its chain and go on with what
comes back. The rest of a chain can be asked once: a `Hook.Plan` ends where it asks, and the `Hook.Rest` that
follows cannot ask again.
-/

namespace MediaQuery

namespace Hook

/-- What a hook does once the rest of its chain has answered. -/
inductive Rest where
  | answer (value : Value)
  | fail (e : EvalError)
  | sleep (ms : Nat) (next : Rest)
  deriving Inhabited

/-- What a hook does with its input. -/
inductive Plan where
  | answer (value : Value)
  | fail (e : EvalError)
  | sleep (ms : Nat) (next : Plan)
  | ask (input : Value) (next : Except EvalError Value → Rest)
  deriving Inhabited

end Hook

/-- A hook: its plan for every input. -/
abbrev Hook := Value → Hook.Plan

/-- Chains of hooks by name. -/
structure Hooks where
  chains : List (String × List Hook)
  deriving Inhabited

namespace Hooks

/-- No hooks. -/
def empty : Hooks := ⟨[]⟩

/-- The chain of a name; a name without hooks has the empty chain. -/
def chain (hooks : Hooks) (name : String) : List Hook := (hooks.chains.lookup name).getD []

/-- Adds a hook at the end of a chain. -/
def register (hooks : Hooks) (name : String) (hook : Hook) : Hooks :=
  ⟨Fields.put name (hooks.chain name ++ [hook]) hooks.chains⟩

/-- The number of hooks in a chain. -/
def count (hooks : Hooks) (name : String) : Nat := (hooks.chain name).length

/-- The chains with their numbers of hooks, for diagnostics. -/
def describe (hooks : Hooks) : String :=
  "Hooks \x7b chains: " ++
    Text.bracketed (hooks.chains.map fun e => "(" ++ Text.quote e.1 ++ ", " ++ toString e.2.length ++ ")") ++ " \x7d"

/-- Registration lengthens its own chain and leaves the others alone. -/
theorem chain_register (hooks : Hooks) (name n : String) (hook : Hook) :
    (hooks.register name hook).chain n = if n = name then hooks.chain name ++ [hook] else hooks.chain n := by
  unfold register chain
  rw [Fields.lookup_put]
  by_cases h : n = name <;> simp [h]

end Hooks

end MediaQuery
