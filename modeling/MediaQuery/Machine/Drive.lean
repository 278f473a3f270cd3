import MediaQuery.Machine.Progress

/-!
# Running a program to its end

`Machine.run` starts a program and takes turns until the program is done. There is no result if it waits for
something that can no longer happen. Futures that still run then stay in the machine and go on while a later
program waits.
-/

namespace MediaQuery.Machine

/-- Takes turns until the main program is done or there is no turn left. -/
def drive {α : Type} (main : Run α) (m : Machine) : Option α × Machine :=
  match main.result? with
  | some a => (some a, m)
  | none =>
    match _h : turn main m with
    | some (main', m') => drive main' m'
    | none => (none, m)
termination_by (wellFounded_lt_tokens.wrap (main.tokens ++ m.tokens))
decreasing_by exact turn_lt ‹_›

/-- Runs a program on the first branch of the machine. -/
def run {α : Type} (p : Prog α) (m : Machine) : Option α × Machine :=
  let (main, m) := p.start [] m
  drive main m

end MediaQuery.Machine
