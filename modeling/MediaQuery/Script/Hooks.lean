import MediaQuery.Hook

/-!
# Ready-made hooks

Hooks that change the text of what goes in or comes out, that answer or fail on their own, or that take their
time.
-/

namespace MediaQuery.Script.Hook

open MediaQuery.Hook

/-- Goes on with the value that comes back; a failure stays one. -/
def onAnswer (next : Value → Rest) : Except EvalError Value → Rest
  | .ok v => next v
  | .error e => .fail e

/-- Hands on the input and passes back what comes. -/
def pass (input : Value) : Plan := .ask input (onAnswer .answer)

/-- Marks what goes in and what comes out. -/
def wrap (mark : String) : Hook := fun input =>
  .ask (.string (input.display ++ ">" ++ mark)) (onAnswer fun v => .answer (.string (v.display ++ "<" ++ mark)))

/-- Puts a text before what goes in. -/
def before (text : String) : Hook := fun input => pass (.string (text ++ input.display))

/-- Puts a text behind what comes out. -/
def after (text : String) : Hook := fun input =>
  .ask input (onAnswer fun v => .answer (.string (v.display ++ text)))

/-- Answers a value. -/
def constant (v : Value) : Hook := fun _ => .answer v

/-- Fails. -/
def fail (text : String) : Hook := fun _ => .fail (.action text [])

/-- Fails when an answer has come. -/
def failAfter (text : String) : Hook := fun input => .ask input (onAnswer fun _ => .fail (.action text []))

/-- Takes its time before it hands on the input. -/
def sleep (ms : Nat) : Hook := fun input => .sleep ms (pass input)

/-- Answers null for a failure. -/
def recover : Hook := fun input =>
  .ask input fun
    | .ok v => .answer v
    | .error _ => .answer .null

end MediaQuery.Script.Hook
