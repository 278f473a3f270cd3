import MediaQuery.Error

/-!
# Errors that are alike

A failure carries the execution log as it was, which the branches of a query share. Two failures are alike where
nothing but their logs differs and one is what the other looks like from further up (`EvalError.Like`,
`ExecutionError.Like`). Failures that are alike have the same wording, and stay alike when they are wrapped or seen
from further up still.
-/

namespace MediaQuery

mutual

/-- The failure without the logs in it. -/
def EvalError.unlogged : EvalError → EvalError
  | .request e => .request e.unlogged
  | .nested e => .nested e.unlogged
  | e => e

/-- The failure without the logs in it. -/
def ExecutionError.unlogged : ExecutionError → ExecutionError
  | .failed headline path cause _ branch => .failed headline path cause.unlogged [] branch

/-- The failure without the logs in it. -/
def Error.unlogged : Error → Error
  | .execution e => .execution e.unlogged
  | e => e

end

/-! ## Seen from further up -/

mutual

theorem EvalError.unlogged_under (route : Route) (e : EvalError) :
    (e.under route).unlogged = e.unlogged.under route := by
  cases e with
  | request e => exact congrArg EvalError.request (Error.unlogged_under route e)
  | nested e => exact congrArg EvalError.nested (ExecutionError.unlogged_under route e)
  | _ => rfl

theorem ExecutionError.unlogged_under (route : Route) (e : ExecutionError) :
    (e.under route).unlogged = e.unlogged.under route := by
  obtain ⟨headline, path, cause, log, branch⟩ := e
  exact congrArg (ExecutionError.failed headline path · [] (route ++ branch)) (EvalError.unlogged_under route cause)

theorem Error.unlogged_under (route : Route) (e : Error) : (e.under route).unlogged = e.unlogged.under route := by
  cases e with
  | execution e => exact congrArg Error.execution (ExecutionError.unlogged_under route e)
  | _ => rfl

end

mutual

/-- Two ways up, one after the other. -/
theorem EvalError.under_under (lower upper : Route) (e : EvalError) :
    (e.under lower).under upper = e.under (upper ++ lower) := by
  cases e with
  | request e => exact congrArg EvalError.request (Error.under_under lower upper e)
  | nested e => exact congrArg EvalError.nested (ExecutionError.under_under lower upper e)
  | _ => rfl

theorem ExecutionError.under_under (lower upper : Route) (e : ExecutionError) :
    (e.under lower).under upper = e.under (upper ++ lower) := by
  obtain ⟨headline, path, cause, log, branch⟩ := e
  simp only [ExecutionError.under, EvalError.under_under lower upper cause, List.append_assoc]

theorem Error.under_under (lower upper : Route) (e : Error) :
    (e.under lower).under upper = e.under (upper ++ lower) := by
  cases e with
  | execution e => exact congrArg Error.execution (ExecutionError.under_under lower upper e)
  | _ => rfl

end

mutual

/-- A failure as seen from where it is. -/
theorem EvalError.under_nil (e : EvalError) : e.under [] = e := by
  cases e with
  | request e => exact congrArg EvalError.request (Error.under_nil e)
  | nested e => exact congrArg EvalError.nested (ExecutionError.under_nil e)
  | _ => rfl

theorem ExecutionError.under_nil (e : ExecutionError) : e.under [] = e := by
  obtain ⟨headline, path, cause, log, branch⟩ := e
  exact congrArg (ExecutionError.failed headline path · log branch) (EvalError.under_nil cause)

theorem Error.under_nil (e : Error) : e.under [] = e := by
  cases e with
  | execution e => exact congrArg Error.execution (ExecutionError.under_nil e)
  | _ => rfl

end

/-! ## Wording -/

theorem ExecutionError.message_unlogged (e : ExecutionError) : e.unlogged.message = e.message := by
  cases e
  rfl

theorem ExecutionError.message_under (route : Route) (e : ExecutionError) : (e.under route).message = e.message := by
  cases e
  rfl

/-- The wording does not depend on the logs. -/
theorem EvalError.message_unlogged (e : EvalError) : e.unlogged.message = e.message := by
  cases e with
  | request e =>
    cases e with
    | execution e => exact congrArg ("Nested request failed: " ++ ·) e.message_unlogged
    | _ => rfl
  | nested e => exact e.message_unlogged
  | _ => rfl

/-- The wording does not depend on where the failure is seen from. -/
theorem EvalError.message_under (route : Route) (e : EvalError) : (e.under route).message = e.message := by
  cases e with
  | request e =>
    cases e with
    | execution e => exact congrArg ("Nested request failed: " ++ ·) (e.message_under route)
    | _ => rfl
  | nested e => exact e.message_under route
  | _ => rfl

/-! ## Likeness -/

/-- But for the logs, the first failure is what the second looks like from further up. -/
def EvalError.Like (route : Route) (e e' : EvalError) : Prop := e.unlogged = e'.unlogged.under route

/-- But for the logs, the first failure is what the second looks like from further up. -/
def ExecutionError.Like (route : Route) (e e' : ExecutionError) : Prop := e.unlogged = e'.unlogged.under route

variable {route : Route}

theorem EvalError.like_refl (e : EvalError) : e.Like [] e := e.unlogged.under_nil.symm

/-- Failures that are alike have the same wording. -/
theorem EvalError.Like.message_eq {e e' : EvalError} (h : e.Like route e') : e.message = e'.message := by
  rw [← e.message_unlogged, show e.unlogged = _ from h, EvalError.message_under, EvalError.message_unlogged]

/-- Failures that are alike are alike from further up. -/
theorem EvalError.Like.under {e e' : EvalError} {upper lower upper' : Route} (h : e.Like route e')
    (hr : upper ++ route = upper' ++ lower) : (e.under upper).Like upper' (e'.under lower) := by
  unfold EvalError.Like
  rw [unlogged_under, unlogged_under, show e.unlogged = _ from h, under_under, under_under, hr]

/-- Failures that are alike are alike when they leave their branches. -/
theorem EvalError.Like.wrap {e e' : EvalError} (h : e.Like route e') (path : Path) (log log' : List Path)
    (branch : Route) : (e.wrap path log (route ++ branch)).Like route (e'.wrap path log' branch) := by
  have hmessage := h.message_eq
  have hfailed (c c' : EvalError) (hc : c.Like route c') (hm : c.message = c'.message) :
      (ExecutionError.failed c.message path c log (route ++ branch)).Like route
        (.failed c'.message path c' log' branch) := by
    unfold ExecutionError.Like
    rw [hm, ExecutionError.unlogged, show c.unlogged = _ from hc]
    rfl
  cases e with
  | nested e =>
    cases e' with
    | nested e' => exact EvalError.nested.inj h
    | _ => cases h
  | _ =>
    cases e' with
    | nested e' => cases h
    | _ => exact hfailed _ _ h hmessage

theorem EvalError.Like.nested {e e' : ExecutionError} (h : e.Like route e') :
    (EvalError.nested e).Like route (.nested e') := congrArg EvalError.nested h

/-! ## What failures that are alike have in common -/

mutual

/-- The failure without the logs and the branches in it. -/
def EvalError.bare : EvalError → EvalError
  | .request e => .request e.bare
  | .nested e => .nested e.bare
  | e => e

/-- The failure without the logs and the branches in it. -/
def ExecutionError.bare : ExecutionError → ExecutionError
  | .failed headline path cause _ _ => .failed headline path cause.bare [] []

/-- The failure without the logs and the branches in it. -/
def Error.bare : Error → Error
  | .execution e => .execution e.bare
  | e => e

end

mutual

theorem EvalError.bare_unlogged (e : EvalError) : e.unlogged.bare = e.bare := by
  cases e with
  | request e => exact congrArg EvalError.request (Error.bare_unlogged e)
  | nested e => exact congrArg EvalError.nested (ExecutionError.bare_unlogged e)
  | _ => rfl

theorem ExecutionError.bare_unlogged (e : ExecutionError) : e.unlogged.bare = e.bare := by
  obtain ⟨headline, path, cause, log, branch⟩ := e
  exact congrArg (ExecutionError.failed headline path · [] []) (EvalError.bare_unlogged cause)

theorem Error.bare_unlogged (e : Error) : e.unlogged.bare = e.bare := by
  cases e with
  | execution e => exact congrArg Error.execution (ExecutionError.bare_unlogged e)
  | _ => rfl

end

mutual

theorem EvalError.bare_under (route : Route) (e : EvalError) : (e.under route).bare = e.bare := by
  cases e with
  | request e => exact congrArg EvalError.request (Error.bare_under route e)
  | nested e => exact congrArg EvalError.nested (ExecutionError.bare_under route e)
  | _ => rfl

theorem ExecutionError.bare_under (route : Route) (e : ExecutionError) : (e.under route).bare = e.bare := by
  obtain ⟨headline, path, cause, log, branch⟩ := e
  exact congrArg (ExecutionError.failed headline path · [] []) (EvalError.bare_under route cause)

theorem Error.bare_under (route : Route) (e : Error) : (e.under route).bare = e.bare := by
  cases e with
  | execution e => exact congrArg Error.execution (ExecutionError.bare_under route e)
  | _ => rfl

end

/-- The failures are the same but for the logs and the branches in them. -/
def ExecutionError.SameBare (e e' : ExecutionError) : Prop := e.bare = e'.bare

/-- Failures that are alike are the same but for the logs and the branches in them. -/
theorem ExecutionError.Like.sameBare {e e' : ExecutionError} (h : e.Like route e') : e.SameBare e' := by
  unfold SameBare
  rw [← e.bare_unlogged, show e.unlogged = _ from h, bare_under, bare_unlogged]

end MediaQuery
