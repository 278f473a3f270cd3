import MediaQuery.Proofs.Machine.Sequence
import MediaQuery.Query

/-!
# The steps of a query

What a step of a query can do, all in one place (`Answers`): nothing once the walk is over, a refusal before any
page is made, the end of the budget, a page, or the failure of a page. A step that comes to its end does one of
these, and each of these is a step (`run_next_iff`). The page itself is the template of a plan and what is concluded
from it (`PageTask.run_of_plan`).
-/

namespace MediaQuery.PageTask

/-- What becomes of a page once its template has come to something. -/
def conclude (t : PageTask) (plan : ResponsePlan) : Except ExecutionError Value → Prog (Except Error Response)
  | .error e => .done (.error (.execution e))
  | .ok body => .done ((t.accept plan.validator body).bind fun _ => read body)

/-- A page with a plan opens a session for its template, and concludes from what that has come to. -/
theorem run_of_plan {t : PageTask} {plan : ResponsePlan} (branch : Route) (h : t.handler.planFor t.filledRequest = .ok plan) :
    t.run branch = .act (.openSession branch t.inputs) fun i =>
      (plan.template.evaluate (branch ++ [i])).bind (t.conclude plan) := by
  unfold run
  rw [h]
  refine congrArg (Prog.act (.openSession branch t.inputs)) (funext fun i => ?_)
  refine congrArg ((plan.template.evaluate (branch ++ [i])).bind ·) (funext fun r => ?_)
  cases r <;> rfl

end MediaQuery.PageTask

namespace MediaQuery.Query

/-- What a step below the given branch answers on a machine, and the machine it leaves. -/
inductive Answers (q : Query) (branch : Route) (m : Machine) : Step → Machine → Prop
  | ended (h : q.walk.phase.isTerminal = true) : Answers q branch m ⟨.ok none, q.walk⟩ m
  | refused {e : PaginationError} (h : q.walk.phase.isTerminal = false) (ht : q.task = .error e) :
      Answers q branch m ⟨.error (.pagination e), q.walk.fail⟩ m
  | spent {task : PageTask} (h : q.walk.phase.isTerminal = false) (ht : q.task = .ok task)
      (hs : q.walk.isSpent = true) : Answers q branch m ⟨.ok none, q.walk.stop⟩ m
  | page {task : PageTask} {response : Response} {m' : Machine} (h : q.walk.phase.isTerminal = false)
      (ht : q.task = .ok task) (hs : q.walk.isSpent = false)
      (hr : m.run (task.run branch) = (some (.ok response), m')) :
      Answers q branch m ⟨.ok (some response), q.walk.begin.advance task.handler.pagination response⟩ m'
  | failed {task : PageTask} {e : Error} {m' : Machine} (h : q.walk.phase.isTerminal = false)
      (ht : q.task = .ok task) (hs : q.walk.isSpent = false) (hr : m.run (task.run branch) = (some (.error e), m')) :
      Answers q branch m ⟨.error e, q.walk.begin.fail⟩ m'

/-- The walk after a page has been made or has failed. -/
def after (q : Query) (task : PageTask) : Except Error Response → Prog Step
  | .ok response => .done ⟨.ok (some response), q.walk.begin.advance task.handler.pagination response⟩
  | .error e => .done ⟨.error e, q.walk.begin.fail⟩

/-- A step that makes a page runs the task of the page and then goes on in the walk. -/
theorem next_eq_bind {q : Query} {task : PageTask} (branch : Route) (h : q.walk.phase.isTerminal = false)
    (ht : q.task = .ok task) (hs : q.walk.isSpent = false) :
    q.next branch = (task.run branch).bind (q.after task) := by
  unfold next
  simp only [h, ht, hs, Bool.false_eq_true, if_false]
  refine congrArg ((task.run branch).bind ·) (funext fun r => ?_)
  cases r <;> rfl

/-- **A step that comes to its end does one of the things in the list, and each of them is a step.** -/
theorem run_next_iff {q : Query} {branch : Route} {m m' : Machine} {step : Step} :
    m.run (q.next branch) = (some step, m') ↔ q.Answers branch m step m' := by
  constructor
  · intro hrun
    cases h : q.walk.phase.isTerminal with
    | true =>
      unfold next at hrun
      rw [if_pos h] at hrun
      cases (Machine.run_done _ m).symm.trans hrun
      exact .ended h
    | false =>
      cases ht : q.task with
      | error e =>
        unfold next at hrun
        simp only [h, ht, Bool.false_eq_true, if_false] at hrun
        cases (Machine.run_done _ m).symm.trans hrun
        exact .refused h ht
      | ok task =>
        cases hs : q.walk.isSpent with
        | true =>
          unfold next at hrun
          simp only [h, ht, hs, Bool.false_eq_true, if_false, if_true] at hrun
          cases (Machine.run_done _ m).symm.trans hrun
          exact .spent h ht hs
        | false =>
          rw [next_eq_bind branch h ht hs, Machine.run_bind] at hrun
          split at hrun
          · next r m1 hr =>
            cases r with
            | ok response =>
              cases (Machine.run_done _ m1).symm.trans hrun
              exact .page h ht hs hr
            | error e =>
              cases (Machine.run_done _ m1).symm.trans hrun
              exact .failed h ht hs hr
          · simp at hrun
  · intro ha
    cases ha with
    | ended h =>
      unfold next
      rw [if_pos h]
      exact Machine.run_done _ m
    | refused h ht =>
      unfold next
      simp only [h, ht, Bool.false_eq_true, if_false]
      exact Machine.run_done _ m
    | spent h ht hs =>
      unfold next
      simp only [h, ht, hs, Bool.false_eq_true, if_false, if_true]
      exact Machine.run_done _ m
    | page h ht hs hr =>
      rw [next_eq_bind branch h ht hs, Machine.run_bind, hr]
      exact Machine.run_done _ m'
    | failed h ht hs hr =>
      rw [next_eq_bind branch h ht hs, Machine.run_bind, hr]
      exact Machine.run_done _ m'

/-- The task of a page is for the handler that the request resolves to. -/
theorem handler_of_task {q : Query} {t : PageTask} (h : q.task = .ok t) : q.handler = .ok t.handler := by
  unfold task at h
  unfold handler
  cases hc : q.checkRequest with
  | error e => simp [hc] at h
  | ok u =>
    simp only [hc] at h
    cases hs : q.source with
    | error e => simp [hs, bind, Except.bind] at h
    | ok source =>
      simp only [hs, bind, Except.bind] at h ⊢
      cases hh : source.handler q.request.queryType with
      | error e => simp [hh] at h
      | ok handler =>
        simp only [hh] at h
        split at h
        · simp at h
        · cases h
          rfl

end MediaQuery.Query
