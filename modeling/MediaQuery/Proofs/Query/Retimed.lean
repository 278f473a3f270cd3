import MediaQuery.PageTask
import MediaQuery.Proofs.Template.Retimed

/-!
# Durations and pages

Two handlers are the same but for the durations of the sleeps in their templates (`Handler.Retimed`), and so are two
tasks with such handlers and hooks (`PageTask.Retimed`). To make the page is then the same but for the durations
(`retimed_page`), and so is an action that asks for a nested page (`retimed_loadRequest`).
-/

namespace MediaQuery

open Prog

variable {K : Pairs} {base base' b b' : Route}

/-- Plans with the same validator. Their templates are the same but for the durations, depend on no log, and store no
value that is still being computed. -/
structure ResponsePlan.Retimed (plan plan' : ResponsePlan) : Prop where
  validator : plan.validator = plan'.validator
  template : plan.template.Retimed plan'.template
  blind : plan.template.Blind
  blind' : plan'.template.Blind
  calm : plan.template.Calm
  calm' : plan'.template.Calm

/-- Handlers that have such plans for every request, and the same besides. -/
structure Handler.Retimed (h h' : Handler) : Prop where
  plans : ∀ r, SameResult Eq ResponsePlan.Retimed (h.planFor r) (h'.planFor r)
  others : h' = { h with responses := h'.responses }

/-- Tasks with such handlers and with such hooks, and the same besides. -/
structure PageTask.Retimed (task task' : PageTask) : Prop where
  handler : task.handler.Retimed task'.handler
  hooks : task.hooks.Retimed task'.hooks
  others : task' = { task with handler := task'.handler, hooks := task'.hooks }

section Task

variable {task task' : PageTask} (h : task.Retimed task')
include h

theorem PageTask.Retimed.filledRequest_eq : task'.filledRequest = task.filledRequest := by
  rw [h.others]
  unfold PageTask.filledRequest
  rw [h.handler.others]
  rfl

theorem PageTask.Retimed.accept_eq (validator : Validator) (body : Value) :
    task'.accept validator body = task.accept validator body := by
  rw [h.others, h.handler.others]
  rfl

theorem PageTask.Retimed.inputs : task.inputs.Retimed task'.inputs := by
  refine ⟨h.hooks, ?_⟩
  rw [h.others, h.handler.others]
  rfl

/-- **To make a page is the same but for the durations.** -/
theorem retimed_page (hb : K.met (base ++ b) (base' ++ b')) :
    Prog.Retimed K base base' (fun _ => SameSuccess Eq) (task.run b) (task'.run b') := by
  unfold PageTask.run
  have hplan := h.handler.plans task.filledRequest
  rw [h.filledRequest_eq]
  generalize task.handler.planFor task.filledRequest = plan, task'.handler.planFor task.filledRequest = plan' at hplan
  cases hplan with
  | error _ => exact .done (.error trivial)
  | @ok plan plan' hplan =>
    refine .openSession hb h.inputs fun i i' => ?_
    have hmet := Pairs.met_of_made _ _ _ (K.made_insert (base ++ (b ++ [i])) (base' ++ (b' ++ [i'])))
    refine (hplan.template.evaluate hplan.blind hplan.blind' hplan.calm hplan.calm' hmet).bind fun L r r' _ hr => ?_
    cases hr with
    | error _ => exact .done (.error trivial)
    | @ok body _ hbody =>
      subst hbody
      have hsame : ((task'.accept plan'.validator body).bind fun _ => PageTask.read body) =
          (task.accept plan.validator body).bind fun _ => PageTask.read body := by
        rw [h.accept_eq, hplan.validator]
      refine .done ?_
      rw [hsame]
      cases (task.accept plan.validator body).bind fun _ => PageTask.read body with
      | ok response => exact .ok rfl
      | error e => exact .error trivial

end Task

/-- **So is to ask for a nested page**, with hooks of the asking query. -/
theorem retimed_loadRequest {handler handler' : Handler} (h : handler.Retimed handler')
    (hb : K.met (base ++ b) (base' ++ b')) (request : Request) (secrets : Secrets) :
    Prog.Retimed K base base' (fun _ => SameSuccess Eq) (loadRequest b handler request secrets)
      (loadRequest b' handler' request secrets) := by
  refine .inputs hb fun inputs inputs' hinputs => retimed_page ⟨h, hinputs.hooks, ?_⟩ hb
  rw [hinputs.others]
  unfold Inputs.nestedTask
  rw [h.others]

end MediaQuery
