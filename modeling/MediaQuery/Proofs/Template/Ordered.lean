import MediaQuery.Proofs.Template.Dated
import MediaQuery.Proofs.Template.Entries

/-!
# The execution log

The log of a query is the order in which its actions begin, whoever runs beside them (`ordered_of_evaluation`). Positions
in it are final, since it gets longer at the end only. So what a template enters (`evaluationStretch`), what a chain does
(`stepsStretch`) and what a single action does (`Announced`) are all said of positions. What has been waited for is over
for good, and what is entered after the wait comes later than whatever it has entered (`runFuture_of_report`).
-/

namespace MediaQuery

open Machine (Moment Steady)
open Prog

variable {inputs : Inputs} {past : List Machine.Event} {m : Machine}

/-- A future that has reported is never taken on again. -/
theorem runFuture_of_report {x y : Moment} (hxy : x.Before y) {id : FutureId} {report : Except EvalError Unit}
    (h : x.machine.report? id = some report) {f : Future} (hf : y.machine.future? id = some f) :
    y.machine.runFuture f = none := by
  have hreport : f.report? = some report := by
    have hlate : (y.machine.future? id).bind Future.report? = some report := hxy.keeps_report h
    rwa [hf] at hlate
  unfold Future.report? at hreport
  unfold Machine.runFuture
  split at hreport
  · next hended => rw [hended]
  · cases hreport

/-- **The order of entries.** Logs get longer at the end only. An action that is run, wherever that is, makes one entry,
before it begins, and before it goes on everything that it has started has reported and is over. The steps of a chain
follow one another. And an evaluation, whether it comes to an end or not, enters what its template does, in that order:
for each object first what `setup` does, then what `include` does, then what its fields do; for each collection first
what `arrayMap` does and then what its items do; and nothing after a failure. If it fails, and its actions make up no
errors, the log that the error carries is the beginning of the log at any time from then on. -/
theorem ordered_of_evaluation (h : Steady inputs past m) (t : Template) (branch : Route) :
    (∀ x y : Moment, x.Before y → (∀ a, x.machine.logAt a <+: y.machine.logAt a) ∧
      ∀ id report, x.machine.report? id = some report → ∀ f, y.machine.future? id = some f →
        y.machine.runFuture f = none) ∧
    (∀ action base own path, (executeAction action own path).RunsAs base (Announced action base own path)) ∧
    (∀ actions base own path step,
      (executeActions actions own path step).RunsAs base (stepsStretch (announcing base) actions own path step)) ∧
    (∀ (t : Template) base own, (t.evaluate own).RunsAs base (evaluationStretch (announcing base) base t own)) ∧
    ∀ r m', m.run (t.evaluate branch) = (r, m') → ∃ past' entered, Steady inputs past' m' ∧
      (t.evaluate branch).Reaches [] ⟨past, m⟩ entered r ⟨past', m'⟩ ∧
      evaluationStretch (announcing []) [] t branch ⟨past, m⟩ entered r ⟨past', m'⟩ ∧
      (∀ n ∈ entered, n.Between ⟨past, m⟩ ⟨past', m'⟩) ∧
      ∀ e, r = some (.error e) → t.Every Action.Candid → m.Secure ReportsDated → m.Hosted branch →
        ∀ y, Moment.Before ⟨past', m'⟩ y → e.log <+: (y.machine.session e.branch).log := by
  have hevaluate (t : Template) (base own : Route) :
      (t.evaluate own).RunsAs base (evaluationStretch (announcing base) base t own) :=
    ⟨fun hx h => reaches_evaluate (announcing_holds base fun _ => True) (fun _ _ => trivial) hx trivial h⟩
  have hrooted : Moment.Rooted ⟨past, m⟩ := Machine.isSome_session?_root h.history
  refine ⟨fun x y hxy => ⟨hxy.evolves.logAt_prefix, fun id report hr f hf => runFuture_of_report hxy hr hf⟩,
    runsAs_executeAction, fun actions base own path step => ?_, hevaluate, fun r m' hrun => ?_⟩
  · exact runsAs_executeActions (announcing_holds base fun _ => True) (fun _ => trivial) actions own step
  obtain ⟨past', entered, hsteady, hreaches⟩ := Machine.reaches_of_run h hrun
  refine ⟨past', entered, hsteady, hreaches, (hevaluate t [] branch).reached hrooted hreaches,
    hreaches.logged hrooted, fun e he ht hm hbranch y hy => ?_⟩
  subst he
  exact ((dated_of_run ht hm hbranch hrun).evolves hy.evolves).log

/-! ## An object whose `include` fails -/

/-- An object with a chain as its `setup`, a failing `include`, and a field. -/
def failingInclude : Template :=
  .object ⟨some (chaining [answeringAction (.string "one")]), some (.done (.error (.action "boom" []))), none⟩
    [("a", .action (answeringAction (.string "value")))]

theorem candid_answeringAction (v : Value) : (answeringAction v).Candid := fun _ _ _ _ _ => nofun

/-- A chain of candid actions is candid. -/
theorem candid_chaining {actions : List Action} (h : ∀ action ∈ actions, action.Candid) : (chaining actions).Candid := by
  intro m own hown
  have hown' : m.Hosted (own ++ []) := by rwa [List.append_nil]
  refine Safe.bind (candid_chain h hown') fun m₁ r _ hr => ?_
  intro m₂ hg
  cases r with
  | ok last =>
    intro route hroute
    cases hroute
    exact hr.evolves hg
  | error e => exact EvalError.Dated.evolves hr hg

theorem candid_failingInclude : failingInclude.Every Action.Candid := by
  have hsetup := candid_chaining (List.forall_mem_singleton.2 (candid_answeringAction (.string "one")))
  refine ⟨⟨?_, ?_, nofun⟩, candid_answeringAction _, trivial⟩
  · rintro action ⟨⟩
    exact hsetup
  · rintro action ⟨⟩
    exact fun _ _ _ _ _ => trivial

/-- The entries of `setup` and its step are followed by that of `include`, and by none of the field. The error carries
that log. -/
theorem ordered_of_failingInclude : Steady .blank [] (.start .blank) ∧ ∃ e past' m',
    (Machine.start .blank).run (failingInclude.evaluate []) = (some (.error e), m') ∧
      (m'.session []).log = [Path.root.directive "setup", (Path.root.directive "setup").withStep 1,
        Path.root.directive "include"] ∧
      ∀ y, Moment.Before ⟨past', m'⟩ y → e.log <+: (y.machine.session e.branch).log := by
  obtain ⟨e, m', hrun, hlog⟩ : ∃ e m', (Machine.start .blank).run (failingInclude.evaluate []) = (some (.error e), m') ∧
      (m'.session []).log = [Path.root.directive "setup", (Path.root.directive "setup").withStep 1,
        Path.root.directive "include"] := ⟨_, _, Machine.drive_of_result rfl _, rfl⟩
  obtain ⟨-, -, -, -, hruns⟩ := ordered_of_evaluation (Machine.steady_start .blank) failingInclude []
  obtain ⟨past', entered, -, -, -, -, hcarried⟩ := hruns _ _ hrun
  exact ⟨Machine.steady_start .blank, e, past', m', hrun, hlog,
    hcarried e rfl candid_failingInclude (Machine.secure_start _) ⟨rfl, rfl⟩⟩

end MediaQuery
