import MediaQuery.Proofs.Machine.Visited
import MediaQuery.Proofs.Program.Retimed
import MediaQuery.Proofs.Template.Parts
import MediaQuery.Proofs.Template.SettledValue

/-!
# The branch of the caller

An action runs on a fork of the branch that it is executed on, and what a template computes goes to forks as well: the
map that `include` answers, the items of a collection, nested objects and lists. On the branch itself there are forks
made and entries added to the log, so that evaluations only visit it (`visits_executeAction`, `visits_evaluate`), with
whatever actions. That is why they leave it alone (`leavesAlone_of_evaluation`).
-/

namespace MediaQuery

open Machine (AdvancesBeneath AmidBeneath LeftAlone Quiet visited_of_advances visits_of_amid visited_run)
open Prog

variable {a base branch own : Route} {path : Path} {α β : Type} {Q : α → Prop} {m : Machine}

/-! ## Evaluations visit their branch -/

/-- An action that is run beneath a branch uses nothing else. -/
theorem within_beneath (a : Route) (action : Action) : action.Within (Beneath a) := by
  intro own hown
  refine (action.within_below own own List.prefix_rfl).mono (fun _ hx => hown.below hx)
    (fun _ _ hx => hx.trans (List.prefix_append _ _)) fun r hr output heq further hfurther => ?_
  exact hown.below (hr output heq further hfurther)

theorem visits_fork (hb : a <+: branch) (options : ForkOptions) : (fork branch options).Visits a [] (Beneath a) :=
  .operate (.fork branch options) hb trivial fun _ hmade => .done hmade

theorem visits_executeAction (action : Action) (hb : a <+: branch) (path : Path) :
    (executeAction action branch path).Visits a [] (IfOk fun c => Beneath a c.branch) := by
  rw [executeAction_eq]
  exact .operate (.enter branch path) hb trivial fun _ _ => .operate (.fork branch (.place path)) hb trivial
    fun _ hown => ((within_beneath a action).actOn hown path).visits

theorem visits_runSetup (setup : Option Action) (hb : a <+: branch) (path : Path) :
    (runSetup setup branch path).Visits a [] (IfOk fun r => a <+: r.1) := by
  cases setup with
  | none => exact .done fun r heq => Except.ok.inj heq ▸ hb
  | some action =>
    refine (visits_executeAction action hb _).bind fun r hr => .done fun answer heq => ?_
    cases r with
    | ok c => exact Except.ok.inj heq ▸ (hr c rfl).above
    | error e => cases heq

/-- The map that `include` answers goes to a fork. -/
theorem visits_runInclude (action? : Option Action) (setupWrote : Bool) (hb : a <+: branch) (path : Path) :
    (runInclude action? setupWrote branch path).Visits a [] (IfOk fun r => a <+: r.1) := by
  cases action? with
  | none => exact .done fun r heq => Except.ok.inj heq ▸ hb
  | some action =>
    unfold runInclude
    refine (visits_executeAction action hb _).andThen fun c hc => ?_
    split
    · refine (visits_fork hb _).andThenLift fun merged hmerged => ?_
      exact (uses_setAll hmerged _).visits.andThenLift fun _ _ => .done fun r heq =>
        Except.ok.inj heq ▸ hmerged.above
    · exact (uses_log hc).visits.andThenLift fun _ _ => .done nofun

/-- A field, or an element of a list, is evaluated on a fork, if there is anything to evaluate. -/
theorem visits_onFork (t : Template) (hb : a <+: branch) (path : Path) :
    (onFork t branch path (evalTemplate t)).Visits a [] (IfOk fun _ => True) := by
  have hbeneath (t : Template) (own : Route) (hown : Beneath a own) :
      (evalTemplate t own path).Visits a [] (IfOk fun _ => True) :=
    (uses_evalTemplate (within_beneath a) t hown path).visits
  cases t with
  | scalar v => exact .done fun _ _ => trivial
  | action action => exact (visits_executeAction action hb path).mapOk leafValue
  | object directives fields => exact (visits_fork hb _).bind (hbeneath (.object directives fields))
  | list items => exact (visits_fork hb _).bind (hbeneath (.list items))

theorem visits_evalFields (fields : List (String × Template)) (hb : a <+: branch) (path : Path) :
    ∀ p ∈ evalFields fields branch path, p.Visits a [] (IfOk fun _ => True) := by
  induction fields with
  | nil =>
    intro p hp
    cases hp
  | cons e rest ih => exact List.forall_mem_cons.2 ⟨visits_onFork e.2 hb _, ih⟩

/-- The items of a collection go to forks of the branch that the action has left. -/
theorem visits_evalArrayMap (action : Action) {element : Route → Path → Prog (Except ExecutionError Value)}
    (helement : ∀ own path, Beneath a own → (element own path).Uses (Beneath a) [] (IfOk fun _ => True))
    (hb : a <+: branch) (path : Path) :
    (evalArrayMap action element branch path).Visits a [] (IfOk fun _ => True) := by
  rw [evalArrayMap_eq]
  exact (visits_executeAction action hb _).andThen fun _ hc => (uses_spreadItems helement hc).visits

theorem visits_evalItems (items : List Template) (hb : a <+: branch) (path : Path) (i : Nat) :
    ∀ p ∈ evalItems items branch path i, p.Visits a [] (IfOk fun _ => True) := by
  induction items generalizing i with
  | nil =>
    intro p hp
    cases hp
  | cons t rest ih =>
    cases ht : t.arrayMap? with
    | none =>
      rw [evalItems_single ht]
      exact List.forall_mem_cons.2 ⟨(visits_onFork t hb _).mapOk _, ih (i + 1)⟩
    | some action =>
      obtain ⟨setup, include?, fields, rfl⟩ := Template.eq_of_arrayMap? ht
      rw [evalItems_spread]
      refine List.forall_mem_cons.2 ⟨visits_evalArrayMap action (fun own path hown => ?_) hb _, ih (i + 1)⟩
      exact uses_evalTemplate (within_beneath a) _ hown path

theorem visits_evalTemplate (t : Template) (hb : a <+: branch) (path : Path) :
    (evalTemplate t branch path).Visits a [] (IfOk fun _ => True) := by
  cases t with
  | scalar v => exact .done fun _ _ => trivial
  | action action => exact (visits_executeAction action hb path).mapOk leafValue
  | object directives fields =>
    rw [evalTemplate]
    refine (visits_runSetup directives.setup hb path).andThen fun s hs => ?_
    refine (visits_runInclude directives.include? s.2 hs path).andThen fun r hr => ?_
    exact (visits_parallel (visits_evalFields fields hr path)).andThen fun _ _ => .done fun _ _ => trivial
  | list items =>
    rw [evalTemplate]
    exact (visits_parallel (visits_evalItems items hb path 0)).mapOk _

/-- **The evaluation of a template only visits its branch.** -/
theorem visits_evaluate (t : Template) (branch : Route) :
    (t.evaluate branch).Visits branch [] (IfOk fun _ => True) := by
  have hpath : (Prog.path branch).Visits branch [] fun _ => True :=
    .operate (.path branch) List.prefix_rfl trivial fun _ _ => .done trivial
  refine hpath.bind fun path _ => ?_
  cases t.misplaced? path with
  | some place => exact .operate (.log branch) List.prefix_rfl trivial fun _ _ => .done nofun
  | none => exact visits_evalTemplate t List.prefix_rfl path

/-! ## What they leave -/

/-- What a program on a branch does by itself leaves the branch alone: when it starts, and when it is taken on later in
the midst of whatever others do, or a future is that was started beneath the branch. If no future that still runs uses
the branch, a whole run leaves it alone, whatever comes of it. -/
structure Prog.LeavesAlone (p : Prog α) (base branch : Route) (m : Machine) : Prop where
  start : LeftAlone (base ++ branch) m (p.start base m).2
  advance : ∀ r r', Relation.ReflTransGen (AmidBeneath (base ++ branch) base) (p.start base m) r →
    AdvancesBeneath (base ++ branch) base r r' → LeftAlone (base ++ branch) r.2 r'.2
  run : m.Quiet (base ++ branch) → LeftAlone (base ++ branch) m (m.run (p.under base)).2

theorem Prog.Visits.leavesAlone {p : Prog α} (h : p.Visits branch [] Q)
    (hb : (m.node? (base ++ branch)).isSome = true) : p.LeavesAlone base branch m := by
  have hp : p.Visits (base ++ branch) base Q := by
    have hshifted : p.Visits (base ++ branch) (base ++ []) Q := h.shift
    rwa [List.append_nil] at hshifted
  obtain ⟨hvisited, hvisits⟩ := hp.start m
  refine ⟨hvisited.leftAlone hb, fun r r' hr hr' => ?_, fun hquiet => ?_⟩
  · obtain ⟨hvisits', hb'⟩ := visits_of_amid hvisits (hvisited.evolves.isSome hb) hr
    exact (visited_of_advances hvisits' hb' hr').1.leftAlone hb'
  · exact (visited_run hquiet hb hp.under).leftAlone hb

/-- **Evaluation leaves the branch of the caller alone**, be it that of a template or of an action. -/
theorem leavesAlone_of_evaluation (hb : (m.node? (base ++ branch)).isSome = true) :
    (∀ t : Template, (t.evaluate branch).LeavesAlone base branch m) ∧
      ∀ action path, (executeAction action branch path).LeavesAlone base branch m :=
  ⟨fun t => (visits_evaluate t branch).leavesAlone hb, fun action path =>
    (visits_executeAction action List.prefix_rfl path).leavesAlone hb⟩

/-- A branch that holds a value still holds it after an object with `include` and a nested object, and after an action
that fails. -/
theorem leavesAlone_of_valued : (valued.node? ([] ++ [])).isSome = true ∧ valued.Quiet ([] ++ []) ∧
    LeftAlone [] valued (valued.run ((Template.object ⟨none, some (answeringAction (.map [("a", .null)])), none⟩
      [("b", .object .none [("c", .action (answeringAction .null))])]).evaluate [])).2 ∧
    LeftAlone [] valued (valued.run (executeAction (.done (.error (.action "boom" []))) [] .root)).2 := by
  have hquiet : valued.Quiet ([] ++ []) := nofun
  have hthere : (valued.node? ([] ++ [])).isSome = true := rfl
  obtain ⟨htemplate, haction⟩ := leavesAlone_of_evaluation hthere
  refine ⟨hthere, hquiet, ?_, ?_⟩
  · have hrun := (htemplate (.object ⟨none, some (answeringAction (.map [("a", .null)])), none⟩
      [("b", .object .none [("c", .action (answeringAction .null))])])).run hquiet
    rwa [under_nil] at hrun
  · have hrun := (haction (.done (.error (.action "boom" []))) .root).run hquiet
    rwa [under_nil] at hrun

/-- A machine on which a value is still to be computed. -/
def promising : Machine := (Machine.start .blank).spawn [] "k" (.done (.ok (.string "late")))

/-- A machine with a second branch, which a value of the first will write to when it is computed. -/
def meddling : Machine := ((Machine.start .blank).perform [] (.fork [] .plain)).2.spawn [] "k"
  ((Prog.set [0] "x" (.string "late")).bind fun _ => .done (.ok .null))

/-- **What others do meanwhile is another matter.** A value that was still to be computed for the branch may be there
after an action, and a future of another branch may have written to that of a template, which has no future itself. -/
theorem changed_meanwhile :
    (∃ completed m', promising.run (executeAction (answeringAction .null) [] .root) = (some (.ok completed), m') ∧
      promising.get [] "k" = .error (.pendingValue "k") ∧ m'.get [] "k" = .ok (.string "late") ∧
      (promising.store []).pending.length = 1 ∧ (m'.store []).pending.length = 0) ∧
    ∃ m', meddling.run ((Template.action (.sleep 1 (answeringAction .null))).evaluate [0]) = (some (.ok .null), m') ∧
      (meddling.store [0]).pending = [] ∧ meddling.unawaited [0] = [] ∧
      meddling.get [0] "x" = .error (.missingValue "x") ∧ m'.get [0] "x" = .ok (.string "late") :=
  ⟨⟨_, _, Machine.drive_of_turns (k := 2) rfl rfl, rfl, rfl, rfl, rfl⟩,
    ⟨_, Machine.drive_of_turns (k := 2) rfl rfl, rfl, rfl, rfl, rfl⟩⟩

end MediaQuery
