import MediaQuery.Proofs.Machine.Vacant
import MediaQuery.Proofs.Machine.Waiting
import MediaQuery.Proofs.Template.CurrentValue
import MediaQuery.Proofs.Template.Isolation
import MediaQuery.Proofs.Template.Parts

/-!
# The order of entries

An action is announced by an entry with its path, which is made before it begins, and before it has an answer everything
that it has started has come to an end (`Announced`). Given such an account of single actions, what templates enter
follows their shape (`templateStretch`): an object enters what its `setup` does, then what its `include` does, then what
its fields do; the items of a collection come after the action that has answered it; and what has failed is followed by
nothing. Every evaluation is on that stretch however far it has got (`reaches_evaluate`), and so is every chain on that of
its steps (`runsAs_executeActions`).
-/

namespace MediaQuery

open Machine (Moment)
open Prog

variable {base branch own : Route} {path : Path} {x y : Moment} {N : Set Note} {action : Action}

/-! ## Actions -/

/-- An action has answered on its fork, and then has been waited for: whatever it has started on the fork and on the
branch that it goes on with, and nobody had begun to wait for, has reported. -/
def Attended (action : Action) (base own : Route) (completed : Completed) (begun y : Moment) : Prop :=
  ∃ output answered waiting handing, (action.on own).Leads base begun (.ok output) answered ∧
    answered.Before waiting ∧ waiting.Before handing ∧ handing.Before y ∧
    (∀ id ∈ waiting.machine.unawaited (base ++ own), ∃ report, y.machine.report? id = some report) ∧
    ∀ id ∈ handing.machine.unawaited (base ++ completed.branch), ∃ report, y.machine.report? id = some report

/-- An action is run on a branch. There is one entry for it, which names the path and is made before the action begins
on its fork; whatever the action enters itself comes after it. -/
inductive Announced (action : Action) (base branch : Route) (path : Path) (x : Moment) :
    Set Note → Option (Except ExecutionError Completed) → Moment → Prop
  | intro {begun y : Moment} {N : Set Note} {r : Option (Except ExecutionError Completed)} (hbegun : x.Before begun)
      (hm : begun.machine = (actionFork base branch path x.machine).2)
      (h : (actOn action (actionFork base branch path x.machine).1 path).Reaches base begun N r y)
      (hfirst : ∀ n ∈ N, (x.machine.note (base ++ branch) path).Precedes n)
      (hattended : ∀ completed, r = some (.ok completed) →
        Attended action base (actionFork base branch path x.machine).1 completed begun y) :
      Announced action base branch path x (insert (x.machine.note (base ++ branch) path) N) r y

/-- A wait that has gone well has been one for all that nobody waits for yet. -/
theorem reported_of_wrapping {waited : Route} {place : Path}
    (h : (wrapping waited place (waitForPending waited)).Leads base x (.ok ()) y) :
    x.Before y ∧ ∀ id ∈ x.machine.unawaited (base ++ waited), ∃ report, y.machine.report? id = some report := by
  obtain ⟨r, x₁, hwaits, -, rfl⟩ := leads_wrapping.1 h
  exact ⟨hwaits.before, Moment.reported_of_waits hwaits⟩

theorem attended_of_leads {completed : Completed} (h : (actOn action own path).Leads base x (.ok completed) y) :
    Attended action base own completed x y := by
  obtain ⟨output, answered, haction, h⟩ := leads_andThen.1 h
  obtain ⟨kept, waiting, hkeep, h⟩ := leads_andThenLift.1 h
  obtain ⟨_, handing, hwait, h⟩ := leads_andThen.1 h
  obtain ⟨_, last, hhand, heq, rfl⟩ := leads_andThen.1 h
  cases heq
  obtain ⟨hwaited, hown⟩ := reported_of_wrapping hwait
  obtain ⟨hhanded, hbranch⟩ := reported_of_wrapping hhand
  refine ⟨output, answered, waiting, handing, leads_wrapping.1 haction, hkeep.before, hwaited, hhanded, fun id hid => ?_,
    hbranch⟩
  obtain ⟨report, hreport⟩ := hown id hid
  exact ⟨report, hhanded.keeps_report hreport⟩

/-- **Every action is announced.** -/
theorem runsAs_executeAction (action : Action) (base branch : Route) (path : Path) :
    (executeAction action branch path).RunsAs base (Announced action base branch path) := by
  rw [executeAction_eq]
  refine ⟨?_⟩
  intro x N r y hx h
  obtain ⟨entered, N₁, hentered, hlog, ⟨begun, N₂, hforked, hm, h, rfl⟩, rfl⟩ := h
  have hnotes : (Op.enter branch path).notes x.machine base ∪ ((Op.fork branch (.place path)).notes entered.machine base ∪
      N₂) = insert (x.machine.note (base ++ branch) path) N₂ := by
    simp only [Op.notes, Set.empty_union, Set.singleton_union]
  rw [hnotes]
  have hentry := notes_between (.enter branch path) hx hlog _ rfl
  have hlater := h.logged (hforked.rooted (hentered.rooted hx))
  rw [hlog] at hm h
  refine .intro (hentered.trans hforked) hm h (fun n hn => ?_) fun completed hr => ?_
  · exact hentry.precedes ((hlater n hn).earlier hforked)
  · subst hr
    exact attended_of_leads (leads_of_reaches h)

/-! ## Accounts -/

/-- What is said of the actions that are run: of each on a branch at a path. -/
abbrev Account : Type 1 := Action → Route → Path → Stretch (Except ExecutionError Completed)

/-- It is true of every action that is run at one of the places. -/
def Account.Holds (account : Account) (base : Route) (places : Path → Prop) : Prop :=
  ∀ action branch path, places path → (executeAction action branch path).RunsAs base (account action branch path)

/-- The account that every action is announced. -/
def announcing (base : Route) : Account := fun action branch path => Announced action base branch path

theorem announcing_holds (base : Route) (places : Path → Prop) : (announcing base).Holds base places :=
  fun action branch path _ => runsAs_executeAction action base branch path

variable {places : Path → Prop} {account : Account}

/-! ## Chains -/

/-- The steps of a chain, one after another, the first of which is the given one. -/
def stepsStretch (account : Account) : List Action → Route → Path → Nat → Stretch (Except ExecutionError Route)
  | [], branch, _, _ => Answered (.ok branch)
  | action :: rest, branch, path, step => Successive (account action branch (path.withStep step)) fun completed =>
    stepsStretch account rest completed.branch path (step + 1)

/-- **The steps of a chain are run one after another.** -/
theorem runsAs_executeActions (h : account.Holds base places) (hplaces : ∀ step, places (path.withStep step))
    (actions : List Action) (branch : Route) (step : Nat) :
    (executeActions actions branch path step).RunsAs base (stepsStretch account actions branch path step) := by
  induction actions generalizing branch step with
  | nil => exact runsAs_done _ base
  | cons action rest ih => exact (h action branch _ (hplaces step)).andThen fun completed => ih _ _

/-! ## Directives -/

/-- What `setup` enters: the branch it leaves, and whether it has answered a value. -/
def setupStretch (account : Account) (setup : Option Action) (branch : Route) (path : Path) :
    Stretch (Except ExecutionError (Route × Bool)) :=
  match setup with
  | none => Answered (.ok (branch, false))
  | some action => Mapped (account action branch (path.directive "setup")) fun c => (c.branch, c.value.isSome)

/-- What `include` enters. Nothing is entered while its answer is merged, or rejected. -/
def includeStretch (account : Account) (action? : Option Action) (branch : Route) (path : Path) :
    Stretch (Except ExecutionError (Route × List (String × Value))) :=
  match action? with
  | none => Answered (.ok (branch, []))
  | some action => Successive (account action branch (path.directive "include")) fun _ => Silent

/-- What an object enters: first that of `setup`, then that of `include`, then that of the fields. -/
def objectStretch (account : Account) (directives : Directives)
    (fields : Route → List (Stretch (Except ExecutionError Value))) (branch : Route) (path : Path) :
    Stretch (Except ExecutionError Value) :=
  Successive (setupStretch account directives.setup branch path) fun s =>
    Successive (includeStretch account directives.include? s.1 path) fun r =>
      Successive (Alongside (fields r.1)) fun _ => Silent

/-- What the items of a collection enter, if `arrayMap` has answered one. -/
def spreadStretch (element : Route → Path → Stretch (Except ExecutionError Value)) (path : Path)
    (completed : Completed) : Stretch (Except ExecutionError (List Value)) :=
  match sourceItems? completed.value with
  | some items => Alongside (items.mapIdx fun i _ => Forked completed.branch fun own =>
      element own (path.child (.index i)))
  | none => Silent

/-- What `arrayMap` enters, and then the items. -/
def arrayMapStretch (account : Account) (action : Action)
    (element : Route → Path → Stretch (Except ExecutionError Value)) (branch : Route) (path : Path) :
    Stretch (Except ExecutionError (List Value)) :=
  Successive (account action branch (path.directive "array_map")) (spreadStretch element path)

/-- What is entered in the place of a field or an element: objects and lists have a fork of their own. -/
def placeStretch (t : Template) (branch : Route) (path : Path)
    (stretch : Route → Path → Stretch (Except ExecutionError Value)) : Stretch (Except ExecutionError Value) :=
  match t with
  | .object _ _ | .list _ => Forked branch fun own => stretch own path
  | .scalar _ | .action _ => stretch branch path

theorem silent_mergeIncluded (setupWrote : Bool) (branch : Route) (path : Path) (completed : Completed) :
    (mergeIncluded setupWrote branch path completed).RunsAs base Silent := by
  unfold mergeIncluded
  split
  · exact (silent_fork branch _).silently fun merged => (silent_setAll merged _).silently fun _ => silent_done _
  · exact silent_act _ (fun _ => rfl) fun _ => silent_done _

/-- An item of a collection is the current value of its fork. -/
theorem runsAs_evalItem {element : Route → Path → Prog (Except ExecutionError Value)}
    {stretch : Route → Path → Stretch (Except ExecutionError Value)} {i : Nat}
    (h : ∀ branch, (element branch (path.child (.index i))).RunsAs base (stretch branch (path.child (.index i))))
    (item : Value) : (evalItem element branch path i item).RunsAs base
      (Forked branch fun own => stretch own (path.child (.index i))) := by
  refine ⟨?_⟩
  rintro x N r y hx ⟨x₁, N₁, hforked, -, ⟨x₂, N₂, hset, -, hnext, rfl⟩, rfl⟩
  simp only [Op.notes, Set.empty_union]
  have hsteps := hforked.trans hset
  exact ⟨_, x₂, hsteps, (h _).reached (hsteps.rooted hx) hnext⟩

theorem runsAs_spreadItems {element : Route → Path → Prog (Except ExecutionError Value)}
    {stretch : Route → Path → Stretch (Except ExecutionError Value)}
    (h : ∀ i branch, (element branch (path.child (.index i))).RunsAs base (stretch branch (path.child (.index i))))
    (completed : Completed) : (spreadItems element path completed).RunsAs base (spreadStretch stretch path completed) := by
  unfold spreadItems spreadStretch
  cases sourceItems? completed.value with
  | some items =>
    refine runsAs_parallel (List.forall₂_iff_get.2 ⟨by simp, fun i hi hi' => ?_⟩)
    simp only [List.get_eq_getElem, List.getElem_mapIdx]
    exact runsAs_evalItem (h i) _
  | none => exact silent_act _ (fun _ => rfl) fun _ => silent_done _

theorem runsAs_onFork (t : Template) {eval : Route → Path → Prog (Except ExecutionError Value)}
    {stretch : Route → Path → Stretch (Except ExecutionError Value)}
    (h : ∀ branch, (eval branch path).RunsAs base (stretch branch path)) (branch : Route) :
    (onFork t branch path eval).RunsAs base (placeStretch t branch path stretch) := by
  cases t with
  | object directives fields => exact .fork h
  | list items => exact .fork h
  | _ => exact h branch

section Places

variable (h : account.Holds base places) (hplaces : ∀ path segment, places (Path.child path segment))
include h hplaces

theorem runsAs_runSetup (setup : Option Action) (branch : Route) (path : Path) :
    (runSetup setup branch path).RunsAs base (setupStretch account setup branch path) := by
  cases setup with
  | none => exact runsAs_done _ base
  | some action => exact (h action branch _ (hplaces path _)).map _

theorem runsAs_runInclude (action? : Option Action) (setupWrote : Bool) (branch : Route) (path : Path) :
    (runInclude action? setupWrote branch path).RunsAs base (includeStretch account action? branch path) := by
  cases action? with
  | none => exact runsAs_done _ base
  | some action =>
    rw [runInclude_some]
    exact (h action branch _ (hplaces path _)).andThen fun c => silent_mergeIncluded setupWrote branch path c

theorem runsAs_evalObject {directives : Directives} {keys : List String}
    {fields : Route → List (Prog (Except ExecutionError Value))}
    {stretches : Route → List (Stretch (Except ExecutionError Value))}
    (hfields : ∀ branch, List.Forall₂ (fun p s => p.RunsAs base s) (fields branch) (stretches branch)) :
    (evalObject directives keys fields branch path).RunsAs base
      (objectStretch account directives stretches branch path) :=
  (runsAs_runSetup h hplaces directives.setup branch path).andThen fun s =>
    (runsAs_runInclude h hplaces directives.include? s.2 s.1 path).andThen fun r =>
      (runsAs_parallel (hfields r.1)).andThen fun _ => silent_done _

theorem runsAs_evalArrayMap {element : Route → Path → Prog (Except ExecutionError Value)}
    {stretch : Route → Path → Stretch (Except ExecutionError Value)}
    (helement : ∀ i branch, (element branch (path.child (.index i))).RunsAs base (stretch branch (path.child (.index i)))) :
    (evalArrayMap action element branch path).RunsAs base (arrayMapStretch account action stretch branch path) := by
  rw [evalArrayMap_eq]
  exact (h action branch _ (hplaces path _)).andThen fun completed => runsAs_spreadItems helement completed

end Places

/-! ## Templates -/

mutual

/-- What a template enters. -/
def templateStretch (account : Account) : Template → Route → Path → Stretch (Except ExecutionError Value)
  | .scalar v, _, _ => Answered (.ok v)
  | .action action, branch, path => Mapped (account action branch path) leafValue
  | .object directives fields, branch, path =>
    objectStretch account directives (fun b => fieldStretches account fields b path) branch path
  | .list items, branch, path =>
    Mapped (Alongside (itemStretches account items branch path 0)) fun values => .list (flattenItems values)

/-- What the fields of an object enter. -/
def fieldStretches (account : Account) :
    List (String × Template) → Route → Path → List (Stretch (Except ExecutionError Value))
  | [], _, _ => []
  | (key, t) :: rest, branch, path =>
    placeStretch t branch (path.child (.key (outputKey key))) (templateStretch account t) ::
      fieldStretches account rest branch path

/-- What the elements of a list enter, the first of which has the given position. -/
def itemStretches (account : Account) :
    List Template → Route → Path → Nat → List (Stretch (Except ExecutionError (List Value)))
  | [], _, _, _ => []
  | t :: rest, branch, path, i =>
    (match t with
      | .object ⟨setup, include?, some arrayMap⟩ fields =>
        arrayMapStretch account arrayMap
          (fun b p => objectStretch account ⟨setup, include?, none⟩ (fun b => fieldStretches account fields b p) b p)
          branch (path.child (.index i))
      | t => Mapped (placeStretch t branch (path.child (.index i)) (templateStretch account t)) ([·])) ::
      itemStretches account rest branch path (i + 1)

end

mutual

/-- **However far an evaluation has got, what it has entered is in order.** -/
theorem runsAs_evalTemplate (h : account.Holds base places) (hplaces : ∀ path segment, places (Path.child path segment))
    (t : Template) (branch : Route) (path : Path) (hpath : places path) :
    (evalTemplate t branch path).RunsAs base (templateStretch account t branch path) := by
  cases t with
  | scalar v =>
    rw [evalTemplate, templateStretch]
    exact runsAs_done _ base
  | action action =>
    rw [evalTemplate, templateStretch]
    exact (h action branch path hpath).map leafValue
  | object directives fields =>
    rw [evalTemplate, templateStretch]
    exact runsAs_evalObject h hplaces fun b => runsAs_evalFields h hplaces fields b path
  | list items =>
    rw [evalTemplate, templateStretch]
    exact (runsAs_parallel (runsAs_evalItems h hplaces items branch path 0)).map _

theorem runsAs_evalFields (h : account.Holds base places) (hplaces : ∀ path segment, places (Path.child path segment))
    (fields : List (String × Template)) (branch : Route) (path : Path) :
    List.Forall₂ (fun p s => p.RunsAs base s) (evalFields fields branch path)
      (fieldStretches account fields branch path) := by
  match fields with
  | [] =>
    rw [evalFields, fieldStretches]
    exact .nil
  | (key, t) :: rest =>
    rw [evalFields, fieldStretches]
    exact .cons (runsAs_onFork t (fun b => runsAs_evalTemplate h hplaces t b _ (hplaces path _)) branch)
      (runsAs_evalFields h hplaces rest branch path)

theorem runsAs_evalItems (h : account.Holds base places) (hplaces : ∀ path segment, places (Path.child path segment))
    (items : List Template) (branch : Route) (path : Path) (i : Nat) :
    List.Forall₂ (fun p s => p.RunsAs base s) (evalItems items branch path i)
      (itemStretches account items branch path i) := by
  match items with
  | [] => exact .nil
  | .object ⟨setup, include?, some arrayMap⟩ fields :: rest =>
    exact .cons (runsAs_evalArrayMap h hplaces fun n b => runsAs_evalObject h hplaces fun b =>
      runsAs_evalFields h hplaces fields b _) (runsAs_evalItems h hplaces rest branch path (i + 1))
  | .object ⟨setup, include?, none⟩ fields :: rest =>
    exact .cons ((runsAs_onFork _ (fun b => runsAs_evalTemplate h hplaces (.object ⟨setup, include?, none⟩ fields) b _
      (hplaces path _)) branch).map ([·])) (runsAs_evalItems h hplaces rest branch path (i + 1))
  | .scalar v :: rest =>
    exact .cons ((runsAs_onFork _ (fun b => runsAs_evalTemplate h hplaces (.scalar v) b _ (hplaces path _)) branch).map
      ([·])) (runsAs_evalItems h hplaces rest branch path (i + 1))
  | .action action :: rest =>
    exact .cons ((runsAs_onFork _ (fun b => runsAs_evalTemplate h hplaces (.action action) b _ (hplaces path _))
      branch).map ([·])) (runsAs_evalItems h hplaces rest branch path (i + 1))
  | .list elements :: rest =>
    exact .cons ((runsAs_onFork _ (fun b => runsAs_evalTemplate h hplaces (.list elements) b _ (hplaces path _))
      branch).map ([·])) (runsAs_evalItems h hplaces rest branch path (i + 1))

end

/-- What an evaluation enters: what the template does at the path of the branch, or nothing if a directive is out of
place. -/
def evaluationStretch (account : Account) (base : Route) (t : Template) (branch : Route) :
    Stretch (Except ExecutionError Value) :=
  fun x N r y =>
    match t.misplaced? (x.machine.path (base ++ branch)) with
    | some _ => Silent x N r y
    | none => ∃ begun, x.Before begun ∧ templateStretch account t branch (x.machine.path (base ++ branch)) begun N r y

/-- **So is an evaluation as a whole.** -/
theorem reaches_evaluate (h : account.Holds base places) (hplaces : ∀ path segment, places (Path.child path segment))
    {t : Template} {r : Option (Except ExecutionError Value)} (hx : x.Rooted)
    (hpath : places (x.machine.path (base ++ branch))) (hreaches : (t.evaluate branch).Reaches base x N r y) :
    evaluationStretch account base t branch x N r y := by
  obtain ⟨begun, N', hbegun, hm, hreaches, rfl⟩ := hreaches
  simp only [Op.notes, Set.empty_union]
  have hrooted := hbegun.rooted hx
  unfold evaluationStretch
  dsimp only [Machine.perform, Prog.bind] at hreaches
  generalize t.misplaced? (x.machine.path (base ++ branch)) = misplaced at hreaches ⊢
  cases misplaced with
  | some place =>
    have hsilent : Silent begun N' r y :=
      (silent_act (.log branch) (fun _ => rfl) fun log => silent_done _).reached hrooted hreaches
    exact ⟨hsilent.1, hbegun.trans hsilent.2⟩
  | none => exact ⟨begun, hbegun, (runsAs_evalTemplate h hplaces t branch _ hpath).reached hrooted hreaches⟩

end MediaQuery
