import MediaQuery.Proofs.Machine.Safety
import MediaQuery.Proofs.Template.Safe

/-!
# Where failures are reported

A failure is wrapped once, where it leaves the innermost action, and passes everything further out as it is. To say
so, let errors arise in any way whatsoever (`arises`): the actions of a template are honest if they fail with failures
that arise at their places, or with errors that have been reported further down. Then whatever the evaluation fails with
has arisen and is innermost (`reported_of_run`). Chains of honest actions are honest (`safe_chain`), and so are
evaluations inside of actions (`safe_evaluate`).
-/

namespace MediaQuery

open Prog

/-! ## Errors as they arise -/

/-- An error that wraps a failure, and not one that is wrapped already, with the text of that failure and at a path
whose entry is in the log. A misplaced directive is found before anything is entered. -/
structure ExecutionError.Innermost (e : ExecutionError) : Prop where
  bare : ∀ inner, e.cause ≠ .nested inner
  message : e.message = e.cause.message
  logged : e.cause ≠ .arrayMapOutsideList → logLine e.path ∈ e.log.map logLine

variable {arises : ExecutionError → Prop} {α : Type} {base branch own : Route} {path : Path} {m m' : Machine}

/-- An error that is innermost and has arisen. -/
structure Reported (arises : ExecutionError → Prop) (e : ExecutionError) : Prop where
  innermost : e.Innermost
  arises : arises e

/-- A failure that may leave an action which is run at the path, with the branch as its context: an error that has
been reported further down, or one that arises here, whatever else is in the log. -/
def Leaves (arises : ExecutionError → Prop) (path : Path) (branch : Route) : EvalError → Prop
  | .nested e => Reported arises e
  | e => ∀ log, path ∈ log → arises (.failed e.message path e log branch)

/-- Leaving the action. -/
theorem Leaves.wrap {e : EvalError} (h : Leaves arises path branch e) {log : List Path} (hlog : path ∈ log) :
    Reported arises (e.wrap path log branch) := by
  have hlogged : logLine path ∈ log.map logLine := List.mem_map_of_mem hlog
  cases e with
  | nested e => exact h
  | _ => exact ⟨⟨nofun, rfl, fun _ => hlogged⟩, h log hlog⟩

theorem EvalError.under_wrap (e : EvalError) (path : Path) (log : List Path) (branch base : Route) :
    (e.wrap path log branch).under base = (e.under base).wrap path log (base ++ branch) := by
  have hfailed (c : EvalError) : (ExecutionError.failed c.message path c log branch).under base =
      .failed (c.under base).message path (c.under base) log (base ++ branch) := by
    rw [message_under]
    rfl
  cases e with
  | nested e => rfl
  | _ => exact hfailed _

/-- What the futures of a branch may report: a failure that may leave any action whose fork is above, and which then
waits for them there or on a branch that it hands back. -/
structure MayReport (arises : ExecutionError → Prop) (m : Machine) (home : Route) (e : EvalError) : Prop where
  there : (m.node? home).isSome = true
  leaves : ∀ own branch path, own <+: home → own <+: branch → path.join [] = m.path own → Leaves arises path branch e

theorem MayReport.evolves {home : Route} {e : EvalError} (h : MayReport arises m home e) (hg : m.Evolves m') :
    MayReport arises m' home e := by
  refine ⟨hg.isSome h.there, fun own branch path howner hbranch hpath => h.leaves own branch path howner hbranch ?_⟩
  obtain ⟨more, rfl⟩ := howner
  rw [hpath, hg.path (Branch.isSome_node?_of_prefix h.there)]

/-- An action that is run at a path on a fork of its own. It fails with what may leave it, so it makes no error of its
own that would pass for one reported further down, and a branch that it hands back belongs to its query. -/
def Action.Honest (arises : ExecutionError → Prop) (path : Path) (action : Action) : Prop :=
  ∀ m own, m.Hosted own → m.path own = path.join [] → path ∈ (m.session own).log →
    action.Safe (MayReport arises) own m
      (Meets (fun _ e => Leaves arises path own (e.under own))
        fun m output => ∀ route, output = .context route → m.Kin own (own ++ route))

/-- An error that is reported, as seen from the branch at the base. -/
def ReportedFrom (arises : ExecutionError → Prop) (base : Route) (_ : Machine) (e : ExecutionError) : Prop :=
  Reported arises (e.under base)

/-! ## Actions -/

/-- A program whose failure leaves an action. -/
theorem safe_wrapping {p : Prog (Except EvalError α)} {good : Machine → α → Prop}
    (hp : p.Safe (MayReport arises) base m (Meets (fun _ e => Leaves arises path (base ++ branch) (e.under base)) good))
    (hgood : ∀ m m' a, m.Evolves m' → good m a → good m' a) (there : (m.node? (base ++ branch)).isSome = true)
    (hpath : path ∈ (m.session (base ++ branch)).log) :
    (wrapping branch path p).Safe (MayReport arises) base m (Meets (ReportedFrom arises base) good) := by
  refine Safe.bind hp fun m₁ r hg hr => ?_
  cases r with
  | ok a => exact fun m₂ hg' => hgood m₁ m₂ a hg' hr
  | error e =>
    refine Safe.bind (safe_perform (.log branch) (P := fun _ log => path ∈ log) fun m₂ hg' _ _ =>
      (hg.trans hg').mem_log there hpath) fun m₂ log _ hlog => ?_
    intro m₃ _
    show Reported arises ((e.wrap path log branch).under base)
    rw [EvalError.under_wrap]
    exact hr.wrap hlog

theorem safe_waitForPending (branch : Route) : (waitForPending branch).Safe (MayReport arises) base m
    (Meets (fun m e => MayReport arises m (base ++ branch) (e.under base)) fun _ _ => True) := by
  intro m₁ r hg hr
  cases r with
  | ok a => exact fun _ _ => trivial
  | error e =>
    intro m₂ hg'
    show MayReport arises m₂ (base ++ branch) ((e.under branch).under base)
    rw [EvalError.under_under]
    exact MayReport.evolves hr hg'

/-- A branch to go on with after an action: the action's fork or one further down, and of the same query. -/
structure Continues (m : Machine) (own branch : Route) : Prop where
  kin : m.Kin own branch
  below : own <+: branch

theorem Continues.evolves (h : Continues m own branch) (hg : m.Evolves m') : Continues m' own branch :=
  ⟨h.kin.evolves hg, h.below⟩

/-- Waiting on a branch to go on with for what the action has started there. -/
theorem safe_wrapping_waitForPending (hbranch : Continues m (base ++ own) (base ++ branch))
    (hown : m.path (base ++ own) = path.join []) (hpath : path ∈ (m.session (base ++ own)).log) :
    (wrapping branch path (waitForPending branch)).Safe (MayReport arises) base m
      (Meets (ReportedFrom arises base) fun _ _ => True) := by
  refine safe_wrapping (Safe.imp (safe_waitForPending branch) fun m₁ r hg hr => ?_) (fun _ _ _ _ _ => trivial)
    hbranch.kin.right.there (hbranch.kin.log_eq ▸ hpath)
  cases r with
  | ok a => trivial
  | error e =>
    exact hr.leaves (base ++ own) (base ++ branch) path hbranch.below hbranch.below
      (hown.symm.trans (hg.path hbranch.kin.left.there).symm)

theorem safe_finishAction {completed : Completed} (hdone : Continues m (base ++ own) (base ++ completed.branch))
    (hown : m.path (base ++ own) = path.join []) (hpath : path ∈ (m.session (base ++ own)).log) :
    (finishAction own path completed).Safe (MayReport arises) base m
      (Meets (ReportedFrom arises base) fun m c => Continues m (base ++ own) (base ++ c.branch)) := by
  have hself : Continues m (base ++ own) (base ++ own) := ⟨hdone.kin.left.kin, List.prefix_rfl⟩
  have hthere := hdone.kin.left.there
  refine Safe.andThen (safe_wrapping_waitForPending hself hown hpath) (fun m₁ _ hg _ => ?_) fun _ _ _ _ h => h
  refine Safe.andThen (safe_wrapping_waitForPending (hdone.evolves hg) ((hg.path hthere).trans hown)
    (hg.mem_log hthere hpath)) (fun m₂ _ hg' _ => ?_) fun _ _ _ _ h => h
  exact fun m₃ hg'' => hdone.evolves (hg.trans (hg'.trans hg''))

/-- **An action on a fork of its own.** -/
theorem safe_actOn {action : Action} (h : action.Honest arises path) (hown : m.Hosted (base ++ own))
    (hplace : m.path (base ++ own) = path.join []) (hpath : path ∈ (m.session (base ++ own)).log) :
    (actOn action own path).Safe (MayReport arises) base m
      (Meets (ReportedFrom arises base) fun m c => Continues m (base ++ own) (base ++ c.branch)) := by
  have hon : (action.on own).Safe (MayReport arises) base m
      (Meets (fun _ e => Leaves arises path (base ++ own) (e.under base))
        fun m output => ∀ route, output = .context route → m.Kin (base ++ own) (base ++ own ++ route)) := by
    refine Safe.bind (Safe.under (h m (base ++ own) hown hplace hpath)) fun m₁ r _ hr => ?_
    intro m₂ hg
    cases r with
    | ok output => exact fun route ho => (hr route ho).evolves hg
    | error e =>
      show Leaves arises path (base ++ own) ((e.under own).under base)
      rw [EvalError.under_under]
      exact hr
  refine Safe.andThen (safe_wrapping hon (fun _ _ _ hg hk route ho => (hk route ho).evolves hg) hown.there hpath)
    (fun m₁ output hg houtput => ?_) fun _ _ _ _ h => h
  have hself : Continues m₁ (base ++ own) (base ++ own) := ⟨(hown.evolves hg).kin, List.prefix_rfl⟩
  refine Safe.andThenLift (safe_keepOutput (P := fun m last => Continues m (base ++ own) last)
    (fun _ _ _ hg h => h.evolves hg) hself fun route ho => ⟨houtput route ho, List.prefix_append _ _⟩)
    fun m₂ completed hg' hdone => ?_
  have hlate := hg.trans hg'
  exact safe_finishAction hdone ((hlate.path hown.there).trans hplace) (hlate.mem_log hown.there hpath)

/-- An action has been run on a branch: it is in the log, and the branch to go on with is of the same query. -/
structure Executed (m : Machine) (branch : Route) (path : Path) (last : Route) : Prop where
  kin : m.Kin branch last
  entered : path ∈ (m.session branch).log

theorem Executed.evolves {last : Route} (h : Executed m branch path last) (hg : m.Evolves m') :
    Executed m' branch path last := ⟨h.kin.evolves hg, hg.mem_log h.kin.left.there h.entered⟩

/-- **An action that is run on a branch.** -/
theorem safe_executeAction {action : Action} (h : action.Honest arises path) (hbranch : m.Hosted (base ++ branch)) :
    (executeAction action branch path).Safe (MayReport arises) base m
      (Meets (ReportedFrom arises base) fun m c => Executed m (base ++ branch) path (base ++ c.branch)) := by
  rw [executeAction_eq]
  intro m₁ hg₁ m₂ hg₂
  have hentered := (hbranch.evolves hg₁).mem_log_enter path
  have hhosted := (hbranch.evolves hg₁).evolves (Machine.evolves_enter m₁ (base ++ branch) path)
  obtain ⟨hkin, hplace⟩ := (hhosted.evolves hg₂).fork (.place path)
  rw [List.append_assoc] at hkin hplace
  have hlog := (hg₂.trans (Machine.evolves_perform m₂ base (.fork branch (.place path)))).mem_log hhosted.there hentered
  refine Safe.imp (safe_actOn h hkin.right hplace (hkin.log_eq ▸ hlog)) fun m₃ r hg₃ hr => ?_
  cases r with
  | ok completed => exact ⟨(hkin.evolves hg₃).trans hr.kin, hg₃.mem_log hkin.left.there hlog⟩
  | error e => exact hr

/-- The directives of an object at a path: `setup` and `include` run there, and `include` may answer no map. -/
structure Directives.Honest (arises : ExecutionError → Prop) (path : Path) (directives : Directives) : Prop where
  setup : ∀ action ∈ directives.setup, action.Honest arises (path.directive "setup")
  include? : ∀ action ∈ directives.include?, action.Honest arises (path.directive "include")
  included : directives.include?.isSome = true →
    ∀ found branch, Leaves arises (path.directive "include") branch (.invalidInclude found)

/-- The `arrayMap` of an element at a path, which may answer no collection. -/
structure Action.HonestSource (arises : ExecutionError → Prop) (path : Path) (action : Action) : Prop where
  action : action.Honest arises (path.directive "array_map")
  source : ∀ found branch, Leaves arises (path.directive "array_map") branch (.invalidArrayMapSource found)

mutual

/-- A template at a path all actions of which are honest at their places. -/
def Template.Honest (arises : ExecutionError → Prop) : Template → Path → Prop
  | .scalar _, _ => True
  | .action action, path => action.Honest arises path
  | .object directives fields, path => directives.Honest arises path ∧ honestFields arises fields path
  | .list items, path => honestItems arises items path 0

/-- The same for the fields of an object. -/
def honestFields (arises : ExecutionError → Prop) : List (String × Template) → Path → Prop
  | [], _ => True
  | (key, t) :: rest, path => t.Honest arises (path.child (.key (outputKey key))) ∧ honestFields arises rest path

/-- The same for the elements of a list, the first of which has the given position. An element with `arrayMap` has any
number of places. -/
def honestItems (arises : ExecutionError → Prop) : List Template → Path → Nat → Prop
  | [], _, _ => True
  | t :: rest, path, i =>
    (match t with
      | .object ⟨setup, include?, some arrayMap⟩ fields =>
        arrayMap.HonestSource arises (path.child (.index i)) ∧
          ∀ n, Directives.Honest arises ((path.child (.index i)).child (.index n)) ⟨setup, include?, none⟩ ∧
            honestFields arises fields ((path.child (.index i)).child (.index n))
      | t => t.Honest arises (path.child (.index i))) ∧
      honestItems arises rest path (i + 1)

end

/-! ## The evaluator -/

/-- What a failure has been reported as stays that. -/
theorem reportedFrom_lasts (m m' : Machine) (e : ExecutionError) (_ : m.Evolves m') (h : ReportedFrom arises base m e) :
    ReportedFrom arises base m' e := h

/-- Honest actions fail with what has been reported, and leave a branch of a query whose log has their path. -/
def honestConduct (arises : ExecutionError → Prop) (base : Route) : Conduct where
  permits := MayReport arises
  fails := ReportedFrom arises base
  left m path last := m.Hosted last ∧ path ∈ (m.session last).log
  fails_lasts := reportedFrom_lasts
  left_lasts _ _ _ _ hg h := ⟨h.1.evolves hg, hg.mem_log h.1.there h.2⟩
  hosted _ _ _ h := h.1

theorem runs_of_honest {action : Action} (h : action.Honest arises path) :
    (honestConduct arises base).Runs base path action := by
  intro m branch hbranch
  refine Safe.imp (safe_executeAction h hbranch) fun m₁ r _ hr => ?_
  cases r with
  | ok completed => exact ⟨hr.kin.right, hr.kin.log_eq ▸ hr.entered⟩
  | error e => exact hr

/-- What arises at a place may be what an answer is rejected with there. -/
theorem rejects_of_leaves {place : Path} {e : EvalError} (h : ∀ branch, Leaves arises place branch (e.under base)) :
    (honestConduct arises base).Rejects base place e := by
  intro m own hleft
  show Reported arises ((e.wrap place (m.session (base ++ own)).log own).under base)
  rw [EvalError.under_wrap]
  exact (h _).wrap hleft.2

theorem Directives.Honest.evaluates {directives : Directives} (h : directives.Honest arises path) (keys : List String)
    {fields : Route → List (Prog (Except ExecutionError Value))}
    (hfields : ∀ m branch, m.Hosted (base ++ branch) → ∀ p ∈ fields branch,
      p.Safe (MayReport arises) base m (FailsWith (ReportedFrom arises base))) :
    (honestConduct arises base).Evaluates base fun branch => evalObject directives keys fields branch path :=
  Conduct.safe_evalObject keys (fun action ha => runs_of_honest (h.setup action ha))
    (fun action ha => runs_of_honest (h.include? action ha))
    (fun hi found => rejects_of_leaves (h.included hi found)) hfields

mutual

/-- **The evaluation of an honest template.** -/
theorem safe_evalTemplate : (t : Template) → (path : Path) → t.Honest arises path →
    (honestConduct arises base).Evaluates base fun branch => evalTemplate t branch path
  | .scalar _, _, _ => fun _ _ _ _ _ => trivial
  | .action _, _, h => Conduct.safe_leaf (runs_of_honest h)
  | .object _ fields, path, h => h.1.evaluates _ (safe_evalFields fields path h.2)
  | .list items, path, h => Conduct.safe_list (safe_evalItems items path 0 h)

theorem safe_evalFields : (fields : List (String × Template)) → (path : Path) → honestFields arises fields path →
    (m : Machine) → (branch : Route) → m.Hosted (base ++ branch) → ∀ p ∈ evalFields fields branch path,
    p.Safe (MayReport arises) base m (FailsWith (ReportedFrom arises base))
  | [], _, _, _, _, _ => nofun
  | (_, t) :: rest, path, h, m, branch, hbranch => List.forall_mem_cons.2
    ⟨Conduct.safe_onFork t (safe_evalTemplate t _ h.1) m branch hbranch, safe_evalFields rest path h.2 m branch hbranch⟩

theorem safe_evalItems : (items : List Template) → (path : Path) → (i : Nat) → honestItems arises items path i →
    (m : Machine) → (branch : Route) → m.Hosted (base ++ branch) → ∀ p ∈ evalItems items branch path i,
    p.Safe (MayReport arises) base m (FailsWith (ReportedFrom arises base))
  | [], _, _, _, _, _, _ => nofun
  | .object ⟨_, _, some _⟩ fields :: rest, path, i, h, m, branch, hbranch => by
    refine List.forall_mem_cons.2
      ⟨Conduct.safe_evalArrayMap (fun n => ?_) (runs_of_honest h.1.1.action)
        (fun found => rejects_of_leaves (h.1.1.source found)) m branch hbranch,
        safe_evalItems rest path (i + 1) h.2 m branch hbranch⟩
    exact (h.1.2 n).1.evaluates _ (safe_evalFields fields _ (h.1.2 n).2)
  | .object ⟨setup, include?, none⟩ fields :: rest, path, i, h, m, branch, hbranch => List.forall_mem_cons.2
    ⟨Conduct.safe_single _ (safe_evalTemplate (.object ⟨setup, include?, none⟩ fields) _ h.1) m branch hbranch,
      safe_evalItems rest path (i + 1) h.2 m branch hbranch⟩
  | .scalar v :: rest, path, i, h, m, branch, hbranch => List.forall_mem_cons.2
    ⟨Conduct.safe_single _ (safe_evalTemplate (.scalar v) _ h.1) m branch hbranch,
      safe_evalItems rest path (i + 1) h.2 m branch hbranch⟩
  | .action action :: rest, path, i, h, m, branch, hbranch => List.forall_mem_cons.2
    ⟨Conduct.safe_single _ (safe_evalTemplate (.action action) _ h.1) m branch hbranch,
      safe_evalItems rest path (i + 1) h.2 m branch hbranch⟩
  | .list items :: rest, path, i, h, m, branch, hbranch => List.forall_mem_cons.2
    ⟨Conduct.safe_single _ (safe_evalTemplate (.list items) _ h.1) m branch hbranch,
      safe_evalItems rest path (i + 1) h.2 m branch hbranch⟩

end

/-- The action that runs a chain and hands back its end. -/
def chaining (actions : List Action) : Action := (chain actions []).bind fun r => .done (r.map .context)

end MediaQuery
