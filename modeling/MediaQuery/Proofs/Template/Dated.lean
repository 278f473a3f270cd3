import MediaQuery.Proofs.Template.Calm
import MediaQuery.Proofs.Template.Reported

/-!
# The logs that errors carry

An error carries the execution log as it was when the failure left its branch. As entries are only ever added at the end,
that log is the beginning of the one seen later (`ExecutionError.Dated`). An action is candid if it makes up no such
error itself: what it fails with is a failure of its own, or an error that is dated. Running a candid action, a chain of
them or a template of them fails with dated errors only (`runs_of_candid`, `candid_chain`, `dated_evaluate`).
-/

namespace MediaQuery

open Prog

variable {α : Type} {base branch own : Route} {path : Path} {m m' : Machine}

/-- The log of the error is the beginning of the log of the query that its branch belongs to. -/
structure ExecutionError.Dated (m : Machine) (e : ExecutionError) : Prop where
  hosted : m.Hosted e.branch
  log : e.log <+: (m.session e.branch).log

theorem ExecutionError.Dated.evolves {e : ExecutionError} (h : e.Dated m) (hg : m.Evolves m') : e.Dated m' :=
  ⟨h.hosted.evolves hg, h.log.trans (hg.log_prefix h.hosted.there)⟩

/-- A failure that wraps no error, or one that is dated. -/
def EvalError.Dated (m : Machine) : EvalError → Prop
  | .nested e => e.Dated m
  | _ => True

theorem EvalError.Dated.evolves {e : EvalError} (h : e.Dated m) (hg : m.Evolves m') : e.Dated m' := by
  cases e with
  | nested e => exact ExecutionError.Dated.evolves h hg
  | _ => trivial

/-- What leaves a branch carries the log as it is. -/
theorem EvalError.Dated.wrap {e : EvalError} (h : (e.under base).Dated m) (hown : m.Hosted (base ++ own)) (path : Path) :
    ((e.wrap path (m.session (base ++ own)).log own).under base).Dated m := by
  rw [EvalError.under_wrap]
  cases he : e.under base with
  | nested inner =>
    rw [he] at h
    exact h
  | _ => exact ⟨hown, List.prefix_rfl⟩

/-- Futures report failures of their own and dated errors, and so does whatever an action fails with. A branch that an
action has left is one of a query. -/
def datedConduct (base : Route) : Conduct where
  permits m _ e := e.Dated m
  fails m e := (e.under base).Dated m
  left m _ last := m.Hosted last
  fails_lasts _ _ _ hg h := h.evolves hg
  left_lasts _ _ _ _ hg h := h.evolves hg
  hosted _ _ _ h := h

/-- What futures may report: no error that has been made up. -/
abbrev ReportsDated (m : Machine) (_ : Route) (e : EvalError) : Prop := e.Dated m

theorem permissive_reportsDated : Permissive ReportsDated where
  lasts hg h := h.evolves hg
  stale _ _ := trivial

/-- A program on a branch at the base fails with failures of its own and dated errors. -/
abbrev FailsDated (base : Route) (m : Machine) (e : EvalError) : Prop := (e.under base).Dated m

/-- The action makes up no error that has been reported elsewhere, and hands back no branch that is not there. -/
def Action.Candid (action : Action) : Prop :=
  ∀ m own, m.Hosted own → action.Safe ReportsDated own m
    (Meets (FailsDated own) fun m output => ∀ route, output = .context route → m.Hosted (own ++ route))

/-! ## Actions -/

/-- A program whose failure leaves a branch. -/
theorem dated_wrapping {p : Prog (Except EvalError α)} {good : Machine → α → Prop}
    (hp : p.Safe ReportsDated base m (Meets (FailsDated base) good))
    (hgood : ∀ m m' a, m.Evolves m' → good m a → good m' a) (hbranch : m.Hosted (base ++ branch)) :
    (wrapping branch path p).Safe ReportsDated base m (Meets (datedConduct base).fails good) := by
  refine Safe.bind hp fun m₁ r hg hr => ?_
  cases r with
  | ok a => exact fun m₂ hg' => hgood m₁ m₂ a hg' hr
  | error e =>
    intro m₂ hg' m₃ hg''
    have hlate := hr.evolves hg'
    exact (hlate.wrap (hbranch.evolves (hg.trans hg')) path).evolves hg''

theorem dated_waitForPending (branch : Route) : (waitForPending branch).Safe ReportsDated base m
    (Meets (FailsDated base) fun _ _ => True) := by
  intro m₁ r hg hr
  cases r with
  | ok a => exact fun _ _ => trivial
  | error e =>
    intro m₂ hg'
    show ((e.under branch).under base).Dated m₂
    rw [EvalError.under_under]
    exact EvalError.Dated.evolves hr hg'

theorem dated_finishAction {completed : Completed} (hown : m.Hosted (base ++ own))
    (hbranch : m.Hosted (base ++ completed.branch)) :
    (finishAction own path completed).Safe ReportsDated base m
      (Meets (datedConduct base).fails fun m c => m.Hosted (base ++ c.branch)) := by
  have hwait {m : Machine} {waited : Route} (h : m.Hosted (base ++ waited)) :
      (wrapping waited path (waitForPending waited)).Safe ReportsDated base m
        (Meets (datedConduct base).fails fun _ _ => True) :=
    dated_wrapping (dated_waitForPending waited) (fun _ _ _ _ _ => trivial) h
  refine Safe.andThen (hwait hown) (fun m₁ _ hg _ => ?_) (datedConduct base).fails_lasts
  refine Safe.andThen (hwait (hbranch.evolves hg)) (fun m₂ _ hg' _ => ?_) (datedConduct base).fails_lasts
  exact fun m₃ hg'' => hbranch.evolves (hg.trans (hg'.trans hg''))

/-- **A candid action on a fork of its own.** -/
theorem dated_actOn {action : Action} (h : action.Candid) (hown : m.Hosted (base ++ own)) :
    (actOn action own path).Safe ReportsDated base m
      (Meets (datedConduct base).fails fun m c => m.Hosted (base ++ c.branch)) := by
  have hon : (action.on own).Safe ReportsDated base m
      (Meets (FailsDated base) fun m output => ∀ route, output = .context route → m.Hosted (base ++ own ++ route)) := by
    refine Safe.bind (Safe.under (h m (base ++ own) hown)) fun m₁ r _ hr => ?_
    intro m₂ hg
    cases r with
    | ok output => exact fun route ho => (hr route ho).evolves hg
    | error e =>
      show ((e.under own).under base).Dated m₂
      rw [EvalError.under_under]
      exact EvalError.Dated.evolves hr hg
  refine Safe.andThen (dated_wrapping hon (fun _ _ _ hg hk route ho => (hk route ho).evolves hg) hown)
    (fun m₁ output hg houtput => ?_) (datedConduct base).fails_lasts
  refine Safe.andThenLift (safe_keepOutput (fun _ _ _ hg h => h.evolves hg) (hown.evolves hg) houtput)
    fun m₂ completed hg' hdone => ?_
  exact dated_finishAction (hown.evolves (hg.trans hg')) hdone

/-- **A candid action that is run on a branch.** -/
theorem runs_of_candid {action : Action} (h : action.Candid) (base : Route) (path : Path) :
    (datedConduct base).Runs base path action := by
  intro m branch hbranch
  rw [executeAction_eq]
  intro m₁ hg₁ m₂ hg₂
  have hentered := (hbranch.evolves hg₁).evolves (Machine.evolves_enter m₁ (base ++ branch) path)
  obtain ⟨hkin, -⟩ := (hentered.evolves hg₂).fork (.place path)
  have hown := hkin.right
  rw [List.append_assoc] at hown
  exact dated_actOn h hown

/-! ## Chains -/

theorem dated_executeActions {actions : List Action} (h : ∀ action ∈ actions, action.Candid) (step : Nat)
    (hbranch : m.Hosted (base ++ branch)) :
    (executeActions actions branch path step).Safe ReportsDated base m
      (Meets (datedConduct base).fails fun m last => m.Hosted (base ++ last)) := by
  induction actions generalizing branch step m with
  | nil => exact fun m' hg => hbranch.evolves hg
  | cons action rest ih =>
    obtain ⟨haction, hrest⟩ := List.forall_mem_cons.1 h
    exact Safe.andThen (runs_of_candid haction base _ m branch hbranch) (fun m₁ completed _ hdone =>
      ih hrest (step + 1) hdone) (datedConduct base).fails_lasts

/-- **A chain of candid actions.** -/
theorem candid_chain {actions : List Action} (h : ∀ action ∈ actions, action.Candid)
    (hbranch : m.Hosted (base ++ branch)) :
    (chain actions branch).Safe ReportsDated base m
      (Meets (FailsDated base) fun m last => m.Hosted (base ++ last)) := by
  refine Safe.andThen (dated_waitForPending branch) (fun m₁ _ hg _ => ?_) fun _ _ _ hg h => h.evolves hg
  refine Safe.andThenLift (safe_operation (.path branch)) fun m₂ path _ hg' => ?_
  refine Safe.bind (dated_executeActions h 1 ((hbranch.evolves hg).evolves hg')) fun m₃ r hg'' hr => ?_
  intro m₄ hg₄
  cases r with
  | ok last => exact hr.evolves hg₄
  | error e => exact ExecutionError.Dated.evolves hr hg₄

/-! ## Templates -/

theorem rejects_dated (base : Route) (place : Path) {e : EvalError} (h : ∀ m, (e.under base).Dated m) :
    (datedConduct base).Rejects base place e := fun m _ hown => (h m).wrap hown place

theorem evaluates_candid_object {directives : Directives} (h : directives.Every Action.Candid) (keys : List String)
    {fields : Route → List (Prog (Except ExecutionError Value))}
    (hfields : ∀ m branch, m.Hosted (base ++ branch) → ∀ p ∈ fields branch,
      p.Safe ReportsDated base m (FailsWith (datedConduct base).fails)) :
    (datedConduct base).Evaluates base fun branch => evalObject directives keys fields branch path :=
  Conduct.safe_evalObject keys (fun action ha => runs_of_candid (h.setup action ha) base _)
    (fun action ha => runs_of_candid (h.include? action ha) base _)
    (fun _ _ => rejects_dated base _ fun _ => trivial) hfields

mutual

/-- **The evaluation of a template with candid actions.** -/
theorem dated_evalTemplate : (t : Template) → (path : Path) → t.Every Action.Candid →
    (datedConduct base).Evaluates base fun branch => evalTemplate t branch path
  | .scalar _, _, _ => fun _ _ _ _ _ => trivial
  | .action _, _, h => Conduct.safe_leaf (runs_of_candid h base _)
  | .object _ fields, path, h => evaluates_candid_object h.1 _ (dated_evalFields fields path h.2)
  | .list items, path, h => Conduct.safe_list (dated_evalItems items path 0 h)

theorem dated_evalFields : (fields : List (String × Template)) → (path : Path) → everyField Action.Candid fields →
    (m : Machine) → (branch : Route) → m.Hosted (base ++ branch) → ∀ p ∈ evalFields fields branch path,
    p.Safe ReportsDated base m (FailsWith (datedConduct base).fails)
  | [], _, _, _, _, _ => nofun
  | (_, t) :: rest, path, h, m, branch, hbranch => List.forall_mem_cons.2
    ⟨Conduct.safe_onFork t (dated_evalTemplate t _ h.1) m branch hbranch, dated_evalFields rest path h.2 m branch hbranch⟩

theorem dated_evalItems : (items : List Template) → (path : Path) → (i : Nat) → everyItem Action.Candid items →
    (m : Machine) → (branch : Route) → m.Hosted (base ++ branch) → ∀ p ∈ evalItems items branch path i,
    p.Safe ReportsDated base m (FailsWith (datedConduct base).fails)
  | [], _, _, _, _, _, _ => nofun
  | .object ⟨_, _, some arrayMap⟩ fields :: rest, path, i, h, m, branch, hbranch => by
    refine List.forall_mem_cons.2
      ⟨Conduct.safe_evalArrayMap (fun n => ?_) (runs_of_candid (h.1.1.arrayMap arrayMap rfl) base _)
        (fun _ => rejects_dated base _ fun _ => trivial) m branch hbranch,
        dated_evalItems rest path (i + 1) h.2 m branch hbranch⟩
    exact evaluates_candid_object h.1.element.1 _ (dated_evalFields fields _ h.1.2)
  | .object ⟨setup, include?, none⟩ fields :: rest, path, i, h, m, branch, hbranch => List.forall_mem_cons.2
    ⟨Conduct.safe_single _ (dated_evalTemplate (.object ⟨setup, include?, none⟩ fields) _ h.1) m branch hbranch,
      dated_evalItems rest path (i + 1) h.2 m branch hbranch⟩
  | .scalar v :: rest, path, i, h, m, branch, hbranch => List.forall_mem_cons.2
    ⟨Conduct.safe_single _ (dated_evalTemplate (.scalar v) _ h.1) m branch hbranch,
      dated_evalItems rest path (i + 1) h.2 m branch hbranch⟩
  | .action action :: rest, path, i, h, m, branch, hbranch => List.forall_mem_cons.2
    ⟨Conduct.safe_single _ (dated_evalTemplate (.action action) _ h.1) m branch hbranch,
      dated_evalItems rest path (i + 1) h.2 m branch hbranch⟩
  | .list items :: rest, path, i, h, m, branch, hbranch => List.forall_mem_cons.2
    ⟨Conduct.safe_single _ (dated_evalTemplate (.list items) _ h.1) m branch hbranch,
      dated_evalItems rest path (i + 1) h.2 m branch hbranch⟩

end

/-- **An evaluation inside of an action or on its own.** -/
theorem dated_evaluate {t : Template} (ht : t.Every Action.Candid) (base : Route) :
    (datedConduct base).Evaluates base t.evaluate := by
  intro m branch hbranch
  refine Safe.bind (safe_operation (.path branch)) fun m₁ path _ hg => ?_
  split
  · intro m₂ hg₂ m₃ hg₃
    have hown := hbranch.evolves (hg.trans hg₂)
    have hbare : (EvalError.arrayMapOutsideList.under base).Dated m₂ := trivial
    exact (hbare.wrap hown _).evolves hg₃
  · exact dated_evalTemplate t _ ht m₁ branch (hbranch.evolves hg)

/-- **The log that an evaluation's error carries** is the beginning of what is in the log at the end. -/
theorem dated_of_run {t : Template} {e : ExecutionError} (ht : t.Every Action.Candid) (hm : m.Secure ReportsDated)
    (hbranch : m.Hosted branch) (hrun : m.run (t.evaluate branch) = (some (.error e), m')) : e.Dated m' := by
  have hsafe : (t.evaluate branch).Safe ReportsDated [] m (FailsWith (datedConduct []).fails) :=
    dated_evaluate ht [] m branch hbranch
  have hends := Machine.safe_run permissive_reportsDated hm hsafe
  rw [hrun] at hends
  have hdated : (e.under []).Dated m' := hends.result (.error e) rfl
  rwa [ExecutionError.under_nil] at hdated

end MediaQuery
