import MediaQuery.Proofs.Machine.AfterWait
import MediaQuery.Proofs.Machine.Sealed
import MediaQuery.Proofs.Template.CurrentValue
import MediaQuery.Proofs.Template.Origin

/-!
# Chains

A chain waits for the values of its branch and then runs its actions, each as a step that begins on a fork of the branch
that the step before has left, with just what is held there (`Stage`, `Stages`). Running one list and then another is
running both as one (`executeActions_append`), so nothing comes after a step that has failed. The branch that the chain
starts from does not notice the steps (`Prog.Spares`). `stages_of_chain` puts it together.
-/

namespace MediaQuery

open Machine (Moment History AfterWait Advances Amid)
open Prog

variable {inputs : Inputs} {base branch : Route} {path : Path} {x y z : Moment} {α β : Type} {action : Action}
  {actions : List Action} {m m' : Machine} {e : ExecutionError}

/-! ## One list after another -/

/-- **Actions are run in order**: first those in front, and then the others from the branch that these have left. -/
theorem executeActions_append (xs ys : List Action) (branch : Route) (path : Path) (step : Nat) :
    executeActions (xs ++ ys) branch path step =
      ExceptT.run (ExceptT.mk (executeActions xs branch path step) >>= fun last =>
        ExceptT.mk (executeActions ys last path (step + xs.length))) := by
  induction xs generalizing branch step with
  | nil => rfl
  | cons action rest ih =>
    have hstep : step + (action :: rest).length = step + 1 + rest.length := by
      rw [List.length_cons]
      omega
    rw [List.cons_append, executeActions, hstep]
    simp only [ih]
    exact (congrArg ExceptT.run (bind_assoc (ExceptT.mk (executeAction action branch (path.withStep step)))
      (fun completed => ExceptT.mk (executeActions rest completed.branch path (step + 1))) _)).symm

/-- A chain is a wait, and then its actions at the path of the branch. -/
theorem chain_eq (actions : List Action) (branch : Route) : chain actions branch =
    ExceptT.run (ExceptT.mk (waitForPending branch) >>= fun _ => ExceptT.mk ((Prog.path branch).bind fun path =>
      (executeActions actions branch path 1).bind fun r => .done (r.mapError .nested))) := rfl

/-! ## Steps -/

/-- A fork on which an action begins holds what the branch holds. -/
theorem store_actionFork (base branch : Route) (path : Path) (m : Machine) :
    (actionFork base branch path m).2.store (base ++ (actionFork base branch path m).1) = m.store (base ++ branch) := by
  rw [← Machine.store_enter m (base ++ branch) (base ++ branch) path, actionFork, ← List.append_assoc]
  cases hn : (m.enter (base ++ branch) path).node? (base ++ branch) with
  | none =>
    have hchild (i : Nat) : (m.enter (base ++ branch) path).node? (base ++ branch ++ [i]) = none := by
      by_contra hsome
      have hthere := Branch.isSome_node?_of_prefix (Option.isSome_iff_ne_none.2 hsome)
      exact Option.isSome_iff_ne_none.1 hthere hn
    rw [Machine.addChild_of_none hn, Machine.store_of_none hn, Machine.store_of_none (hchild _)]
  | some n =>
    rw [Machine.addChild_position hn, Machine.store_fork hn, if_pos rfl, Machine.store_of_node? hn]
    rfl

/-- An action is run on a branch, from the first moment to its end at the second: it begins on a fork that holds just
what the branch holds. -/
structure Stage (action : Action) (base branch : Route) (path : Path) (x : Moment)
    (r : Except ExecutionError Completed) (y : Moment) : Prop where
  leads : (executeAction action branch path).Leads base x r y
  begins : ∃ begun own, x.Before begun ∧ branch <+: own ∧
    begun.machine.store (base ++ own) = x.machine.store (base ++ branch) ∧
    (∀ key, begun.machine.get (base ++ own) key = x.machine.get (base ++ branch) key) ∧
    (actOn action own path).Leads base begun r y

theorem stage_of_leads {r : Except ExecutionError Completed} (h : (executeAction action branch path).Leads base x r y) :
    Stage action base branch path x r y := by
  have hleads := h
  rw [executeAction_eq] at h
  obtain ⟨x₁, hentered, hm₁, x₂, hforked, hm₂, h⟩ := h
  rw [hm₁] at hm₂ h
  have hbegun : x₂.machine = (actionFork base branch path x.machine).2 := hm₂
  have hstore := store_actionFork base branch path x.machine
  refine ⟨hleads, x₂, _, hentered.trans hforked, List.prefix_append _ _, ?_, fun key => ?_, h⟩
  · rw [hbegun]
    exact hstore
  · rw [hbegun]
    exact Machine.get_of_slot? (Machine.slot?_of_store hstore key) rfl

/-- Actions are run in order from a branch, the first as the given step: each step begins at the moment and on the
branch that the one before has ended with. -/
inductive Stages (base : Route) (path : Path) :
    List Action → Route → Nat → Moment → Except ExecutionError Route → Moment → Prop
  | over (branch : Route) (step : Nat) (x : Moment) : Stages base path [] branch step x (.ok branch) x
  | failed {action : Action} {rest : List Action} {branch : Route} {step : Nat} {e : ExecutionError} {x y : Moment}
      (h : Stage action base branch (path.withStep step) x (.error e) y) :
      Stages base path (action :: rest) branch step x (.error e) y
  | next {action : Action} {rest : List Action} {branch : Route} {step : Nat} {completed : Completed}
      {r : Except ExecutionError Route} {x y z : Moment}
      (h : Stage action base branch (path.withStep step) x (.ok completed) y)
      (hrest : Stages base path rest completed.branch (step + 1) y r z) :
      Stages base path (action :: rest) branch step x r z

theorem stages_of_leads {step : Nat} {r : Except ExecutionError Route}
    (h : (executeActions actions branch path step).Leads base x r y) : Stages base path actions branch step x r y := by
  induction actions generalizing branch step x with
  | nil =>
    obtain ⟨rfl, rfl⟩ := h
    exact .over branch step y
  | cons action rest ih =>
    rw [executeActions] at h
    cases r with
    | ok last =>
      obtain ⟨completed, z, hstep, hrest⟩ := leads_andThen.1 h
      exact .next (stage_of_leads hstep) (ih hrest)
    | error e =>
      obtain hstep | ⟨completed, z, hstep, hrest⟩ := leads_error_andThen.1 h
      · exact .failed (stage_of_leads hstep)
      · exact .next (stage_of_leads hstep) (ih hrest)

/-- **Steps that have failed have done so with the first one that has failed.** -/
theorem Stages.exists_failing {step : Nat} (h : Stages base path actions branch step x (.error e) y) :
    ∃ before action after last z, actions = before ++ action :: after ∧
      Stages base path before branch step x (.ok last) z ∧
      Stage action base last (path.withStep (step + before.length)) z (.error e) y := by
  induction actions generalizing branch step x with
  | nil => cases h
  | cons first rest ih =>
    cases h with
    | failed h => exact ⟨[], first, rest, branch, x, rfl, .over branch step x, h⟩
    | next h hrest =>
      obtain ⟨before, action, after, last, z, rfl, hbefore, hfails⟩ := ih hrest
      refine ⟨first :: before, action, after, last, z, rfl, .next h hbefore, ?_⟩
      rwa [List.length_cons, Nat.add_comm before.length, ← Nat.add_assoc]

/-- A failure that leaves an action at a path has the path, unless it comes from further down as it is. -/
theorem Breaks.path_eq_or (h : Breaks action base path x y e) : e.path = path ∨ ∃ own, x.Meanwhile y fun x y =>
    (action.on own).Leads base x (.error (.nested e)) y ∨
      (waitForPending own).Leads base x (.error (.nested e)) y := by
  have hwrap (error : EvalError) (log : List Path) (own : Route) (he : e = error.wrap path log own) :
      e.path = path ∨ error = .nested e := by
    subst he
    cases error with
    | nested inner => exact .inr rfl
    | _ => exact .inl rfl
  cases h with
  | answer own log error hmeanwhile he =>
    obtain hpath | rfl := hwrap error log own he
    · exact .inl hpath
    · obtain ⟨x₁, y₁, hbefore, hleads, hafter⟩ := hmeanwhile
      exact .inr ⟨own, x₁, y₁, hbefore, .inl hleads, hafter⟩
  | value waited log error hmeanwhile he =>
    obtain hpath | rfl := hwrap error log waited he
    · exact .inl hpath
    · obtain ⟨x₁, y₁, hbefore, hleads, hafter⟩ := hmeanwhile
      exact .inr ⟨waited, x₁, y₁, hbefore, .inr hleads, hafter⟩

/-! ## The branch that a chain starts from -/

namespace Machine

variable {a b place : Route} {T : Route → Prop}

/-- A branch holds what it has held, at the same path and with the same results. -/
structure Retains (a : Route) (m m' : Machine) : Prop where
  store : m'.store a = m.store a
  path : m'.path a = m.path a
  history : m'.history a = m.history a

theorem Retains.refl (a : Route) (m : Machine) : Retains a m m := ⟨rfl, rfl, rfl⟩

theorem Retains.trans {m'' : Machine} (h : Retains a m m') (h' : Retains a m' m'') : Retains a m m'' :=
  ⟨h'.store.trans h.store, h'.path.trans h.path, h'.history.trans h.history⟩

theorem retains_of_node? {f : Node → Node} (h : m'.node? a = (m.node? a).map f)
    (hf : ∀ n, (f n).store = n.store ∧ (f n).path = n.path ∧ (f n).results = n.results) : Retains a m m' := by
  constructor
  · rw [store_eq, store_eq, h]
    cases m.node? a with
    | none => rfl
    | some n => exact (hf n).1
  · rw [path_eq, path_eq, h]
    cases m.node? a with
    | none => rfl
    | some n => exact (hf n).2.1
  · rw [history_eq, history_eq, h]
    cases m.node? a with
    | none => rfl
    | some n => exact (hf n).2.2

theorem retains_enter (m : Machine) (a b : Route) (path : Path) : Retains a m (m.enter b path) := by
  have hnode := node?_enter m b a path
  split at hnode
  · exact retains_of_node? hnode fun n => ⟨rfl, rfl, rfl⟩
  · exact retains_of_node? (hnode.trans Option.map_id'.symm) fun n => ⟨rfl, rfl, rfl⟩

theorem retains_fork (m : Machine) (a : Route) (options : ForkOptions) :
    Retains a m (m.addChild a fun c => c.forkOf options).2 := by
  cases hn : m.node? a with
  | none =>
    rw [addChild_of_none hn]
    exact .refl a m
  | some n =>
    refine retains_of_node? (f := fun n => { n with degree := n.degree + 1 }) ?_ fun n => ⟨rfl, rfl, rfl⟩
    rw [node?_fork hn, if_pos rfl, hn]
    rfl

theorem Confined.retains (h : Confined T m m') (ha : ¬ T a) : Retains a m m' := by
  have hnode {γ : Type} (f : Node → γ) (hf : ∀ n, f n.bare = f n) : (m'.node? a).map f = (m.node? a).map f := by
    have hbare := congrArg (Option.map f) (h.node a ha)
    simpa only [Option.map_map, Function.comp_def, hf] using hbare
  refine ⟨h.store_eq ha, ?_, ?_⟩
  · rw [path_eq, path_eq, hnode Node.path fun _ => rfl]
  · rw [history_eq, history_eq, hnode Node.results fun _ => rfl]

/-- A branch off the place does not notice what a run does that uses only what is below the place. -/
theorem retains_of_advances {r r' : Run α × Machine} (hr : r.1.Uses (place <+: ·) base fun _ => True)
    (ha : Away place a) (h : Advances place base r r') :
    Retains a r.2 r'.2 ∧ r'.1.Uses (place <+: ·) base fun _ => True := by
  cases h with
  | resume run m =>
    obtain ⟨hconfined, huses⟩ := confined_resume hr (settled_below place m)
    exact ⟨hconfined.retains ha, huses⟩
  | @future run m m' f hf h =>
    obtain ⟨taken, rfl⟩ := takeOn_of_runFuture h
    have hconfined := confined_takeOn (settled_below place m) hf (taken.uses_below hf)
    have hqueued : Retains a (m.takeOn f taken) (m.takeOn f taken).enqueue := ⟨rfl, rfl, rfl⟩
    exact ⟨(hconfined.retains ha).trans hqueued, hr⟩

theorem uses_of_amid {r r' : Run α × Machine} (hr : r.1.Uses (place <+: ·) base fun _ => True)
    (h : Relation.ReflTransGen (Amid place base) r r') : r'.1.Uses (place <+: ·) base fun _ => True := by
  induction h with
  | refl => exact hr
  | tail _ h ih =>
    cases h with
    | @own y z h =>
      cases h with
      | resume run m => exact (confined_resume ih (settled_below place m)).2
      | future run hf h => exact ih
    | others run h => exact ih

theorem nextChild_eq (m : Machine) (a : Route) : m.nextChild a = ((m.node? a).map Node.degree).getD 0 := by
  unfold nextChild branch? node? Branch.node?
  cases m.tree.at? a <;> rfl

theorem nextChild_enter (m : Machine) (a b : Route) (path : Path) :
    (m.enter b path).nextChild a = m.nextChild a := by
  rw [nextChild_eq, nextChild_eq, node?_enter]
  split
  · rw [Option.map_map]
    rfl
  · rfl

end Machine

open Machine (Retains)

/-- What a program on a branch does by itself is not noticed on the branch: not when it starts, and not when it is taken
on later in the midst of whatever others do, or a future is that it has started below its fork of the branch. -/
structure Prog.Spares (p : Prog α) (base branch : Route) (m : Machine) : Prop where
  start : Retains (base ++ branch) m (p.start base m).2
  advance : ∀ r r', Relation.ReflTransGen (Amid (base ++ branch ++ [m.nextChild (base ++ branch)]) base)
    (p.start base m) r → Advances (base ++ branch ++ [m.nextChild (base ++ branch)]) base r r' →
    Retains (base ++ branch) r.2 r'.2

/-- A program that goes below forks of a branch has started. -/
theorem retains_start_of_nests {p : Prog α} (h : Nests base branch p) (m : Machine) :
    Retains (base ++ branch) m (p.start base m).2 ∧
      (p.start base m).1.Uses (base ++ branch ++ [m.nextChild (base ++ branch)] <+: ·) base fun _ => True := by
  induction h generalizing m with
  | done a => exact ⟨.refl _ m, .done trivial⟩
  | @fork path k hk =>
    let forked := m.addChild (base ++ branch) fun c => c.forkOf (.place path)
    obtain ⟨hconfined, huses⟩ := Machine.confined_start (hk forked.1) (Machine.settled_below _ forked.2)
    have haway := Machine.away_nextChild m (base ++ branch)
    exact ⟨(Machine.retains_fork m _ _).trans (hconfined.retains haway), huses⟩
  | enter path _ ih =>
    obtain ⟨hretains, huses⟩ := ih (m.enter (base ++ branch) path)
    rw [Machine.nextChild_enter] at huses
    exact ⟨(Machine.retains_enter m _ _ path).trans hretains, huses⟩

/-- **It spares the branch.** -/
theorem spares_of_nests {p : Prog α} (h : Nests base branch p) (m : Machine) : p.Spares base branch m := by
  obtain ⟨hretains, huses⟩ := retains_start_of_nests h m
  exact ⟨hretains, fun r r' hr hr' =>
    (Machine.retains_of_advances (Machine.uses_of_amid huses hr) (Machine.away_nextChild m _) hr').1⟩

theorem uses_executeActions {T : Route → Prop} {step : Nat} (hall : ∀ action : Action, action.Within T)
    (hb : T branch) : (executeActions actions branch path step).Uses T [] (IfOk T) := by
  induction actions generalizing branch step with
  | nil =>
    refine .done fun last heq => ?_
    cases heq
    exact hb
  | cons action rest ih => exact ((hall action).execute hb _).andThen fun completed hc => ih hc

/-- All steps of a chain go below the fork of the first one. -/
theorem nests_executeActions (actions : List Action) (base branch : Route) (path : Path) (step : Nat) :
    Nests base branch (executeActions actions branch path step) := by
  cases actions with
  | nil => exact .done _
  | cons action rest =>
    refine nests_execute fun own r hr => ?_
    cases r with
    | ok completed =>
      exact (uses_executeActions (fun action => action.within_below own) (hr completed rfl)).mono (fun _ h => h)
        (fun _ _ h => h.trans (List.prefix_append _ _)) fun _ _ _ _ => trivial
    | error e => exact .done nofun

/-! ## Chains -/

namespace Machine.Moment

variable {a : Route} {state : Wait ⊕ Except EvalError Unit} {r : Except EvalError Unit}

/-- A wait that is over is still over as long as nothing has become of the machine. -/
theorem Held.later (h : Held a state x r y) (hy : y.Before z) (hm : z.machine = y.machine) :
    ∃ x', x.Before x' ∧ x'.machine = x.machine ∧ Held a state x' r z := by
  induction h with
  | finished r y => exact ⟨z, hy, hm, .finished r z⟩
  | @on wait x x₁ x₂ y r hothers hsteps hm₂ hrest ih =>
    obtain ⟨x₂', hlater, hm₂', hrest⟩ := ih hy hm
    refine ⟨x, .refl x, rfl, .on hothers (hsteps.trans hlater) (hm₂'.trans hm₂) hrest⟩

theorem Waits.later (h : Waits a x r y) (hy : y.Before z) (hm : z.machine = y.machine) : Waits a x r z := by
  obtain ⟨x₁, hsteps, hm₁, hheld⟩ := h
  obtain ⟨x₁', hlater, hm₁', hheld⟩ := hheld.later hy hm
  exact ⟨x₁', hsteps.trans hlater, hm₁'.trans hm₁, hheld⟩

end Machine.Moment

/-- A chain has waited for the values of its branch; then it has failed like the wait, or it has gone through its
steps. -/
theorem stages_or_failed_of_leads {r : Except EvalError Route}
    (hb : (x.machine.node? (base ++ branch)).isSome = true) (h : (chain actions branch).Leads base x r y) :
    ∃ own settled, x.Waits (base ++ branch) own settled ∧
      (∀ e, own = .error e → r = .error (e.under branch) ∧ y = settled) ∧
      (own = .ok () → ∃ last, r = last.mapError .nested ∧
        Stages base (x.machine.path (base ++ branch)) actions branch 1 settled last y) := by
  rw [chain_eq] at h
  obtain ⟨_, settled, ⟨own, _, hwaits, rfl, rfl⟩, h⟩ := leads_bind.1 h
  cases own with
  | error e =>
    refine ⟨.error e, settled, hwaits, fun e' he => ?_, nofun⟩
    cases he
    exact h
  | ok _ =>
    obtain ⟨path, begun, ⟨_, hbegun, hm, rfl, rfl⟩, h⟩ := leads_bind.1 h
    obtain ⟨last, _, hsteps, rfl, rfl⟩ := leads_bind.1 h
    refine ⟨.ok (), begun, hwaits.later hbegun hm, nofun, fun _ => ⟨last, rfl, ?_⟩⟩
    rw [← hwaits.before.evolves.path hb]
    exact stages_of_leads hsteps

/-- **A chain runs its actions in order, beside its branch.** Once the values of the branch have been waited for, which
fails the chain with the failure that the wait has, each action is a step that begins with what the one before has left,
and the first one that fails is the last one: its failure has the path of the branch at that step, unless it comes from
further down. To run one list and then another is to run both as one. And what the steps do is not noticed on the
branch. -/
theorem stages_of_chain (hx : History inputs x.past x.machine)
    (hb : (x.machine.node? (base ++ branch)).isSome = true) (actions : List Action) :
    (∀ r y, (chain actions branch).Leads base x r y → ∃ own settled,
      x.Waits (base ++ branch) own settled ∧
      (x.Without settled (fun e => ∃ key, e.Writes (base ++ branch) key) →
        AfterWait x (base ++ branch) own settled) ∧
      (∀ e, own = .error e → r = .error (e.under branch) ∧ y = settled) ∧
      (own = .ok () → ∃ last, r = last.mapError .nested ∧
        Stages base (x.machine.path (base ++ branch)) actions branch 1 settled last y ∧
        ∀ e, last = .error e → ∃ before action after c z, actions = before ++ action :: after ∧
          Stages base (x.machine.path (base ++ branch)) before branch 1 settled (.ok c) z ∧
          Stage action base c ((x.machine.path (base ++ branch)).withStep (before.length + 1)) z (.error e) y ∧
          (e.path = (x.machine.path (base ++ branch)).withStep (before.length + 1) ∨
            ∃ own, z.Meanwhile y fun x y => (action.on own).Leads base x (.error (.nested e)) y ∨
              (waitForPending own).Leads base x (.error (.nested e)) y))) ∧
    (∀ xs ys b path n (m : Machine), m.run (executeActions (xs ++ ys) b path n) =
      match m.run (executeActions xs b path n) with
      | (some (.ok last), m') => m'.run (executeActions ys last path (n + xs.length))
      | (some (.error e), m') => (some (.error e), m')
      | (none, m') => (none, m')) ∧
    ∀ path m, (executeActions actions branch path 1).Spares base branch m := by
  refine ⟨fun r y h => ?_, fun xs ys b path n m => ?_, fun path m => spares_of_nests (nests_executeActions ..) m⟩
  · obtain ⟨own, settled, hwaits, hfailed, hsteps⟩ := stages_or_failed_of_leads hb h
    refine ⟨own, settled, hwaits, Machine.afterWait_of_waits hwaits hx hb, hfailed, fun hok => ?_⟩
    obtain ⟨last, hr, hstages⟩ := hsteps hok
    refine ⟨last, hr, hstages, fun e he => ?_⟩
    subst he
    obtain ⟨before, action, after, c, z, hactions, hbefore, hfails⟩ := hstages.exists_failing
    rw [Nat.add_comm] at hfails
    exact ⟨before, action, after, c, z, hactions, hbefore, hfails, (breaks_of_executeAction hfails.leads).path_eq_or⟩
  · rw [executeActions_append, Machine.run_andThen]
    cases m.run (executeActions xs b path n) with
    | mk answer? m' => cases answer? with
      | none => rfl
      | some answer => cases answer <;> rfl

/-! ## A step that fails, and a value that does -/

/-- Actions of which the second fails. -/
def failingSecond : List Action := [answeringAction (.string "one"), .done (.error (.action "boom" []))]

/-- The chain ends with the second step, which its failure names. -/
theorem stages_of_failingSecond : History .blank [] (.start .blank) ∧
    ((Machine.start .blank).node? ([] ++ [])).isSome = true ∧ ∃ e past' m',
      (chain failingSecond []).Leads [] ⟨[], .start .blank⟩ (.error (.nested e)) ⟨past', m'⟩ ∧
      e.path = Path.root.withStep 2 ∧
      ∃ before action after c z, failingSecond = before ++ action :: after ∧
        Stage action [] c (Path.root.withStep (before.length + 1)) z (.error e) ⟨past', m'⟩ := by
  obtain ⟨e, m', hrun, hpath, hgeneration⟩ : ∃ e m', (Machine.start .blank).run (chain failingSecond []) =
      (some (.error (.nested e)), m') ∧ e.path = Path.root.withStep 2 ∧ (m'.store []).generation = 0 :=
    ⟨_, _, Machine.drive_of_result rfl _, rfl, rfl⟩
  obtain ⟨past', -, hleads⟩ := Machine.leads_of_run (Machine.steady_start .blank) hrun
  refine ⟨.start, rfl, e, past', m', hleads, hpath, ?_⟩
  obtain ⟨own, settled, hwaits, hafter, hfailed, hsteps⟩ :=
    (stages_of_chain .start rfl failingSecond).1 _ _ hleads
  cases own with
  | error error =>
    -- there is nothing to wait for that could have failed
    obtain ⟨-, hsettled⟩ := hfailed error rfl
    subst hsettled
    obtain ⟨id, hid, -⟩ := (hafter (hleads.before.without_of_generation hgeneration)).error error rfl
    cases hid
  | ok _ =>
    obtain ⟨last, hlast, -, hfails⟩ := hsteps rfl
    cases last with
    | ok _ => cases hlast
    | error e' =>
      cases hlast
      obtain ⟨before, action, after, c, z, hactions, -, hstage, -⟩ := hfails e rfl
      exact ⟨before, action, after, c, z, hactions, hstage⟩

/-- A machine whose second branch has a value from the first that cannot be computed. -/
def inheritingFailure : Machine :=
  (((Machine.start .blank).spawn [] "k" (.done (.error (.action "boom" [])))).perform [] (.fork [] .plain)).2

/-- A chain from there does not fail, though the value does. -/
theorem ok_beside_inherited_failure : ∃ id, inheritingFailure.slot? [0] "k" = some (.pending id) ∧ ∃ m',
    inheritingFailure.run (chain [answeringAction .null] [0]) = (some (.ok [0, 0]), m') ∧
      m'.outcome id = .failed ∧ m'.slot? [0] "k" = none :=
  ⟨_, rfl, _, Machine.drive_of_turns (k := 2) rfl rfl, rfl, rfl⟩

end MediaQuery
