import MediaQuery.Proofs.Machine.Grown
import MediaQuery.Proofs.Template.Chain
import MediaQuery.Proofs.Template.Entries

/-!
# The path of an action

An action is run at a path. Its entry names that path, and so does what it fails with, unless that comes from further
down as it is. The branch that it begins on is a fork at the path, and has it without the step of a chain
(`Located`). So the three agree for whatever the evaluator runs, since the places of a template have no step
(`located_of_history`); the step of a chain is in the log and in errors, and not to be seen from the step itself.
-/

namespace MediaQuery

open Machine (Moment History)
open Prog

variable {inputs : Inputs} {base branch own : Route} {path shown : Path} {x y : Moment} {N : Set Note} {action : Action}
  {actions : List Action} {e : ExecutionError}

/-- The action hands on an error from further down: one that it has answered, or a value that is waited for. -/
def HandsOn (action : Action) (base : Route) (x y : Moment) (e : ExecutionError) : Prop :=
  ∃ own, x.Meanwhile y fun x y => (action.on own).Leads base x (.error (.nested e)) y ∨
    (waitForPending own).Leads base x (.error (.nested e)) y

/-- An action is run on a branch at a path: its entry has the path and is the first one; the branch that it begins on
has the path shown from then on; and what it fails with has the path, unless it comes from further down. -/
structure Located (shown : Path) (action : Action) (base branch : Route) (path : Path) (x : Moment) (N : Set Note)
    (r : Option (Except ExecutionError Completed)) (y : Moment) : Prop where
  entry : ∃ n ∈ N, n.branch = base ++ branch ∧ n.place = path ∧ n.Between x y ∧ ∀ n' ∈ N, n' ≠ n → n.Precedes n'
  begins : (x.machine.node? (base ++ branch)).isSome = true → ∃ own begun N', x.Before begun ∧ branch <+: own ∧
    (actOn action own path).Reaches base begun N' r y ∧ ∀ z, begun.Before z → z.machine.path (base ++ own) = shown
  fails : ∀ e, r = some (.error e) → e.path = path ∨ HandsOn action base x y e

/-- A path without the step of a chain is the same as a place. -/
theorem Path.join_nil_iff (path : Path) : path.join [] = path ↔ path.step = none := by
  obtain ⟨segments, step⟩ := path
  simp [Path.join, eq_comm]

/-- The fork on which an action begins is there, at the path. -/
theorem path_actionFork (hx : x.Rooted) (hb : (x.machine.node? (base ++ branch)).isSome = true) (path : Path) :
    ((actionFork base branch path x.machine).2.node? (base ++ (actionFork base branch path x.machine).1)).isSome = true ∧
      (actionFork base branch path x.machine).2.path (base ++ (actionFork base branch path x.machine).1) =
        path.join [] := by
  have hhosted : x.machine.Hosted (base ++ branch) := ⟨hb, Machine.isSome_session?_sessionRoute hx _⟩
  have hentered := hhosted.evolves (Machine.evolves_enter x.machine (base ++ branch) path)
  obtain ⟨hkin, hpath⟩ := hentered.fork (.place path)
  rw [actionFork, ← List.append_assoc]
  exact ⟨hkin.right.there, hpath⟩

/-- **Where an action is run.** -/
theorem runsAs_located (action : Action) (base branch : Route) (path : Path) :
    (executeAction action branch path).RunsAs base (Located (path.join []) action base branch path) := by
  refine ⟨?_⟩
  intro x N r y hx hreaches
  have hlogged := hreaches.logged hx
  cases (runsAs_executeAction action base branch path).reached hx hreaches with
  | intro hbegun hm h hfirst _ =>
    refine ⟨⟨_, Set.mem_insert _ _, rfl, rfl, hlogged _ (Set.mem_insert _ _), fun n' hn' hne => ?_⟩, fun hb => ?_,
      fun e he => ?_⟩
    · exact hfirst n' (Set.mem_of_mem_insert_of_ne hn' hne)
    · obtain ⟨hthere, hpath⟩ := path_actionFork hx hb path
      refine ⟨_, _, _, hbegun, List.prefix_append _ _, h, fun z hz => ?_⟩
      rw [← hm] at hthere hpath
      exact (hz.evolves.path hthere).trans hpath
    · subst he
      exact (breaks_of_executeAction (leads_of_reaches hreaches)).path_eq_or

/-- The account that actions are run where they are shown to be. -/
def locating (shown : Path → Path) (base : Route) : Account := fun action branch path =>
  Located (shown path) action base branch path

theorem locating_holds {shown : Path → Path} {places : Path → Prop} (base : Route)
    (h : ∀ path, places path → path.join [] = shown path) : (locating shown base).Holds base places := by
  intro action branch path hpath
  have hlocated := runsAs_located action base branch path
  rwa [h path hpath] at hlocated

/-- How far a chain has got: it waits, or has failed with the wait, and has entered nothing; or it has gone on to its
steps, which run at the path of the branch. -/
inductive ChainStretch (account : Account) (actions : List Action) (base branch : Route) (path : Path) (x : Moment) :
    Set Note → Option (Except EvalError Route) → Moment → Prop
  | waits {r : Option (Except EvalError Route)} {y : Moment} (hy : x.Before y)
      (h : ∀ result, r = some result →
        ∃ e settled, result = .error e ∧ (waitForPending branch).Leads base x (.error e) settled) :
      ChainStretch account actions base branch path x ∅ r y
  | steps {settled y : Moment} {N : Set Note} (last : Option (Except ExecutionError Route)) (hsettled : x.Before settled)
      (h : stepsStretch account actions branch path 1 settled N last y) :
      ChainStretch account actions base branch path x N (last.map fun r => r.mapError .nested) y

/-- A wait enters nothing. -/
theorem reaches_waitForPending {r : Option (Except EvalError Unit)}
    (h : (waitForPending branch).Reaches base x N r y) : N = ∅ := by
  rcases h with h | ⟨_, _, -, hN, -, -⟩
  · exact h.notes
  · exact hN

/-- **Where the steps of a chain are run.** -/
theorem reaches_chain {r : Option (Except EvalError Route)} {account : Account} {places : Path → Prop}
    (haccount : account.Holds base places)
    (hplaces : ∀ step, places ((x.machine.path (base ++ branch)).withStep step)) (hx : x.Rooted)
    (hb : (x.machine.node? (base ++ branch)).isSome = true) (h : (chain actions branch).Reaches base x N r y) :
    ChainStretch account actions base branch (x.machine.path (base ++ branch)) x N r y := by
  rw [chain_eq] at h
  rcases reaches_bind h with ⟨hwait, rfl⟩ | ⟨result, settled, N₁, N₂, hwait, h, rfl⟩
  · obtain rfl := reaches_waitForPending hwait
    exact .waits hwait.before nofun
  obtain rfl := reaches_waitForPending hwait
  rw [Set.empty_union]
  cases result with
  | error e =>
    obtain ⟨rfl, rfl, rfl⟩ := h
    refine .waits hwait.before fun result hresult => ?_
    cases hresult
    exact ⟨e, _, rfl, leads_of_reaches hwait⟩
  | ok _ =>
    obtain ⟨begun, N', hbegun, -, hrest, rfl⟩ := h
    simp only [Op.notes, Set.empty_union]
    have hbefore := hwait.before.trans hbegun
    have hrest : ((executeActions actions branch (settled.machine.path (base ++ branch)) 1).bind fun r =>
        .done (r.mapError .nested)).Reaches base begun N' r y := hrest
    rw [hwait.before.evolves.path hb] at hrest
    rcases reaches_bind hrest with ⟨hsteps, rfl⟩ | ⟨last, _, _, _, hsteps, ⟨rfl, rfl, rfl⟩, rfl⟩
    · have hstretch := (runsAs_executeActions haccount hplaces actions branch 1).reached (hbefore.rooted hx) hsteps
      exact .steps none hbefore hstretch
    · have hstretch := (runsAs_executeActions haccount hplaces actions branch 1).reached (hbefore.rooted hx) hsteps
      rw [Set.union_empty]
      exact .steps (some last) hbefore hstretch

/-- **An action's path.** Wherever an action is run, its entry and its own failure have the path that it is run at, and
the branch that it begins on has that path without the step of a chain. So all three are the same unless there is a
step. There is none for whatever the evaluator runs. The steps of a chain have theirs in the log and in failures, and
begin on branches with the path that the branch of the chain has. -/
theorem located_of_history (hx : History inputs x.past x.machine) :
    (∀ action base branch path,
      (executeAction action branch path).RunsAs base (Located (path.join []) action base branch path)) ∧
    (∀ path : Path, path.join [] = path ↔ path.step = none) ∧
    (∀ (t : Template) base branch N r y, (t.evaluate branch).Reaches base x N r y →
      evaluationStretch (locating id base) base t branch x N r y) ∧
    ∀ actions base branch N r y, (x.machine.node? (base ++ branch)).isSome = true →
      (chain actions branch).Reaches base x N r y →
        ChainStretch (locating (fun _ => x.machine.path (base ++ branch)) base) actions base branch
          (x.machine.path (base ++ branch)) x N r y ∧
        ∀ step, (x.machine.path (base ++ branch)).withStep step ≠ x.machine.path (base ++ branch) := by
  have hrooted : x.Rooted := Machine.isSome_session?_root hx
  have hstep := Machine.step_path_of_history hx
  refine ⟨runsAs_located, Path.join_nil_iff, fun t base branch N r y h => ?_, fun actions base branch N r y hb h => ?_⟩
  · have hholds : (locating id base).Holds base fun path => path.step = none :=
      locating_holds base fun path hpath => path.join_nil_iff.2 hpath
    exact reaches_evaluate hholds (fun _ _ => rfl) hrooted (hstep _) h
  · refine ⟨?_, fun step heq => ?_⟩
    · have hholds : (locating (fun _ => x.machine.path (base ++ branch)) base).Holds base fun path =>
          path.join [] = x.machine.path (base ++ branch) := locating_holds base fun path hpath => hpath
      refine reaches_chain hholds (fun step => ?_) hrooted hb h
      exact (x.machine.path (base ++ branch)).join_nil_iff.2 (hstep _)
    · have hnone := hstep (base ++ branch)
      rw [← heq] at hnone
      cases hnone

/-! ## A chain of one step -/

/-- An action that answers the path of the branch that it begins on. -/
def showingPath : Action := (Prog.path []).bind fun path => .done (.ok (.value (.string path.render)))

/-- The step is in the log, and the branch that the action begins on has the path of the chain. -/
theorem located_of_showingPath : History .blank [] (.start .blank) ∧ ∃ N past' m',
    (chain [showingPath] []).Reaches [] ⟨[], .start .blank⟩ N (some (.ok [0])) ⟨past', m'⟩ ∧
      (∃ n ∈ N, n.place = Path.root.withStep 1) ∧
      ∃ own begun, Moment.Before begun ⟨past', m'⟩ ∧ ∀ z, begun.Before z → z.machine.path own = .root := by
  obtain ⟨m', hrun⟩ : ∃ m', (Machine.start .blank).run (chain [showingPath] []) = (some (.ok [0]), m') :=
    ⟨_, Machine.drive_of_result rfl _⟩
  obtain ⟨past', N, -, hreaches⟩ := Machine.reaches_of_run (Machine.steady_start .blank) hrun
  refine ⟨.start, N, past', m', hreaches, ?_⟩
  have hroot : (Machine.start .blank).path [] = Path.root := rfl
  obtain ⟨hchain, -⟩ := (located_of_history (x := ⟨[], .start .blank⟩) .start).2.2.2 _ [] [] _ _ _ rfl hreaches
  generalize hr : some (Except.ok [0]) = r at hchain
  cases hchain with
  | waits _ h =>
    obtain ⟨e, _, heq, -⟩ := h _ hr.symm
    cases heq
  | @steps settled _ _ last hsettled h =>
    cases h with
    | underWay => cases hr
    | failed h => cases hr
    | onward h hrest _ =>
      obtain ⟨-, -, rfl⟩ := hrest
      obtain ⟨n, hn, -, hplace, -⟩ := h.entry
      obtain ⟨own, begun, N', -, -, hon, hpath⟩ := h.begins (hsettled.there rfl)
      exact ⟨⟨n, Set.mem_union_left _ hn, hplace.trans (congrArg (Path.withStep · 1) hroot)⟩, own, begun, hon.before, hpath⟩

/-- **The step of a chain does not see its path.** The action is told another one than is in the log. -/
theorem apart_in_chain : ∃ m', (Machine.start .blank).run (chain [showingPath] []) = (some (.ok [0]), m') ∧
    (m'.session []).log = [Path.root.withStep 1] ∧ m'.path [0] = Path.root ∧
    m'.get [0] currentKey = .ok (.string Path.root.render) ∧
    Path.root.render ≠ (Path.root.withStep 1).render :=
  ⟨_, Machine.drive_of_result rfl _, rfl, rfl, rfl, by decide⟩

end MediaQuery
