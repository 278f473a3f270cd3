import MediaQuery.Proofs.Machine.Registered
import MediaQuery.Proofs.Template.Calm
import MediaQuery.Proofs.Template.Chain
import MediaQuery.Proofs.Template.Ordered

/-!
# The forks of an evaluation

Whatever enters a path forks for it: an action when it is run, and so every evaluation and every chain, if its actions do
the same with what they enter by themselves (`registers_evaluate`, `registers_chain`). So the tree of the forks of a
branch, which its descendants are whatever has happened, has a branch for every path that an evaluation on it has entered
(`forkTree_of_evaluation`).
-/

namespace MediaQuery

open Machine (Event Moment Steady ForkTree Registered Proceeds ProceedsAmid)
open Prog

variable {free : Path → Prop} {inputs : Inputs} {past : List Event} {K : Set Route} {base branch own : Route}
  {path : Path} {m : Machine}
  {α β : Type} {action : Action} {actions : List Action}

/-! ## What programs are put together from -/

theorem registers_fork (hb : branch ∈ K) (options : ForkOptions) :
    (fork branch options).Registers free K fun K own => own ∈ K :=
  .operate (.fork branch options) not_false hb fun _ => .done fun _ hK => hK (Set.mem_insert _ _)

theorem registers_setAll (hb : branch ∈ K) (values : List (String × Value)) :
    (setAll branch values).Registers free K fun _ _ => True := by
  induction values with
  | nil => exact .done fun _ _ => trivial
  | cons e rest ih => exact .operate (.set branch e.1 e.2) not_false hb fun _ => ih

theorem registers_log (hb : branch ∈ K) : (log branch).Registers free K fun _ _ => True :=
  .operate (.log branch) not_false hb fun _ => .done fun _ _ => trivial

theorem registers_waitForPending (hb : branch ∈ K) :
    (waitForPending branch).Registers free K fun _ r => IfOk (fun _ => True) r :=
  .settle hb fun _ => .done fun _ _ _ _ => trivial

/-- A failure that leaves its branch. -/
theorem Prog.Registers.wrapping {p : Prog (Except EvalError α)} {Q : Set Route → α → Prop}
    (hQ : ∀ K K' answer, K ⊆ K' → Q K answer → Q K' answer) (h : p.Registers free K fun K r => IfOk (Q K) r)
    (hb : branch ∈ K) (path : Path) : (Prog.wrapping branch path p).Registers free K fun K r => IfOk (Q K) r := by
  refine h.bind fun K' hK r hr => ?_
  cases r with
  | ok a => exact .done fun K'' hK' a' heq => Except.ok.inj heq ▸ hQ K' K'' a hK' (hr a rfl)
  | error e => exact (registers_log (hK hb)).bind fun _ _ _ _ => .done fun _ _ => nofun

/-! ## Actions -/

/-- An output hands back only a branch that is known. -/
def Output.Known (K : Set Route) (output : Output) : Prop := ∀ further, output = .context further → further ∈ K

/-- An action registers what it enters, and hands no branch back that it does not know. To begin with it knows its
own. -/
def Action.Registers (free : Path → Prop) (action : Action) : Prop :=
  Prog.Registers free {[]} (fun K r => IfOk (Output.Known K) r) action

theorem Action.Registers.on (h : action.Registers free) (hown : own ∈ K) :
    (action.on own).Registers free K fun K r => IfOk (Output.Known (lowered own K)) r := by
  have hknown : {[]} ⊆ lowered own K := by
    refine Set.singleton_subset_iff.2 ?_
    rwa [lowered, Set.mem_preimage, List.append_nil]
  refine (Prog.Registers.mono h hknown).under.bind fun K' hK r hr => .done fun K'' hK' output heq => ?_
  cases r with
  | ok output =>
    cases heq
    exact fun further hfurther => lowered_mono hK' own (hr output rfl further hfurther)
  | error e => cases heq

theorem registers_keepOutput (hown : own ∈ K) {output : Output} (h : output.Known (lowered own K)) :
    (keepOutput own output).Registers free K fun K c => c.branch ∈ K := by
  cases output with
  | value v =>
    exact .operate (.record own (some v)) not_false hown fun _ =>
      .operate (.set own currentKey v) not_false hown fun _ => .done fun _ hK => hK hown
  | raw v =>
    exact .operate (.record own (some v)) not_false hown fun _ =>
      .operate (.set own currentKey v) not_false hown fun _ => .done fun _ hK => hK hown
  | context further =>
    have hfurther : own ++ further ∈ K := h further rfl
    exact .operate (.record (own ++ further) none) not_false hfurther fun _ =>
      .operate (.get (own ++ further) currentKey) not_false hfurther fun _ => .done fun _ hK => hK hfurther
  | undefined => exact .operate (.record own none) not_false hown fun _ => .done fun _ hK => hK hown

theorem registers_finishAction (hown : own ∈ K) (path : Path) {completed : Completed} (hc : completed.branch ∈ K) :
    (finishAction own path completed).Registers free K fun K r => IfOk (fun c => c.branch ∈ K) r := by
  unfold finishAction
  refine ((registers_waitForPending hown).wrapping (fun _ _ _ _ _ => trivial) hown path).andThen fun K' hK _ _ => ?_
  refine ((registers_waitForPending (hK hc)).wrapping (fun _ _ _ _ _ => trivial) (hK hc) path).andThen
    fun K'' hK' _ _ => .done fun K''' hK'' c heq => ?_
  exact Except.ok.inj heq ▸ hK'' (hK' (hK hc))

theorem Action.Registers.actOn (h : action.Registers free) (hown : own ∈ K) (path : Path) :
    (actOn action own path).Registers free K fun K r => IfOk (fun c => c.branch ∈ K) r := by
  unfold MediaQuery.actOn
  refine ((h.on hown).wrapping (fun _ _ _ hK houtput further hfurther => ?_) hown path).andThen
    fun K' hK output houtput => ?_
  · exact lowered_mono hK own (houtput further hfurther)
  · exact (registers_keepOutput (hK hown) houtput).andThenLift fun K'' hK' c hc =>
      registers_finishAction (hK' (hK hown)) path hc

/-- **A run of an action forks for the path that it enters.** -/
theorem registers_executeAction (h : action.Registers free) (hb : branch ∈ K) (path : Path) :
    (executeAction action branch path).Registers free K fun K r => IfOk (fun c => c.branch ∈ K) r := by
  rw [executeAction_eq]
  exact .enter hb fun i => h.actOn (Set.mem_insert _ _) path

/-! ## Chains -/

theorem registers_executeActions (h : ∀ action ∈ actions, action.Registers free) (hb : branch ∈ K) (path : Path)
    (step : Nat) : (executeActions actions branch path step).Registers free K fun K r => IfOk (· ∈ K) r := by
  induction actions generalizing K branch step with
  | nil => exact .done fun K' hK last heq => Except.ok.inj heq ▸ hK hb
  | cons action rest ih =>
    refine (registers_executeAction (h action List.mem_cons_self) hb _).andThen fun K' _ completed hc => ?_
    exact ih (fun action haction => h action (List.mem_cons_of_mem _ haction)) hc _

/-- **A chain forks for all its steps.** -/
theorem registers_chain (h : ∀ action ∈ actions, action.Registers free) (hb : branch ∈ K) :
    (chain actions branch).Registers free K fun K r => IfOk (· ∈ K) r := by
  rw [chain_eq]
  refine (registers_waitForPending hb).andThen fun K' hK _ _ => ?_
  refine .operate (.path branch) not_false (hK hb) fun path => ?_
  refine (registers_executeActions h (hK hb) path 1).bind fun K'' _ r hr => .done fun K''' hK'' last heq => ?_
  cases r with
  | ok route => exact Except.ok.inj heq ▸ hK'' (hr route rfl)
  | error e => cases heq

/-! ## Templates -/

theorem registers_runSetup {setup : Option Action} (h : ∀ action ∈ setup, action.Registers free) (hb : branch ∈ K)
    (path : Path) : (runSetup setup branch path).Registers free K fun K r => IfOk (fun r => r.1 ∈ K) r := by
  cases setup with
  | none => exact .done fun K' hK r heq => Except.ok.inj heq ▸ hK hb
  | some action =>
    refine (registers_executeAction (h action rfl) hb _).bind fun K' _ r hr => .done fun K'' hK' answer heq => ?_
    cases r with
    | ok c => exact Except.ok.inj heq ▸ hK' (hr c rfl)
    | error e => cases heq

theorem registers_mergeIncluded (setupWrote : Bool) (hb : branch ∈ K) (path : Path) {completed : Completed}
    (hc : completed.branch ∈ K) :
    (mergeIncluded setupWrote branch path completed).Registers free K fun K r => IfOk (fun r => r.1 ∈ K) r := by
  unfold mergeIncluded
  split
  · refine (registers_fork hb _).andThenLift fun K' _ merged hmerged => ?_
    refine (registers_setAll hmerged _).andThenLift fun K'' hK' _ _ => .done fun K''' hK'' r heq => ?_
    exact Except.ok.inj heq ▸ hK'' (hK' hmerged)
  · exact (registers_log hc).andThenLift fun _ _ _ _ => .done fun _ _ => nofun

theorem registers_runInclude {action? : Option Action} (h : ∀ action ∈ action?, action.Registers free) (setupWrote : Bool)
    (hb : branch ∈ K) (path : Path) :
    (runInclude action? setupWrote branch path).Registers free K fun K r => IfOk (fun r => r.1 ∈ K) r := by
  cases action? with
  | none => exact .done fun K' hK r heq => Except.ok.inj heq ▸ hK hb
  | some action =>
    rw [runInclude_some]
    exact (registers_executeAction (h action rfl) hb _).andThen fun K' hK c hc =>
      registers_mergeIncluded setupWrote (hK hb) path hc

theorem registers_evalObject {directives : Directives} (h : directives.Every (Action.Registers free)) (keys : List String)
    {fields : Route → List (Prog (Except ExecutionError Value))}
    (hfields : ∀ (K : Set Route) own, own ∈ K → ∀ p ∈ fields own, p.Registers free K fun _ r => IfOk (fun _ => True) r)
    (hb : branch ∈ K) (path : Path) :
    (evalObject directives keys fields branch path).Registers free K fun _ r => IfOk (fun _ => True) r := by
  unfold evalObject
  refine (registers_runSetup h.setup hb path).andThen fun K' _ s hs => ?_
  refine (registers_runInclude h.include? s.2 hs path).andThen fun K'' _ r hr => ?_
  exact (Registers.parallel (hfields K'' r.1 hr)).andThen fun _ _ _ _ => .done fun _ _ _ _ => trivial

theorem registers_onFork (t : Template) {eval : Route → Path → Prog (Except ExecutionError Value)}
    (heval : ∀ (K : Set Route) own, own ∈ K → (eval own path).Registers free K fun _ r => IfOk (fun _ => True) r)
    (hb : branch ∈ K) : (onFork t branch path eval).Registers free K fun _ r => IfOk (fun _ => True) r := by
  have hfork : ((fork branch (.place path)).bind fun own => eval own path).Registers free K fun _ r =>
      IfOk (fun _ => True) r := (registers_fork hb _).bind fun K' _ own hown => heval K' own hown
  cases t with
  | scalar v => exact heval K branch hb
  | action action => exact heval K branch hb
  | object directives fields => exact hfork
  | list items => exact hfork

section ArrayMap

variable {element : Route → Path → Prog (Except ExecutionError Value)} (helement : ∀ (K : Set Route) own path,
  own ∈ K → (element own path).Registers free K fun _ r => IfOk (fun _ => True) r)
include helement

theorem registers_evalItem (hb : branch ∈ K) (path : Path) (i : Nat) (item : Value) :
    (evalItem element branch path i item).Registers free K fun _ r => IfOk (fun _ => True) r := by
  unfold evalItem
  refine (registers_fork hb _).andThenLift fun K' _ own hown => ?_
  have hset : (set own currentKey item).Registers free K' fun _ _ => True :=
    .operate (.set own currentKey item) not_false hown fun _ => .done fun _ _ => trivial
  exact hset.andThenLift fun K'' hK _ _ => helement K'' own _ (hK hown)

theorem registers_spreadItems (path : Path) {completed : Completed} (hc : completed.branch ∈ K) :
    (spreadItems element path completed).Registers free K fun _ r => IfOk (fun _ => True) r := by
  unfold spreadItems
  split
  · next items _ =>
    refine Registers.parallel fun p hp => ?_
    obtain ⟨i, hi, rfl⟩ := List.mem_mapIdx.1 hp
    exact registers_evalItem helement hc path i _
  · exact (registers_log hc).andThenLift fun _ _ _ _ => .done fun _ _ => nofun

theorem registers_evalArrayMap (h : action.Registers free) (hb : branch ∈ K) (path : Path) :
    (evalArrayMap action element branch path).Registers free K fun _ r => IfOk (fun _ => True) r := by
  rw [evalArrayMap_eq]
  exact (registers_executeAction h hb _).andThen fun _ _ _ hc => registers_spreadItems helement path hc

end ArrayMap

mutual

/-- **The evaluation of a template forks for all that it enters.** -/
theorem registers_evalTemplate : (t : Template) → t.Every (Action.Registers free) → (K : Set Route) → (branch : Route) →
    branch ∈ K → (path : Path) → (evalTemplate t branch path).Registers free K fun _ r => IfOk (fun _ => True) r
  | .scalar _, _, _, _, _, _ => .done fun _ _ _ _ => trivial
  | .action _, h, _, _, hb, path => (registers_executeAction h hb path).mapOk leafValue
  | .object _ fields, h, _, _, hb, path =>
    registers_evalObject h.1 _ (fun K own hown => registers_evalFields fields h.2 K own hown path) hb path
  | .list items, h, K, branch, hb, path =>
    (Registers.parallel (registers_evalItems items h K branch hb path 0)).mapOk _

theorem registers_evalFields : (fields : List (String × Template)) → everyField (Action.Registers free) fields →
    (K : Set Route) → (branch : Route) → branch ∈ K → (path : Path) → ∀ p ∈ evalFields fields branch path,
    p.Registers free K fun _ r => IfOk (fun _ => True) r
  | [], _, _, _, _, _ => nofun
  | (_, t) :: rest, h, K, branch, hb, path => List.forall_mem_cons.2
    ⟨registers_onFork t (fun K own hown => registers_evalTemplate t h.1 K own hown _) hb,
      registers_evalFields rest h.2 K branch hb path⟩

theorem registers_evalItems : (items : List Template) → everyItem (Action.Registers free) items → (K : Set Route) →
    (branch : Route) → branch ∈ K → (path : Path) → (i : Nat) → ∀ p ∈ evalItems items branch path i,
    p.Registers free K fun _ r => IfOk (fun _ => True) r
  | [], _, _, _, _, _, _ => nofun
  | .object ⟨_, _, some _⟩ fields :: rest, h, K, branch, hb, path, i => List.forall_mem_cons.2
    ⟨registers_evalArrayMap (fun _ _ path hown => registers_evalObject h.1.element.1 _
        (fun K own hown => registers_evalFields fields h.1.2 K own hown path) hown path) (h.1.1.arrayMap _ rfl) hb _,
      registers_evalItems rest h.2 K branch hb path (i + 1)⟩
  | .object ⟨setup, include?, none⟩ fields :: rest, h, K, branch, hb, path, i => List.forall_mem_cons.2
    ⟨(registers_onFork _ (fun K own hown =>
        registers_evalTemplate (.object ⟨setup, include?, none⟩ fields) h.1 K own hown _) hb).mapOk _,
      registers_evalItems rest h.2 K branch hb path (i + 1)⟩
  | .scalar v :: rest, h, K, branch, hb, path, i => List.forall_mem_cons.2
    ⟨(registers_onFork _ (fun K own hown => registers_evalTemplate (.scalar v) h.1 K own hown _) hb).mapOk _,
      registers_evalItems rest h.2 K branch hb path (i + 1)⟩
  | .action action :: rest, h, K, branch, hb, path, i => List.forall_mem_cons.2
    ⟨(registers_onFork _ (fun K own hown => registers_evalTemplate (.action action) h.1 K own hown _) hb).mapOk _,
      registers_evalItems rest h.2 K branch hb path (i + 1)⟩
  | .list items :: rest, h, K, branch, hb, path, i => List.forall_mem_cons.2
    ⟨(registers_onFork _ (fun K own hown => registers_evalTemplate (.list items) h.1 K own hown _) hb).mapOk _,
      registers_evalItems rest h.2 K branch hb path (i + 1)⟩

end

theorem registers_evaluate {t : Template} (ht : t.Every (Action.Registers free)) (hb : branch ∈ K) :
    (t.evaluate branch).Registers free K fun _ r => IfOk (fun _ => True) r := by
  have hpath : (Prog.path branch).Registers free K fun _ _ => True :=
    .operate (.path branch) not_false hb fun _ => .done fun _ _ => trivial
  refine hpath.bind fun K' hK path _ => ?_
  cases t.misplaced? path with
  | some place => exact (registers_log (hK hb)).bind fun _ _ _ _ => .done fun _ _ => nofun
  | none => exact registers_evalTemplate t ht K' branch (hK hb) path

/-! ## What is found of an evaluation -/

/-- Every path that a program on a branch enters in the log of the branch is the path of a descendant of it, without the
step of a chain, or is free: when the program starts; when it is taken on later in the midst of whatever others do, or a
future is that is at home below the branch; and in a whole run, whatever comes of it, if nothing else runs that could
enter anything. -/
structure Prog.Covered (p : Prog α) (free : Path → Prop) (base branch : Route) (m : Machine) : Prop where
  start : Registered free (base ++ branch) m (p.start base m).2
  proceed : m.Enrolled free (base ++ branch <+: ·) (base ++ branch) → ∀ r r',
    Relation.ReflTransGen (ProceedsAmid free (base ++ branch) base) (p.start base m) r →
      Proceeds (base ++ branch) base r r' → Registered free (base ++ branch) r.2 r'.2
  run : m.Enrolled free (fun _ => True) (base ++ branch) →
    Registered free (base ++ branch) m (m.run (p.under base)).2

theorem Prog.Registers.covered {p : Prog α} {Q : Set Route → α → Prop} (h : p.Registers free {branch} Q)
    (hb : m.Hosted (base ++ branch)) : p.Covered free base branch m := by
  have hknown : {branch} ⊆ m.known (base ++ branch) base := Set.singleton_subset_iff.2 ⟨List.prefix_rfl, hb⟩
  obtain ⟨hstart, hregisters⟩ := h.start hknown
  refine ⟨hstart, fun hm r r' hr hr' => ?_, fun hm => ?_⟩
  · obtain ⟨hregisters', hm'⟩ := Machine.registers_of_amid hregisters (hstart.enrolled _ hm) hr
    exact (Machine.registered_of_proceeds hregisters' hm' hr').1
  · have hlowered : {branch} ⊆ lowered base (m.known (base ++ branch) []) := by rwa [Machine.lowered_known]
    exact Machine.registered_run hm (h.mono hlowered).under subset_rfl

/-- **The tree of forks.** Whatever happens, be it runs of programs or anything in the midst of them, the descendants of a
branch are all that has been forked from it, directly or not, each once and in pre-order. Every path that an evaluation
enters, or the run of an action or a chain, whatever comes of it, is that of a descendant of its branch. -/
theorem forkTree_of_evaluation (h : Steady inputs past m) :
    (∀ y, Moment.Before ⟨past, m⟩ y → ∀ a, ForkTree y.past y.machine a) ∧
    (∀ {α : Type} (p : Prog α), ∃ past', Moment.Before ⟨past, m⟩ ⟨past', (m.run p).2⟩) ∧
    ∀ free base branch, (m.node? (base ++ branch)).isSome = true →
      (∀ t : Template, t.Every (Action.Registers free) → (t.evaluate branch).Covered free base branch m) ∧
      (∀ action path, action.Registers free → (executeAction action branch path).Covered free base branch m) ∧
      ∀ actions, (∀ action ∈ actions, action.Registers free) → (chain actions branch).Covered free base branch m := by
  refine ⟨fun y hy a => Machine.forkTree_of_history (hy.history h.history) a, fun p => ?_, fun free base branch hb => ?_⟩
  · obtain ⟨past', _, -, hreaches⟩ := Machine.reaches_of_run h (rfl : m.run p = ((m.run p).1, (m.run p).2))
    exact ⟨past', hreaches.before⟩
  · have hhosted : m.Hosted (base ++ branch) :=
      ⟨hb, Machine.isSome_session?_sessionRoute (Machine.isSome_session?_root h.history) _⟩
    refine ⟨fun t ht => ?_, fun action path haction => ?_, fun actions hactions => ?_⟩
    · exact (registers_evaluate ht (Set.mem_singleton branch)).covered hhosted
    · exact (registers_executeAction haction (Set.mem_singleton branch) path).covered hhosted
    · exact (registers_chain hactions (Set.mem_singleton branch)).covered hhosted

/-! ## An object whose `include` fails -/

theorem registers_answeringAction (free : Path → Prop) (v : Value) : (answeringAction v).Registers free :=
  .done fun _ _ output heq further hfurther => by
    cases heq
    cases hfurther

/-- A chain of such actions, the end of which is handed back. -/
theorem registers_chaining (h : ∀ action ∈ actions, action.Registers free) : (chaining actions).Registers free := by
  refine Prog.Registers.bind (registers_chain h (Set.mem_singleton [])) fun K _ r hr => .done fun K' hK output heq => ?_
  intro further hfurther
  cases r with
  | ok last =>
    cases heq
    cases hfurther
    exact hK (hr _ rfl)
  | error e => cases heq

theorem registers_failingInclude (free : Path → Prop) : failingInclude.Every (Action.Registers free) := by
  have hsetup := registers_chaining (List.forall_mem_singleton.2 (registers_answeringAction free (.string "one")))
  refine ⟨⟨?_, ?_, nofun⟩, registers_answeringAction free _, trivial⟩
  · rintro action ⟨⟩
    exact hsetup
  · rintro action ⟨⟩
    exact .done fun _ _ => nofun

/-- There are three entries, one of them with a step, and three forks, each below the one before. The evaluation has
failed. -/
theorem forkTree_of_failingInclude : Steady .blank [] (.start .blank) ∧ ∃ e past' m',
    (Machine.start .blank).run (failingInclude.evaluate []) = (some (.error e), m') ∧
      (m'.session []).log = [Path.root.directive "setup", (Path.root.directive "setup").withStep 1,
        Path.root.directive "include"] ∧
      m'.descendants [] = [[0], [0, 0], [0, 0, 0]] ∧ ForkTree past' m' [] ∧
      ∀ path ∈ (m'.session []).log, ∃ d ∈ m'.descendants [], m'.path d = path.join [] := by
  obtain ⟨e, m', hrun, hlog, hdescendants⟩ : ∃ e m',
      (Machine.start .blank).run (failingInclude.evaluate []) = (some (.error e), m') ∧
      (m'.session []).log = [Path.root.directive "setup", (Path.root.directive "setup").withStep 1,
        Path.root.directive "include"] ∧ m'.descendants [] = [[0], [0, 0], [0, 0, 0]] :=
    ⟨_, _, Machine.drive_of_result rfl _, rfl, rfl⟩
  obtain ⟨htree, hruns, hcovered⟩ := forkTree_of_evaluation (Machine.steady_start .blank)
  obtain ⟨past', hbefore⟩ := hruns (failingInclude.evaluate [])
  have hthere : ((Machine.start .blank).node? ([] ++ [])).isSome = true := rfl
  have hentered := (((hcovered (fun _ => False) [] [] hthere).1 failingInclude (registers_failingInclude _)).run
    nofun).entered
  rw [under_nil, hrun] at hentered
  rw [hrun] at hbefore
  obtain ⟨paths, hnew, hpaths⟩ := hentered
  have hlogged : (m'.session []).log = paths := hnew
  refine ⟨Machine.steady_start .blank, e, past', m', hrun, hlog, hdescendants, htree _ hbefore [], fun path hpath => ?_⟩
  rw [hlogged] at hpath
  exact (hpaths path hpath).resolve_left id

end MediaQuery
