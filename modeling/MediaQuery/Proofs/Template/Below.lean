import MediaQuery.Proofs.Machine.Hosts
import MediaQuery.Proofs.Template.Local

/-!
# Programs below their own branch

Whatever a program does it uses only what is below its own branch, and so does the evaluation of a template
(`uses_evalTemplate`). The parts of a template go below forks of their branch (`Nests`): that they have started is not
seen on the branch itself (`store_sweep_of_nests`).
-/

namespace MediaQuery

open Prog

variable {T : Route → Prop} {base place branch own : Route} {path : Path} {α β : Type} {Q : α → Prop} {m : Machine}

/-! ## Programs -/

/-- An action hands back nothing that is not below its own branch. -/
theorem Action.within_below (action : Action) (place : Route) : action.Within (place <+: ·) := by
  intro own hown
  refine (Prog.uses_below action hown).mono (fun _ h => h) (fun _ _ h => h.trans (List.prefix_append _ _)) ?_
  exact fun r _ output _ further _ => hown.trans (List.prefix_append _ _)

/-- What a program uses on its own machine it uses below a route. -/
theorem Prog.Uses.shift {p : Prog α} {lower : Route} (h : p.Uses (fun x => T (base ++ x)) lower Q) :
    p.Uses T (base ++ lower) Q := by
  induction h with
  | done h => exact .done h
  | @act lower α β Q op next hb _ ih =>
    refine .act (by rwa [List.append_assoc]) fun b hmakes => ih b ?_
    cases op with
    | fork branch options => simpa only [Op.Makes, List.append_assoc] using hmakes
    | openSession branch inputs => simpa only [Op.Makes, List.append_assoc] using hmakes
    | _ => trivial
  | sleep _ ih => exact .sleep ih
  | spawn hb _ _ ihfuture ih =>
    refine .spawn (by rwa [List.append_assoc]) ?_ ih
    rwa [List.append_assoc]
  | resolve hb _ ih => exact .resolve (by rwa [List.append_assoc]) ih
  | settle hb _ ih => exact .settle (by rwa [List.append_assoc]) ih
  | all S _ _ _ ihparts ihe ihok => exact .all S ihparts ihe ihok

/-- A program that uses only what is below a branch on a machine of its own does so on any. -/
theorem Prog.Uses.placed {p : Prog α} (h : p.Uses (own <+: ·) [] Q) :
    p.Uses (base ++ own <+: ·) base fun _ => True := by
  have hbelow : p.Uses (fun x => base ++ own <+: base ++ x) [] fun _ => True :=
    h.mono (fun x hx => (List.prefix_append_right_inj base).2 hx) (fun _ _ hx => hx.trans (List.prefix_append _ _))
      fun _ _ => trivial
  have hshifted := hbelow.shift (T := (base ++ own <+: ·))
  rwa [List.append_nil] at hshifted

/-! ## Evaluations -/

theorem uses_parallel {parts : List (Prog (Except ExecutionError β))}
    (h : ∀ p ∈ parts, p.Uses T [] (IfOk fun _ => True)) : (parallel parts).Uses T [] (IfOk fun _ => True) :=
  .all (IfOk fun _ => True) (fun i => h _ (List.get_mem parts i)) (fun _ _ => .done nofun)
    fun _ _ => .done fun _ _ => trivial

theorem Prog.Uses.mapOk {p : Prog (Except ExecutionError α)} (h : p.Uses T [] (IfOk Q)) (f : α → β) :
    (p.bind fun r => .done (r.map f)).Uses T [] (IfOk fun _ => True) :=
  h.bind fun _ _ => .done fun _ _ => trivial

theorem uses_onFork {t : Template} {eval : Route → Path → Prog (Except ExecutionError Value)}
    (heval : ∀ own, T own → (eval own path).Uses T [] (IfOk fun _ => True)) (hb : T branch) :
    (onFork t branch path eval).Uses T [] (IfOk fun _ => True) := by
  have hfork : (do eval (← Prog.fork branch (.place path)) path).Uses T [] (IfOk fun _ => True) :=
    (uses_fork hb _).bind heval
  cases t with
  | scalar v => exact heval branch hb
  | action action => exact heval branch hb
  | object directives fields => exact hfork
  | list items => exact hfork

/-- What is evaluated for the items of a collection. -/
theorem uses_spreadItems {element : Route → Path → Prog (Except ExecutionError Value)}
    (helement : ∀ own path, T own → (element own path).Uses T [] (IfOk fun _ => True)) {completed : Completed}
    (hc : T completed.branch) : (spreadItems element path completed).Uses T [] (IfOk fun _ => True) := by
  unfold spreadItems
  split
  · refine uses_parallel fun p hp => ?_
    obtain ⟨i, hi, rfl⟩ := List.mem_iff_getElem.1 hp
    rw [List.getElem_mapIdx]
    refine (uses_fork hc _).andThenLift fun own hown => ?_
    exact Uses.andThenLift (Q := fun _ => True) (.operate (.set own currentKey _) hown fun _ _ => .done trivial)
      fun _ _ => helement own _ hown
  · exact (uses_log hc).andThenLift fun _ _ => .done nofun

section Within

variable (hall : ∀ action : Action, action.Within T)
include hall

theorem uses_evalObject {directives : Directives} {keys : List String}
    {fields : Route → List (Prog (Except ExecutionError Value))}
    (hfields : ∀ own, T own → ∀ p ∈ fields own, p.Uses T [] (IfOk fun _ => True)) (hb : T branch) :
    (evalObject directives keys fields branch path).Uses T [] (IfOk fun _ => True) := by
  unfold evalObject
  refine (uses_runSetup (fun action _ => hall action) hb path).andThen fun s hs => ?_
  refine (uses_runInclude (fun action _ => hall action) s.2 hs path).andThen fun r hr => ?_
  exact (uses_parallel (hfields r.1 hr)).andThen fun _ _ => .done fun _ _ => trivial

theorem uses_evalArrayMap {action : Action} {element : Route → Path → Prog (Except ExecutionError Value)}
    (helement : ∀ own path, T own → (element own path).Uses T [] (IfOk fun _ => True)) (hb : T branch) :
    (evalArrayMap action element branch path).Uses T [] (IfOk fun _ => True) := by
  rw [evalArrayMap_eq]
  exact ((hall action).execute hb _).andThen fun _ hc => uses_spreadItems helement hc

end Within

mutual

/-- **The evaluation of a template uses only what its actions may use**, if the branch itself is of that kind. -/
theorem uses_evalTemplate (hall : ∀ action : Action, action.Within T) : (t : Template) → {branch : Route} → T branch →
    (path : Path) → (evalTemplate t branch path).Uses T [] (IfOk fun _ => True)
  | .scalar _, _, _, _ => .done fun _ _ => trivial
  | .action action, _, hb, path => ((hall action).execute hb path).mapOk leafValue
  | .object _ fields, _, hb, path =>
    uses_evalObject hall (fun _ hown => uses_evalFields hall fields hown path) hb
  | .list items, _, hb, path => by
    rw [evalTemplate]
    exact (uses_parallel (uses_evalItems hall items hb path 0)).mapOk _

theorem uses_evalFields (hall : ∀ action : Action, action.Within T) : (fields : List (String × Template)) →
    {branch : Route} → T branch → (path : Path) → ∀ p ∈ evalFields fields branch path, p.Uses T [] (IfOk fun _ => True)
  | [], _, _, _ => nofun
  | (_, t) :: rest, _, hb, path => List.forall_mem_cons.2
    ⟨uses_onFork (fun _ hown => uses_evalTemplate hall t hown _) hb, uses_evalFields hall rest hb path⟩

theorem uses_evalItems (hall : ∀ action : Action, action.Within T) : (items : List Template) → {branch : Route} →
    T branch → (path : Path) → (i : Nat) → ∀ p ∈ evalItems items branch path i, p.Uses T [] (IfOk fun _ => True)
  | [], _, _, _, _ => nofun
  | .object ⟨_, _, some _⟩ fields :: rest, _, hb, path, i => List.forall_mem_cons.2
    ⟨uses_evalArrayMap hall
      (fun _ path hown => uses_evalObject hall (fun _ hown => uses_evalFields hall fields hown path) hown) hb,
      uses_evalItems hall rest hb path (i + 1)⟩
  | .object ⟨setup, include?, none⟩ fields :: rest, _, hb, path, i => List.forall_mem_cons.2
    ⟨(uses_onFork (fun _ hown => uses_evalTemplate hall (.object ⟨setup, include?, none⟩ fields) hown _) hb).mapOk _,
      uses_evalItems hall rest hb path (i + 1)⟩
  | .scalar v :: rest, _, hb, path, i => List.forall_mem_cons.2
    ⟨(uses_onFork (fun _ hown => uses_evalTemplate hall (.scalar v) hown _) hb).mapOk _, uses_evalItems hall rest hb path (i + 1)⟩
  | .action action :: rest, _, hb, path, i => List.forall_mem_cons.2
    ⟨(uses_onFork (fun _ hown => uses_evalTemplate hall (.action action) hown _) hb).mapOk _,
      uses_evalItems hall rest hb path (i + 1)⟩
  | .list items :: rest, _, hb, path, i => List.forall_mem_cons.2
    ⟨(uses_onFork (fun _ hown => uses_evalTemplate hall (.list items) hown _) hb).mapOk _,
      uses_evalItems hall rest hb path (i + 1)⟩

end

/-- So does the evaluation of a template that may have directives out of place. -/
theorem uses_evaluate (hall : ∀ action : Action, action.Within T) (t : Template) (hb : T branch) :
    (t.evaluate branch).Uses T [] (IfOk fun _ => True) := by
  have hpath : (Prog.path branch).Uses T [] fun _ => True := .operate (.path branch) hb fun _ _ => .done trivial
  refine hpath.bind fun path _ => ?_
  cases t.misplaced? path with
  | some place => exact (uses_log hb).bind fun _ _ => .done nofun
  | none => exact uses_evalTemplate hall t hb path

/-! ## Parts of templates -/

/-- A program that ends at once, or goes on below a fork of the branch, maybe after some entries of the log. -/
inductive Nests (base branch : Route) : Prog α → Prop
  | done (a : α) : Nests base branch (.done a)
  | fork (path : Path) {k : Nat → Prog α} (h : ∀ i, (k i).Uses (base ++ branch ++ [i] <+: ·) base fun _ => True) :
      Nests base branch (.act (.fork branch (.place path)) k)
  | enter (path : Path) {p : Prog α} (h : Nests base branch p) : Nests base branch (.act (.enter branch path) fun _ => p)

/-- A fork, and something below it. -/
theorem nests_fork {k : Route → Prog (Except ExecutionError β)}
    (h : ∀ own, (k own).Uses (own <+: ·) [] (IfOk fun _ => True)) :
    Nests base branch ((Prog.fork branch (.place path)).bind k) := by
  refine .fork path fun i => ?_
  rw [List.append_assoc]
  exact (h (branch ++ [i])).placed

theorem nests_execute {action : Action} {k : Except ExecutionError Completed → Prog (Except ExecutionError β)}
    (hk : ∀ own r, IfOk (fun c => own <+: c.branch) r → (k r).Uses (own <+: ·) [] (IfOk fun _ => True)) :
    Nests base branch ((executeAction action branch path).bind k) := by
  have hfork : Nests base branch ((Prog.fork branch (.place path)).bind fun own => (actOn action own path).bind k) :=
    nests_fork fun own => ((action.within_below own).actOn List.prefix_rfl path).bind (hk own)
  exact .enter path hfork

/-- **Every field goes below a fork.** -/
theorem nests_onFork (t : Template) : Nests base branch (onFork t branch path (evalTemplate t)) := by
  have hbelow (t : Template) (own : Route) : (evalTemplate t own path).Uses (own <+: ·) [] (IfOk fun _ => True) :=
    uses_evalTemplate (fun action => action.within_below own) t List.prefix_rfl path
  cases t with
  | scalar v => exact .done _
  | action action => exact nests_execute fun own r hr => .done fun _ _ => trivial
  | object directives fields => exact nests_fork fun own => hbelow (.object directives fields) own
  | list items => exact nests_fork fun own => hbelow (.list items) own

theorem nests_evalFields (fields : List (String × Template)) :
    ∀ p ∈ evalFields fields branch path, Nests base branch p := by
  induction fields with
  | nil => nofun
  | cons e rest ih => exact List.forall_mem_cons.2 ⟨nests_onFork e.2, ih⟩

namespace Machine

/-- A branch that is left alone holds what it has held. -/
theorem Confined.store_eq {m' : Machine} (h : Confined T m m') {a : Route} (ha : ¬ T a) :
    m'.store a = m.store a := by
  have hnode := congrArg (Option.map Node.store) (h.node a ha)
  rw [Option.map_map, Option.map_map] at hnode
  exact store_congr hnode

/-- A fork is not seen on the branch that it is made from, but for its place among the children. -/
theorem store_fork_self (m : Machine) (a : Route) (options : ForkOptions) :
    (m.addChild a fun c => c.forkOf options).2.store a = m.store a := by
  cases hn : m.node? a with
  | none => rw [addChild_of_none hn]
  | some n => rw [store_fork hn, if_neg (by simp)]

/-- A program that goes below forks of a branch has started, which is not seen on the branch. -/
theorem store_start_of_nests {p : Prog α} (h : Nests base branch p) (m : Machine) :
    (p.start base m).2.store (base ++ branch) = m.store (base ++ branch) := by
  induction h generalizing m with
  | done a => rfl
  | @fork path k hk =>
    let forked := m.addChild (base ++ branch) fun c => c.forkOf (.place path)
    have hconfined := (confined_start (hk forked.1) (settled_below _ forked.2)).1
    have hoff : ¬ base ++ branch ++ [forked.1] <+: base ++ branch := fun h => by simpa using h.length_le
    exact (hconfined.store_eq hoff).trans (store_fork_self m _ _)
  | enter path _ ih => exact (ih _).trans (store_enter m _ _ path)

/-- So have several, one after another. -/
theorem store_sweep_of_nests {n : Nat} {parts : Fin n → Prog (Except ExecutionError β)}
    (h : ∀ i, Nests base branch (parts i)) (is : List (Fin n)) (m : Machine) :
    (sweep (fun i m => (parts i).start base m) is m).2.store (base ++ branch) = m.store (base ++ branch) := by
  induction is generalizing m with
  | nil => rfl
  | cons i rest ih =>
    have hstart := store_start_of_nests (h i) m
    by_cases hi : ∃ e, ((parts i).start base m).1 = .done (.error e)
    · obtain ⟨e, he⟩ := hi
      rw [sweep_of_error he]
      exact hstart
    · rw [not_exists] at hi
      rw [sweep_of_ne_error hi]
      exact (ih _).trans hstart

end Machine

end MediaQuery
