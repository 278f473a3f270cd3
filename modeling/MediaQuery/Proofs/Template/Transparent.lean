import MediaQuery.Proofs.Machine.Agree
import MediaQuery.Proofs.Machine.Report
import MediaQuery.Proofs.Template.CurrentValue
import MediaQuery.Proofs.Template.Fresh
import MediaQuery.Proofs.Template.Reported

/-!
# Chains of one action

A leaf may be an action, or an action that hands back a chain of it. The chain runs the action one fork further down and
hands over the current value of the fork (`run_actOn_chaining`, `run_handOver`), and there the action has done what it
does on the fork of the leaf. So both leaves come to the same value (`chain_transparent`), with exceptions that the end of
this file shows: the chain keeps no selection as it is, it waits first for the values that its branch has inherited, and it
hands over what the fork of the action holds when all is over, after waiting there once more.
-/

namespace MediaQuery

open Machine (Together Hosts Steady Event)
open Prog

variable {branch own : Route} {path : Path} {α : Type} {action : Action} {m m' : Machine} {inputs : Inputs}
  {past : List Event} {n : Node} {clock : Nat}

/-! ## Runs -/

/-- What an action does once it has answered. -/
def conclude (own : Route) (path : Path) (output : Output) : Prog (Except ExecutionError Completed) := ExceptT.run do
  let completed ← ExceptT.lift (keepOutput own output)
  ExceptT.mk (finishAction own path completed)

theorem actOn_eq (action : Action) (own : Route) (path : Path) : actOn action own path =
    ExceptT.run (ExceptT.mk (Prog.wrapping own path (action.on own)) >>= fun output =>
      ExceptT.mk (conclude own path output)) := rfl

namespace Machine

theorem run_wrapping (branch : Route) (path : Path) (p : Prog (Except EvalError α)) (m : Machine) :
    m.run (Prog.wrapping branch path p) =
      match m.run p with
      | (some (.ok a), m') => (some (.ok a), m')
      | (some (.error e), m') => (some (.error (e.wrap path (m'.session branch).log branch)), m')
      | (none, m') => (none, m') := by
  unfold Prog.wrapping
  rw [bind_eq_bind, run_bind]
  cases m.run p with
  | mk answer? m' => cases answer? with
    | none => rfl
    | some answer => cases answer with
      | ok a => exact run_done (Except.ok a) m'
      | error e => exact drive_of_result rfl m'

theorem ok_of_run_wrapping {p : Prog (Except EvalError α)} {a : α}
    (h : m.run (Prog.wrapping branch path p) = (some (.ok a), m')) : m.run p = (some (.ok a), m') := by
  rw [run_wrapping] at h
  split at h
  · next hrun =>
    cases h
    exact hrun
  · cases h
  · cases h

/-- What has become of an action is not changed by the waits at its end. -/
theorem completed_of_run_finishAction {c c' : Completed} (h : (m.run (finishAction own path c)).1 = some (.ok c')) :
    c' = c := by
  obtain ⟨_, m₁, -, h⟩ := ok_of_run_andThen h
  obtain ⟨_, m₂, -, h⟩ := ok_of_run_andThen (f := fun _ => .done (.ok c)) h
  rw [run_done] at h
  cases h
  rfl

/-- What a leaf comes to is what its action comes to. -/
theorem run_evalLeaf (action : Action) (branch : Route) (path : Path) (m : Machine) :
    (m.run (evalLeaf action branch path)).1 =
      (m.run (executeAction action branch path)).1.map (Except.map leafValue) :=
  congrArg Prod.fst (run_map (executeAction action branch path) (Except.map leafValue) m)

/-! ## Branches on which all is over -/

/-- All on a branch has come to an end, with the given current value. -/
structure Concluded (m : Machine) (a : Route) (value : Option Value) : Prop where
  current : (m.get a currentKey).toOption = value
  unawaited : m.unawaited a = []
  pending : (m.store a).pending = []

/-- On the machine inside all is over where it is over below the place. -/
theorem Hosts.concluded {place r : Route} {l : Machine} {value : Option Value} (h : Hosts place m l) :
    m.Concluded (place ++ r) value ↔ l.Concluded r value := by
  have hcurrent := h.mirrors.get r currentKey
  have hunawaited : m.unawaited (place ++ r) = [] ↔ l.unawaited r = [] := by
    rw [mirrors_unawaited h.mirrors, List.map_eq_nil_iff]
  have hpending : (m.store (place ++ r)).pending = [] ↔ (l.store r).pending = [] := by
    rw [h.mirrors.store, Store.pending_shift, List.map_eq_nil_iff]
  constructor
  · rintro ⟨hvalue, hnone, hp⟩
    exact ⟨hcurrent ▸ hvalue, hunawaited.1 hnone, hpending.1 hp⟩
  · rintro ⟨hvalue, hnone, hp⟩
    exact ⟨hcurrent ▸ hvalue, hunawaited.2 hnone, hpending.2 hp⟩

theorem unawaited_of_heeds (h : m.Heeds (· ≠ own)) : m.unawaited own = [] := by
  unfold unawaited
  rw [List.map_eq_nil_iff, List.filter_eq_nil_iff]
  exact fun f hf => by simp [h.home f hf]

/-- To wait where nothing is left to wait for takes no time. -/
theorem run_wrapping_waitForPending (path : Path) (hnone : m.unawaited own = []) (hp : (m.store own).pending = []) :
    m.run (Prog.wrapping own path (waitForPending own)) = (some (.ok ()), m.markAwaited own) := by
  have hwait : waitFutures own [] none m = (.inr (.ok ()), m.markAwaited own) := by
    unfold waitFutures
    rw [hnone, hp]
    rfl
  have hstart : (waitForPending own).start [] m = (.done (.ok ()), m.markAwaited own) := by
    rw [waitForPending, Prog.start, List.nil_append, hwait]
    rfl
  have hrun : m.run (waitForPending own) = (some (.ok ()), m.markAwaited own) := by
    unfold run
    rw [hstart]
    exact drive_of_result rfl _
  rw [run_wrapping, hrun]

/-- **A branch on which all is over is handed over** with its current value. -/
theorem run_handOver {value : Option Value} (further : Route) (path : Path) (hnone : m.unawaited own = [])
    (hp : (m.store own).pending = []) (hlast : m.Concluded (own ++ further) value) :
    (m.run (conclude own path (.context further))).1 = some (.ok ⟨own ++ further, value, false⟩) := by
  let recorded := m.modify (own ++ further) fun b => { b with results := b.results ++ [none] }
  have hstore (a : Route) : recorded.store a = m.store a := store_record m _ a none
  have hvalue : (recorded.get (own ++ further) currentKey).toOption = value := by
    rw [← hlast.current]
    exact congrArg (fun s => (Store.get s m.outcome currentKey).toOption) (hstore _)
  have hrun : m.run (conclude own path (.context further)) = recorded.run
      (finishAction own path ⟨own ++ further, (recorded.get (own ++ further) currentKey).toOption, false⟩) := rfl
  have hown := run_wrapping_waitForPending (m := recorded) path hnone (by rw [hstore, hp])
  have hfurther : (recorded.markAwaited own).run
      (Prog.wrapping (own ++ further) path (waitForPending (own ++ further))) =
      (some (.ok ()), (recorded.markAwaited own).markAwaited (own ++ further)) := by
    refine run_wrapping_waitForPending path ?_ ((congrArg Store.pending (hstore (own ++ further))).trans hlast.pending)
    rw [unawaited_markAwaited]
    split
    · rfl
    · exact hlast.unawaited
  have hfinish : recorded.run (finishAction own path ⟨own ++ further, value, false⟩) =
      (some (.ok ⟨own ++ further, value, false⟩), _) :=
    (run_andThen_of_ok hown _).trans ((run_andThen_of_ok hfurther _).trans (run_done _ _))
  rw [hrun, hvalue, hfinish]

/-! ## What a chain of one action does -/

section Chain

variable (hf : ∀ f ∈ m.futures, f.id.home ≠ own) (hp : (m.store own).pending = []) (action : Action)
include hf hp

/-- On a branch on which nothing has been started it executes the action, as its first step. -/
theorem run_chain_single : m.run ((chain [action] []).under own) =
    ((m.run ((executeAction action [] ((m.path own).withStep 1)).under own)).1.map
      fun r => (r.map Completed.branch).mapError .nested,
      (m.run ((executeAction action [] ((m.path own).withStep 1)).under own)).2) := by
  have hwait : m.run ((waitForPending []).under own) = (some (.ok ()), m) := by
    simp only [waitForPending, Prog.under, List.append_nil]
    rw [run_settle hf hp]
    exact run_done _ m
  have hpath : m.run ((Prog.path []).under own) = (some (m.path own), m) := by
    simp only [Prog.path, Prog.perform, Prog.under, Op.under, List.append_nil]
    exact run_done (m.path own) m
  have hsteps (path : Path) : executeActions [action] [] path 1 =
      (executeAction action [] (path.withStep 1)).bind fun r => .done (r.map Completed.branch) :=
    congrArg (Prog.bind _) (funext fun r => by cases r <;> rfl)
  have hchain : chain [action] [] = (waitForPending []).bind (ExceptT.bindCont fun _ => (Prog.path []).bind fun path =>
      (executeActions [action] [] path 1).bind fun r => .done (r.mapError .nested)) := rfl
  rw [hchain, under_bind, run_bind, hwait]
  show m.run (((Prog.path []).bind fun path => (executeActions [action] [] path 1).bind fun r =>
    .done (r.mapError EvalError.nested)).under own) = _
  rw [under_bind, run_bind, hpath]
  simp only [hsteps, bind_assoc]
  rw [under_bind]
  exact run_map _ _ m

theorem run_on_chaining : m.run ((chaining [action]).on own) =
    ((m.run ((executeAction action [] ((m.path own).withStep 1)).under own)).1.map
      fun r => (r.map fun c => Output.context c.branch).mapError fun e => (EvalError.nested e).under own,
      (m.run ((executeAction action [] ((m.path own).withStep 1)).under own)).2) := by
  have hon : (chaining [action]).on own = ((chain [action] []).under own).bind fun r =>
      .done ((r.map Output.context).mapError (·.under own)) := by
    show (((chain [action] []).bind fun r => .done (r.map Output.context)).under own).bind _ = _
    rw [under_bind, bind_assoc]
    rfl
  rw [hon, run_map, run_chain_single hf hp, Option.map_map]
  refine Prod.ext (congrArg (Option.map · _) (funext fun r => ?_)) rfl
  cases r <;> rfl

/-- **In the place of an action it hands over the branch that the action leaves.** -/
theorem run_actOn_chaining (path : Path) : m.run (actOn (chaining [action]) own path) =
      match m.run ((executeAction action [] ((m.path own).withStep 1)).under own) with
      | (some (.ok c), m') => m'.run (conclude own path (.context c.branch))
      | (some (.error e), m') =>
        (some (.error (((EvalError.nested e).under own).wrap path (m'.session own).log own)), m')
      | (none, m') => (none, m') := by
  rw [actOn_eq, run_andThen, run_wrapping, run_on_chaining hf hp]
  cases m.run ((executeAction action [] ((m.path own).withStep 1)).under own) with
  | mk answer? m' => cases answer? with
    | none => rfl
    | some answer => cases answer <;> rfl

end Chain

/-- **On a fresh fork it comes to the value that the action comes to**, where all is over on the fork of the action with
that as its current value. -/
theorem Fresh.rel_actOn_chaining (h : Fresh inputs (forkNode n (.place path)) clock own m)
    (hpending : n.store.pending = []) (hblind : action.Blind)
    {direct : Option (Except ExecutionError Completed) × Machine}
    (hdirect : Together own (SameResult (fun _ _ => True) (Completed.Like own)) direct
      ((lone inputs (forkNode n (.place path)) clock).run (actOn action [] path)))
    (hover : ∀ c z, direct = (some (.ok c), z) → c.branch = own ∧ z.Concluded own c.value) :
    Option.Rel (SameResult (fun _ _ => True) fun c' c => c'.value = c.value ∧ c'.raw = false)
      (m.run (actOn (chaining [action]) own path)).1 direct.1 := by
  have hstep := h.together hpending hblind path
  obtain ⟨hstore, hheeds⟩ := h.aside hpending hblind ((m.path own).withStep 1)
  rw [run_actOn_chaining h.heeds.home (h.pending hpending)]
  generalize m.run ((executeAction action [] ((m.path own).withStep 1)).under own) = stepped at hstep hstore hheeds ⊢
  -- both do what the action does on a machine of its own
  generalize (lone inputs (forkNode n (.place path)) clock).run (actOn action [] path) = alone at hdirect hstep
  cases hdirect with
  | stuck z l =>
    cases hstep
    exact .none
  | @ended _ _ z l hanswer hhosts =>
    cases hstep with
    | @ended _ _ z' _ hanswer' hhosts' =>
      cases hanswer with
      | error _ =>
        cases hanswer' with
        | error _ => exact .some (.error trivial)
      | @ok c alone hc =>
        cases hanswer' with
        | @ok c' _ hc' =>
          obtain ⟨hbranch, hconcluded⟩ := hover c z rfl
          have hown : alone.branch = [] := by
            have hlike := hc.branch
            rw [hbranch] at hlike
            simpa using hlike
          have hfork : z'.Concluded (own ++ c'.branch) c.value := by
            have hinside : l.Concluded [] c.value := by
              rw [← hhosts.concluded, List.append_nil]
              exact hconcluded
            rw [hc'.branch, hown, List.append_nil, ← List.append_nil (own ++ [0]), hhosts'.concluded]
            exact hinside
          have hpending' : (z'.store own).pending = [] := hstore ▸ h.pending hpending
          have hrun := run_handOver c'.branch path (unawaited_of_heeds hheeds) hpending' hfork
          exact hrun ▸ .some (.ok ⟨rfl, rfl⟩)

end Machine

/-! ## Leaves -/

/-- A value as it is shown: a selection as its text. -/
def Value.shown : Value → Value
  | .selection s => .string s.text
  | v => v

/-- What has become of a leaf, if it is not to be kept as it is. -/
theorem leafValue_of_value {c c' : Completed} (h : c'.value = c.value) (hraw : c'.raw = false) :
    leafValue c' = (leafValue c).shown := by
  unfold leafValue
  rw [h, hraw]
  cases hv : c.value with
  | none => rfl
  | some v => cases v with
    | selection s => cases c.raw <;> rfl
    | _ => rfl

/-- What an action answers on a fork of a branch is a value. Once all that it has started there has come to an end, that
is still the current value of the fork, and nothing is left to wait for. -/
structure Machine.Yields (m : Machine) (action : Action) (branch : Route) (path : Path) : Prop where
  value : ∀ output m', (actionFork [] branch path m).2.run (action.on (actionFork [] branch path m).1) =
    (some (.ok output), m') → ∃ v, output = .value v ∨ output = .raw v
  stays : ∀ c m', m.run (executeAction action branch path) = (some (.ok c), m') → m'.Concluded c.branch c.value

/-- It goes on with the fork itself. -/
theorem Machine.Yields.branch_eq (h : m.Yields action branch path) {c : Completed}
    (hrun : m.run (executeAction action branch path) = (some (.ok c), m')) :
    c.branch = (actionFork [] branch path m).1 := by
  have hbegun : (actionFork [] branch path m).2.run (actOn action (actionFork [] branch path m).1 path) =
      (some (.ok c), m') := hrun
  obtain ⟨output, answered, haction, hconclude⟩ :=
    ok_of_run_andThen (f := conclude (actionFork [] branch path m).1 path) (congrArg Prod.fst hbegun)
  obtain ⟨v, rfl | rfl⟩ := h.value output answered (ok_of_run_wrapping haction)
  · obtain rfl := completed_of_run_finishAction (c := ⟨_, some v, false⟩) hconclude
    rfl
  · obtain rfl := completed_of_run_finishAction (c := ⟨_, some v, true⟩) hconclude
    rfl

section Transparent

variable (hs : Steady inputs past m) (hm : m.Contained) (hb : (m.node? branch).isSome = true)
  (hpending : (m.store branch).pending = []) (hblind : action.Blind) (hyields : m.Yields action branch path)
include hs hm hb hpending hblind hyields

/-- The chain answers the same value, but not as one that is to be kept as it is. -/
theorem rel_executeAction_chaining :
    Option.Rel (SameResult (fun _ _ => True) fun c' c => c'.value = c.value ∧ c'.raw = false)
      (m.run (executeAction (chaining [action]) branch path)).1 (m.run (executeAction action branch path)).1 := by
  obtain ⟨n, hn⟩ := Option.isSome_iff_exists.1 hb
  rw [Machine.store_of_node? hn] at hpending
  obtain ⟨hposition, hfresh⟩ := Machine.fresh_fork hs hm hn hpending path
  have hroot : m.node? ([] ++ branch) = some n := hn
  have hdirect := hblind.together hs hm hroot hpending path path
  have hchain := run_execute_under hs hm hroot hpending (chaining [action]) path
  rw [under_nil] at hdirect
  rw [under_nil, under_nil] at hchain
  have hown : (actionFork [] branch path m).1 = branch ++ [n.degree] := congrArg (branch ++ [·]) hposition
  rw [hchain]
  refine hfresh.rel_actOn_chaining hpending hblind hdirect fun c z hrun => ?_
  have hbranch : c.branch = branch ++ [n.degree] := (hyields.branch_eq hrun).trans hown
  exact ⟨hbranch, hbranch ▸ hyields.stays c z hrun⟩

/-- **A chain of one action is transparent**, except that it keeps no selection as it is. On a branch without values that
are still to come, let an action answer a value that stays the current one of its fork until all is over there. Then a
leaf whose action hands back a chain of that action comes to the value that a leaf of the action itself comes to, as it is
shown; it fails where that fails, and has no end where that has none. If the value is not to be kept as it is, both are
the same. -/
theorem chain_transparent :
    Option.Rel (SameResult (fun _ _ => True) fun v' v => v' = v.shown)
      (m.run (evalLeaf (chaining [action]) branch path)).1 (m.run (evalLeaf action branch path)).1 ∧
    ∀ c m', m.run (executeAction action branch path) = (some (.ok c), m') → c.raw = false →
      (m.run (evalLeaf (chaining [action]) branch path)).1 = (m.run (evalLeaf action branch path)).1 := by
  have hrel := rel_executeAction_chaining hs hm hb hpending hblind hyields
  rw [Machine.run_evalLeaf, Machine.run_evalLeaf]
  generalize (m.run (executeAction (chaining [action]) branch path)).1 = answer' at hrel ⊢
  refine ⟨?_, fun c m' hrun hraw => ?_⟩
  · generalize (m.run (executeAction action branch path)).1 = answer at hrel ⊢
    cases hrel with
    | none => exact .none
    | some h => exact .some (h.map fun c' c hc => leafValue_of_value hc.1 hc.2)
  · rw [hrun] at hrel ⊢
    cases hrel with
    | some h => cases h with
      | @ok c' _ hc =>
        have hshown : (leafValue c).shown = leafValue c := (leafValue_of_value (c := c) rfl hraw).symm
        exact congrArg (some ∘ Except.ok) ((leafValue_of_value hc.1 hc.2).trans hshown)

end Transparent

/-! ## Where a chain is told from its action -/

/-- What a leaf comes to. -/
def Machine.leaf (m : Machine) (action : Action) : Option (Except ExecutionError Value) :=
  (m.run (evalLeaf action [] .root)).1

/-- Takes its time and answers a selection, to be kept as it is. -/
def selectingAction : Action := do
  Prog.pause 5
  return .ok (.raw (.selection (.node [] "x" [])))

theorem blind_selectingAction : selectingAction.Blind := .sleep 5 (.done (.ok rfl))

/-- The leaf of the action keeps it, and the leaf of the chain shows it. -/
theorem chain_transparent_selecting : Steady .blank [] (.start .blank) ∧ (Machine.start .blank).Contained ∧
    ((Machine.start .blank).node? []).isSome = true ∧ ((Machine.start .blank).store []).pending = [] ∧
    selectingAction.Blind ∧ (Machine.start .blank).Yields selectingAction [] .root ∧
    ((Machine.start .blank).run (evalLeaf selectingAction [] .root)).1 = some (.ok (.selection (.node [] "x" []))) ∧
    ((Machine.start .blank).run (evalLeaf (chaining [selectingAction]) [] .root)).1 = some (.ok (.string "x")) := by
  have hs := Machine.steady_start .blank
  have hm := Machine.contained_start .blank
  obtain ⟨answered, hanswered⟩ : ∃ m', (actionFork [] [] .root (.start .blank)).2.run (selectingAction.on [0]) =
      (some (.ok (.raw (.selection (.node [] "x" [])))), m') :=
    ⟨_, Machine.drive_of_turns (k := 1) rfl rfl⟩
  obtain ⟨ended, hended, hconcluded⟩ : ∃ m', (Machine.start .blank).run (executeAction selectingAction [] .root) =
      (some (.ok ⟨[0], some (.selection (.node [] "x" [])), true⟩), m') ∧
      m'.Concluded [0] (some (.selection (.node [] "x" []))) :=
    ⟨_, Machine.drive_of_turns (k := 1) rfl rfl, rfl, rfl, rfl⟩
  have hyields : (Machine.start .blank).Yields selectingAction [] .root := by
    refine ⟨fun output m' h => ?_, fun c m' h => ?_⟩
    · cases hanswered.symm.trans h
      exact ⟨_, .inr rfl⟩
    · cases hended.symm.trans h
      exact hconcluded
  have hdirect : ((Machine.start .blank).run (evalLeaf selectingAction [] .root)).1 =
      some (.ok (.selection (.node [] "x" []))) := by
    rw [Machine.run_evalLeaf, hended]
    rfl
  refine ⟨hs, hm, rfl, rfl, blind_selectingAction, hyields, hdirect, ?_⟩
  have hrel := (chain_transparent hs hm rfl rfl blind_selectingAction hyields).1
  rw [hdirect] at hrel
  generalize ((Machine.start .blank).run (evalLeaf (chaining [selectingAction]) [] .root)).1 = answer at hrel ⊢
  cases hrel with
  | some h => cases h with
    | ok hv => exact congrArg (some ∘ Except.ok) hv

/-- A machine on which a value is still to come. -/
def expectingMachine : Machine := (Machine.start .blank).spawn [] "k" (.sleep 10 (.done (.ok (.string "one"))))

/-- Answers all values that are there. -/
def tellingAction : Action := do
  return .ok (.value (.map (← Prog.getAll [])))

/-- Answers a value that one of its futures replaces. -/
def replacedAction : Action := do
  Prog.setFuture [] "k" do
    Prog.set [] currentKey (.string "two")
    return .ok .null
  return .ok (.value (.string "one"))

/-- Begins to wait for the values of the branch, and gives it up. -/
def givingUp : Prog (Except ExecutionError (List Unit)) :=
  Prog.parallel [(waitForPending []).bind fun _ => .done (.ok ()),
    .done (.error (EvalError.arrayMapOutsideList.wrap .root [] []))]

/-- Answers a value. What it starts is a value that starts a second one, which starts a third, and every wait for them is
given up, so that the third, which fails, is left when the action is done. -/
def leavingAction : Action := do
  Prog.setFuture [] "a" do
    Prog.setFuture [] "b" do
      Prog.pause 10
      Prog.setFuture [] "c" do
        Prog.pause 10
        return .error (.action "late" [])
      return .ok .null
    let _ ← givingUp
    return .ok .null
  let _ ← givingUp
  return .ok (.value (.string "one"))

theorem blind_tellingAction : tellingAction.Blind := Prog.Alike.operate (.getAll []) rfl fun _ => .done (.ok rfl)

theorem alike_setFuture {route : Route} (branch : Route) (key : String) {future future' : Prog (Except EvalError Value)}
    (h : Prog.Alike [] (SameResult (EvalError.Like []) Eq) future future') :
    Prog.Alike route Eq (setFuture (route ++ branch) key future) (setFuture branch key future') :=
  .spawn key h (.done rfl)

theorem blind_replacedAction : replacedAction.Blind :=
  (alike_setFuture [] "k" (Prog.Alike.operate (.set [] currentKey (.string "two")) rfl fun _ => .done (.ok rfl))).bind
    fun _ _ _ => .done (.ok rfl)

theorem alike_givingUp : Prog.Alike [] (SameResult (fun _ _ => True) (List.Forall₂ Eq)) givingUp givingUp :=
  alike_parallel (.cons ((alike_waitForPending []).bind fun _ _ _ => .done (.ok rfl))
    (.cons (.done (.error trivial)) .nil))

theorem blind_leavingAction : leavingAction.Blind := by
  refine (alike_setFuture [] "a" ((alike_setFuture [] "b" (.sleep 10 ?_)).bind fun _ _ _ => ?_)).bind fun _ _ _ => ?_
  · exact (alike_setFuture [] "c" (.sleep 10 (.done (.error (EvalError.like_refl _))))).bind fun _ _ _ => .done (.ok rfl)
  · exact alike_givingUp.bind fun _ _ _ => .done (.ok rfl)
  · exact alike_givingUp.bind fun _ _ _ => .done (.ok rfl)

/-- A chain of one action is not always transparent: it shows a selection that is to be kept as it is, waits first for
values still to come, and hands over what its fork holds when all is over, or the failure of what is then left. -/
theorem chain_told_from_action :
    (selectingAction.Blind ∧ (Machine.start .blank).leaf selectingAction = some (.ok (.selection (.node [] "x" []))) ∧
      (Machine.start .blank).leaf (chaining [selectingAction]) = some (.ok (.string "x"))) ∧
    (tellingAction.Blind ∧ expectingMachine.leaf tellingAction = some (.ok (.map [])) ∧
      expectingMachine.leaf (chaining [tellingAction]) = some (.ok (.map [("k", .string "one")]))) ∧
    (replacedAction.Blind ∧ (Machine.start .blank).leaf replacedAction = some (.ok (.string "one")) ∧
      (Machine.start .blank).leaf (chaining [replacedAction]) = some (.ok (.string "two"))) ∧
    leavingAction.Blind ∧ (Machine.start .blank).leaf leavingAction = some (.ok (.string "one")) ∧
      ∃ e, (Machine.start .blank).leaf (chaining [leavingAction]) = some (.error e) := by
  refine ⟨⟨blind_selectingAction, ?_, ?_⟩, ⟨blind_tellingAction, ?_, ?_⟩, ⟨blind_replacedAction, ?_, ?_⟩,
    blind_leavingAction, ?_, ?_⟩
  · exact congrArg Prod.fst (Machine.drive_of_turns (k := 1) rfl rfl)
  · exact congrArg Prod.fst (Machine.drive_of_turns (k := 1) rfl rfl)
  · exact congrArg Prod.fst (Machine.drive_of_turns (k := 3) rfl rfl)
  · exact congrArg Prod.fst (Machine.drive_of_turns (k := 3) rfl rfl)
  · exact congrArg Prod.fst (Machine.drive_of_turns (k := 2) rfl rfl)
  · exact congrArg Prod.fst (Machine.drive_of_turns (k := 2) rfl rfl)
  · exact congrArg Prod.fst (Machine.drive_of_turns (k := 6) rfl rfl)
  · exact ⟨_, congrArg Prod.fst (Machine.drive_of_turns (k := 8) rfl rfl)⟩

end MediaQuery
