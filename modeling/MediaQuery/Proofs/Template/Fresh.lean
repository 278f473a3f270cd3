import MediaQuery.Proofs.Machine.Aside
import MediaQuery.Proofs.Machine.Hosted
import MediaQuery.Proofs.Machine.Local
import MediaQuery.Proofs.Machine.Siblings
import MediaQuery.Proofs.Program.Retimed

/-!
# Actions on fresh forks

The fork on which an action begins is a machine of its own (`Fresh`, `fresh_fork`), so an action that does not depend on
the execution log does the same on all forks that hold the same, whatever path its failures are reported at
(`Action.Blind.together`). The branch that the fork is made from is left alone, if nothing else uses it
(`Action.Blind.aside`). A fork of a fresh fork is such a fork once more (`Fresh.together`, `Fresh.aside`).
-/

namespace MediaQuery

open Machine (Together Hosts Steady Event)
open Prog

variable {route branch own : Route} {path : Path} {α β : Type} {action : Action} {m : Machine} {inputs : Inputs}
  {past : List Event} {n : Node} {clock : Nat}

/-! ## Wherever failures are reported -/

namespace Prog

/-- One program after another, further down. -/
theorem under_bind (p : Prog α) (k : α → Prog β) (route : Route) :
    (p.bind k).under route = (p.under route).bind fun a => (k a).under route := by
  induction p with
  | done a => rfl
  | act op next ih => exact congrArg (Prog.act _) (funext fun b => ih b k)
  | sleep ms next ih => exact congrArg (Prog.sleep ms) (ih k)
  | spawn branch key future next _ ih => exact congrArg (Prog.spawn _ key future) (ih k)
  | resolve branch key next ih => exact congrArg (Prog.resolve _ key) (funext fun r => ih r k)
  | settle branch next ih => exact congrArg (Prog.settle _) (funext fun r => ih r k)
  | all parts next _ ih => exact congrArg (Prog.all _) (funext fun r => ih r k)

/-- Failures that leave their branches as those of different places. -/
theorem Alike.wrapping_anywhere {E : EvalError → EvalError → Prop} {R : α → α → Prop}
    {p q : Prog (Except EvalError α)} (h : Alike route (SameResult E R) p q) (branch : Route) (path path' : Path) :
    Alike route (SameResult (fun _ _ => True) R) (Prog.wrapping (route ++ branch) path p)
      (Prog.wrapping branch path' q) := by
  refine h.bind fun r r' hr => ?_
  cases hr with
  | ok ha => exact .done (.ok ha)
  | error _ => exact (alike_log branch).bind fun _ _ _ => .done (.error trivial)

end Prog

theorem Action.Blind.actOn_anywhere (h : action.Blind) (own : Route) (path path' : Path) :
    Prog.Alike route (SameResult (fun _ _ => True) (Completed.Like route))
      (MediaQuery.actOn action (route ++ own) path) (MediaQuery.actOn action own path') := by
  refine ((h.on own).wrapping_anywhere own path path').andThen fun output _ houtput => ?_
  subst houtput
  refine (alike_keepOutput own output).andThenLift fun c c' hc => ?_
  refine ((alike_waitForPending own).wrapping_anywhere own path path').andThen fun _ _ _ => ?_
  rw [hc.branch]
  exact ((alike_waitForPending c'.branch).wrapping_anywhere c'.branch path path').andThen fun _ _ _ => .done (.ok hc)

/-- An action on a fork of a branch does what it does on a branch of its own. -/
theorem Action.Blind.under_fork (h : action.Blind) (i : Nat) (path path' : Path) :
    Prog.Alike (route ++ branch ++ [i]) (SameResult (fun _ _ => True) (Completed.Like (branch ++ [i])))
      ((MediaQuery.actOn action (branch ++ [i]) path).under route) (MediaQuery.actOn action [] path') := by
  have halike : Prog.Alike (route ++ branch ++ [i]) (SameResult (fun _ _ => True) (Completed.Like (branch ++ [i])))
      ((MediaQuery.actOn action (branch ++ [i] ++ []) path).under route)
      ((MediaQuery.actOn action [] path').under []) := (h.actOn_anywhere [] path path').under (by simp)
  rwa [List.append_nil, under_nil] at halike

/-! ## Fresh forks -/

namespace Machine

variable {a : Route}

/-- Once a branch is there, no new child of another is that branch. -/
theorem settled_ne (h : (m.node? a).isSome = true) : m.Settled (· ≠ a) := by
  intro m' hg x hx heq
  by_cases hbelow : a <+: x
  · have hlength := hbelow.length_le
    rw [← heq, List.length_append, List.length_singleton] at hlength
    omega
  · exact settled_away h m' hg x hbelow (heq ▸ List.prefix_rfl)

/-- A fork on which nothing has been started, and which no future uses: a machine of its own. Whatever runs elsewhere
keeps to branches that are there. -/
structure Fresh (inputs : Inputs) (n : Node) (clock : Nat) (own : Route) (m : Machine) : Prop where
  steady : ∃ first past, Steady first past m
  contained : m.Contained
  node : m.node? own = some n
  heeds : m.Heeds (· ≠ own)
  hosts : Hosts own m (lone inputs n clock)

/-- **The fork on which an action begins is fresh.** -/
theorem fresh_fork (hs : Steady inputs past m) (hm : m.Contained) (hn : m.node? a = some n)
    (hpending : n.store.pending = []) (path : Path) :
    ((m.enter a path).addChild a fun c => c.forkOf (.place path)).1 = n.degree ∧
      Fresh (m.inputsAt a) (forkNode n (.place path)) m.clock (a ++ [n.degree])
        ((m.enter a path).addChild a fun c => c.forkOf (.place path)).2 := by
  obtain ⟨hsown, hnext⟩ := (sown_of_steady hs hn (hm.clear a)).enter path
  obtain ⟨first, past', hs'⟩ := hsown.steady
  obtain ⟨n', hn', hstore, hpath⟩ := hsown.node
  have hdegree : n'.degree = n.degree := by rw [← nextChild_of_node? hn', hnext, nextChild_of_node? hn]
  have hnode : forkNode n' (.place path) = forkNode n (.place path) := by
    unfold forkNode
    rw [hstore, hpath]
  have hthere : (m.node? ([] ++ (Op.enter a path).branch)).isSome = true := Option.isSome_of_mem hn
  have hentered : (m.enter a path).Contained := hm.stays (stays_perform hthere)
  have hthere' : ((m.enter a path).node? ([] ++ (Op.fork a (.place path)).branch)).isSome = true :=
    Option.isSome_of_mem hn'
  have hforked : ((m.enter a path).addChild a fun c => c.forkOf (.place path)).2.Contained :=
    hentered.stays (stays_perform hthere')
  have hhosts := hosts_fork hs' hn' (hstore ▸ hpending) (hentered.clear a) (.place path)
  have hself := node?_fork hn' (.place path) (a ++ [n'.degree])
  rw [if_neg (by simp), if_pos rfl] at hself
  rw [hsown.inputs, hsown.clock, hnode, hdegree] at hhosts
  rw [hnode, hdegree] at hself
  -- no branch that has been there is the fork
  have hamong : m.Among (· ≠ a ++ [n.degree]) := fun x hx heq => by
    rw [heq, node?_next hn] at hx
    cases hx
  have hheeds : m.Heeds (· ≠ a ++ [n.degree]) :=
    ⟨fun f hf => hamong _ (there_of_mem hs.history hf), fun f hf run hrun => hm f hf run hrun _ hamong⟩
  exact ⟨(addChild_position hn').trans hdegree, (hsown.fork (.place path)).1.steady, hforked, hself,
    hheeds.congr rfl, hhosts⟩

end Machine

/-! ## Actions on them -/

section Fork

variable (hs : Steady inputs past m) (hm : m.Contained) (hn : m.node? (route ++ branch) = some n)
  (hpending : n.store.pending = [])
include hs hm hn hpending

/-- To execute an action is to let it act on the fork. -/
theorem run_execute_under (action : Action) (path : Path) : m.run ((executeAction action branch path).under route) =
    ((m.enter (route ++ branch) path).addChild (route ++ branch) fun c => c.forkOf (.place path)).2.run
      ((actOn action (branch ++ [n.degree]) path).under route) := by
  have hrun : m.run ((executeAction action branch path).under route) =
      ((m.enter (route ++ branch) path).addChild (route ++ branch) fun c => c.forkOf (.place path)).2.run
        ((actOn action (branch ++ [((m.enter (route ++ branch) path).addChild (route ++ branch)
          fun c => c.forkOf (.place path)).1]) path).under route) := rfl
  rw [hrun, (Machine.fresh_fork hs hm hn hpending path).1]

/-- **On a fresh fork an action does what it does on a machine of its own**, whatever the path. -/
theorem Action.Blind.together (h : action.Blind) (path path' : Path) :
    Together (route ++ branch ++ [n.degree]) (SameResult (fun _ _ => True) (Completed.Like (branch ++ [n.degree])))
      (m.run ((executeAction action branch path).under route))
      ((Machine.lone (m.inputsAt (route ++ branch)) (Machine.forkNode n (.place path)) m.clock).run
        (MediaQuery.actOn action [] path')) := by
  obtain ⟨-, hfresh⟩ := Machine.fresh_fork hs hm hn hpending path
  obtain ⟨first, past', hs'⟩ := hfresh.steady
  rw [run_execute_under hs hm hn hpending]
  exact hfresh.hosts.together (h.under_fork n.degree path path') hs'

/-- **The branch itself is left alone**, if no future uses it either. -/
theorem Action.Blind.aside (h : action.Blind) (hheeds : m.Heeds (· ≠ route ++ branch)) (path : Path) :
    (m.run ((executeAction action branch path).under route)).2.store (route ++ branch) = n.store ∧
      (m.run ((executeAction action branch path).under route)).2.Heeds (· ≠ route ++ branch) := by
  have hthere := (Machine.fresh_fork hs hm hn hpending path).2.node
  rw [run_execute_under hs hm hn hpending]
  generalize hforked : ((m.enter (route ++ branch) path).addChild (route ++ branch) fun c =>
    c.forkOf (.place path)).2 = forked at hthere ⊢
  have hstore : forked.store (route ++ branch) = n.store := by
    rw [← hforked, Machine.store_fork_self, Machine.store_enter, Machine.store_of_node? hn]
  have hself : (forked.node? (route ++ branch)).isSome = true :=
    Branch.isSome_node?_of_prefix (Option.isSome_of_mem hthere)
  have hheeds' : forked.Heeds (· ≠ route ++ branch) := hheeds.congr (hforked ▸ rfl)
  have hoff (x : Route) (hx : route ++ branch ++ [n.degree] <+: x) : x ≠ route ++ branch := fun heq =>
    away_self (route ++ branch) n.degree (heq ▸ hx)
  have hbelow : ((MediaQuery.actOn action (branch ++ [n.degree]) path).under route).Uses
      (route ++ branch ++ [n.degree] <+: ·) [] _ := (h.under_fork n.degree path path).uses List.prefix_rfl
  have huses := hbelow.mono hoff (fun _ _ hx => hx.trans (List.prefix_append _ _)) fun _ _ => trivial
  have haside := Machine.aside_run hheeds' (Machine.settled_ne hself) huses
  exact ⟨(haside.store _ (not_not_intro rfl)).trans hstore, haside.heeds⟩

end Fork

/-! ## The first step of a chain -/

namespace Machine.Fresh

variable (h : Fresh inputs (forkNode n (.place path)) clock own m) (hpending : n.store.pending = [])
include h hpending

theorem pending : (m.store own).pending = [] := by
  rw [store_of_node? h.node]
  exact hpending

variable (hblind : action.Blind)
include hblind

/-- On the fork of the first step of a chain an action does what it would do on the fresh fork itself. -/
theorem together (path' : Path) :
    Together (own ++ [0]) (SameResult (fun _ _ => True) (Completed.Like [0]))
      (m.run ((executeAction action [] ((m.path own).withStep 1)).under own))
      ((lone inputs (forkNode n (.place path)) clock).run (actOn action [] path')) := by
  obtain ⟨first, past, hs⟩ := h.steady
  have hn : m.node? (own ++ []) = some (forkNode n (.place path)) := (List.append_nil own).symm ▸ h.node
  have hpath : m.path own = path.join [] := path_of_node? h.node
  -- the fork of the step holds what the fresh fork holds, at the same path
  have hagain : forkNode (forkNode n (.place path)) (.place ((m.path own).withStep 1)) = forkNode n (.place path) := by
    simp [hpath, forkNode, ForkOptions.place, Path.join, Path.withStep]
  have hinputs : m.inputsAt (own ++ []) = inputs := (h.hosts.mirrors.inputs []).trans (inputsAt_lone [])
  have hclock : m.clock = clock := h.hosts.mirrors.clock
  have htogether := hblind.together hs h.contained hn hpending ((m.path own).withStep 1) path'
  rwa [hagain, hinputs, hclock, List.append_nil] at htogether

/-- The step leaves the fresh fork alone. -/
theorem aside (step : Path) : (m.run ((executeAction action [] step).under own)).2.store own = m.store own ∧
    (m.run ((executeAction action [] step).under own)).2.Heeds (· ≠ own) := by
  obtain ⟨first, past, hs⟩ := h.steady
  have hn : m.node? (own ++ []) = some (forkNode n (.place path)) := (List.append_nil own).symm ▸ h.node
  have haside := hblind.aside hs h.contained hn hpending ((List.append_nil own).symm ▸ h.heeds) step
  rwa [List.append_nil, ← store_of_node? h.node] at haside

end Machine.Fresh

end MediaQuery
