import MediaQuery.Proofs.Machine.Local
import MediaQuery.Proofs.Machine.Lodging

/-!
# How things stand on a branch

What is evaluated on a branch of a vacant machine depends on what the branch offers (`Setting`) and on the time
(`Machine.Stands`). A fork offers what its branch does (`Stands.fork`), and what is done on forks leaves the branch as
it was (`Stands.spared`). A calm program that keeps to the branches that are there answers branches that are there
afterwards (`local_run_of_calm`).
-/

namespace MediaQuery

open Machine

/-- What a branch offers to what is evaluated on it. -/
structure Setting where
  inputs : Inputs
  store : Store

namespace Setting

/-- The setting after a key has been set. -/
def write (g : Setting) (key : String) (v : Value) : Setting := ⟨g.inputs, g.store.write key (.ready v)⟩

/-- The setting after several keys have been set in order. -/
def writeAll (g : Setting) : List (String × Value) → Setting
  | [] => g
  | e :: rest => (g.write e.1 e.2).writeAll rest

/-- A fork at a path as a machine of its own. -/
def alone (g : Setting) (path : Path) (t : Nat) : Machine :=
  lone g.inputs (forkNode ⟨none, g.store, .root, [], 0⟩ (.place path)) t

theorem lone_forkNode {g : Setting} {n : Node} (hn : n.store = g.store) (path : Path) (t : Nat) :
    lone g.inputs (forkNode n (.place path)) t = g.alone path t := by
  unfold alone forkNode
  rw [hn]
  rfl

end Setting

namespace Machine

/-- What a branch of a machine offers. -/
def setting (m : Machine) (b : Route) : Setting := ⟨m.inputsAt b, m.store b⟩

/-- How things stand on a branch of a machine: what it offers, at what instant, and which session it belongs to. Nothing
runs on the machine, and the branch holds no reference to a future. -/
structure Stands (m : Machine) (s b : Route) (g : Setting) (t : Nat) : Prop where
  vacant : m.Vacant
  there : (m.node? b).isSome = true
  setting : m.setting b = g
  pending : g.store.pending = []
  route : m.tree.sessionRoute b = s
  clock : m.clock = t

variable {m m' m₀ l : Machine} {s s' b place x : Route} {g : Setting} {t k : Nat} {n : Node} {α β : Type}
  {Q : (Route → Prop) → α → Prop}

/-! ## Branches -/

theorem Stands.node (h : m.Stands s b g t) : ∃ n, m.node? b = some n ∧ n.store = g.store ∧ m.inputsAt b = g.inputs := by
  obtain ⟨n, hn⟩ := Option.isSome_iff_exists.1 h.there
  have hsetting := h.setting
  refine ⟨n, hn, ?_, congrArg Setting.inputs hsetting⟩
  rw [← store_of_node? hn]
  exact congrArg Setting.store hsetting

theorem stands_of_node (hv : m.Vacant) (hn : m.node? b = some n) (hstore : n.store = g.store)
    (hinputs : m.inputsAt b = g.inputs) (hpending : g.store.pending = []) :
    m.Stands (m.tree.sessionRoute b) b g m.clock := by
  refine ⟨hv, hn ▸ rfl, ?_, hpending, rfl, rfl⟩
  unfold Machine.setting
  rw [hinputs, store_of_node? hn, hstore]

/-- A fork as a machine of its own offers what the branch does. -/
theorem stands_alone (hpending : g.store.pending = []) (path : Path) (t : Nat) : (g.alone path t).Stands [] [] g t :=
  stands_of_node (vacant_lone _ _ _) rfl rfl (inputsAt_lone []) hpending

/-- A fork offers what its branch does. -/
theorem Stands.fork (h : m.Stands s b g t) (path : Path) :
    ∃ i, m.perform [] (.fork b (.place path)) = (i, (m.addChild b fun c => c.forkOf (.place path)).2) ∧
      (m.addChild b fun c => c.forkOf (.place path)).2.Stands s (b ++ [i]) g t := by
  obtain ⟨n, hn, hstore, hinputs⟩ := h.node
  have hposition : (m.addChild b fun c => c.forkOf (.place path)).1 = n.degree := addChild_position hn
  refine ⟨n.degree, Prod.ext hposition rfl, ?_⟩
  have hnode := node?_fork hn (.place path) (b ++ [n.degree])
  rw [if_neg (by simp), if_pos rfl] at hnode
  have hforked : Rested m (m.addChild b fun c => c.forkOf (.place path)).2 :=
    (h.vacant.rest.perform [] (.fork b (.place path))).1
  have hlinked : Linked _ _ _ (lone g.inputs (forkNode n (.place path)) t) :=
    h.vacant.linked_fork hn (.place path) t
  have hsame := stands_of_node (h.vacant.rested hforked) hnode hstore ?_ h.pending
  · rwa [hlinked.route, h.route, show (m.addChild b fun c => c.forkOf (.place path)).2.clock = t from h.clock] at hsame
  · rw [inputsAt_fork hn]
    have hnew := inputsAt_append_of_none (node?_next hn) []
    rw [List.append_nil] at hnew
    exact hnew.trans hinputs

/-- A branch on which a key is set. -/
theorem Stands.write (h : m.Stands s b g t) (key : String) (v : Value) :
    (m.perform [] (.set b key v)).2.Stands s b (g.write key v) t := by
  obtain ⟨n, hn, hstore, hinputs⟩ := h.node
  have hset : Rested m (m.perform [] (.set b key v)).2 := (h.vacant.rest.perform [] (.set b key v)).1
  have hnode := node?_modifyStore m b b fun s => s.write key (.ready v)
  rw [if_pos rfl, hn, Option.map_some] at hnode
  have hsame := stands_of_node (g := g.write key v) (h.vacant.rested hset) hnode
    (congrArg (Store.write · key (.ready v)) hstore) ((inputsAt_modifyStore m b b _).trans hinputs)
    (Store.pending_write h.pending key v)
  rwa [hset.heads.sessionRoute h.there, h.route, show (m.perform [] (.set b key v)).2.clock = t from h.clock] at hsame

/-- What is done on forks of a branch leaves it as it was. -/
theorem Stands.spared (h : m.Stands s b g t) (hs : Spared b s' k m m') (hr : Rested m m') :
    m'.Stands s b g m'.clock := by
  obtain ⟨n, hn, hstore, hinputs⟩ := h.node
  obtain ⟨n', hn', hstore', -, -, -⟩ := hs.trunk_eq hn
  have hsame := stands_of_node (h.vacant.rested hr) hn' (hstore'.trans hstore) ((hs.inputs b h.there).trans hinputs)
    h.pending
  rwa [hs.sessionRoute h.there, h.route] at hsame

/-- A branch below a place offers what the branch of the machine that is found there does. -/
theorem Stands.housed (h : l.Stands s' x g t) (hh : Hosts place m l) (hl : Linked place s m l) (hv : m.Vacant) :
    m.Stands (if s' = [] then s else place ++ s') (place ++ x) g t := by
  obtain ⟨n, hn, hstore, hinputs⟩ := h.node
  have hrel := hh.mirrors.node x
  rw [hn] at hrel
  obtain ⟨n', hn', halike⟩ : ∃ n', m.node? (place ++ x) = some n' ∧ n'.Alike place n := by
    cases hn' : m.node? (place ++ x) with
    | none =>
      rw [hn'] at hrel
      cases hrel
    | some n' =>
      rw [hn'] at hrel
      cases hrel with
      | some halike => exact ⟨n', rfl, halike⟩
  have hstore' : n'.store = g.store := by
    rw [halike.store, hstore]
    exact Store.shift_of_settled place g.store h.pending
  have hsame := stands_of_node hv hn' hstore' ((hh.mirrors.inputs x).trans hinputs) h.pending
  rwa [hl.sessionRoute, h.route, hh.mirrors.clock, h.clock] at hsame

/-! ## What calm programs answer -/

theorem local_drive_of_calm (main : Run α) (m : Machine) (hm : m.Resting) (hr : main.Calm m.clock)
    (hl : main.Local m [] Q) : ∀ a, (drive main m).1 = some a → ∀ T, (drive main m).2.Among T → Q T a := by
  -- along the turns
  induction main, m using drive.induct with
  | case1 main m a h =>
    cases main with
    | done a =>
      cases h
      rw [drive_of_result rfl]
      intro a' ha T hT
      cases ha
      cases hl T hT with
      | done hQ => exact hQ
    | _ => cases h
  | case2 main m h main' m' ht ih =>
    obtain ⟨w, -, hlt, hturn⟩ := turn_of_calm hm hr h
    have hresumed : CalmRun { m with clock := w } (main.resume [] { m with clock := w }) :=
      calm_resume hr (hm.advance (Nat.le_of_lt hlt)).rest
    have hlocal : LocalRun [] Q { m with clock := w } (main.resume [] { m with clock := w }) := local_resume hl
    rw [drive_of_turn h ht]
    rw [← Option.some.inj (ht.symm.trans hturn)] at hresumed hlocal
    exact ih hresumed.rested.rest (by rw [hresumed.clock]; exact hresumed.calm) hlocal.isLocal
  | case3 main m h ht =>
    obtain ⟨w, -, -, hturn⟩ := turn_of_calm hm hr h
    cases ht.symm.trans hturn

/-- **What a calm program answers that is local is as told of the branches that are there afterwards.** -/
theorem local_run_of_calm {p : Prog α} (hp : p.Calm) (hm : m.Resting) (hl : p.Local m [] Q) :
    ∀ a, (m.run p).1 = some a → ∀ T, (m.run p).2.Among T → Q T a := by
  have hstarted : CalmRun m (p.start [] m) := calm_start hp hm
  exact local_drive_of_calm _ _ hstarted.rested.rest (by rw [hstarted.clock]; exact hstarted.calm)
    (local_start hl).isLocal

end Machine

end MediaQuery
