import MediaQuery.Proofs.Machine.Carried
import MediaQuery.Proofs.Machine.Echo
import MediaQuery.Proofs.Machine.Upheld

/-!
# What stays as a machine goes on

Whatever a machine does, its branches stay where they are and keep their paths, a query stays what it has been started
with, and its log only gets longer (`Machine.Evolves`). So does whatever is read off from that alone: the query that a
branch belongs to, its inputs, and that an entry is in its log.
-/

namespace MediaQuery

/-- The log of the query whose session the node carries. -/
def Node.log (n : Node) : List Path := (n.session.map Session.log).getD []

/-- A node and what it is like later on. -/
structure Node.Evolves (n n' : Node) : Prop where
  path : n'.path = n.path
  inputs : n'.inputs? = n.inputs?
  log : n.log <+: n'.log

theorem Node.Evolves.refl (n : Node) : n.Evolves n := ⟨rfl, rfl, List.prefix_rfl⟩

theorem Node.Evolves.trans {n n' n'' : Node} (h : n.Evolves n') (h' : n'.Evolves n'') : n.Evolves n'' :=
  ⟨h'.path.trans h.path, h'.inputs.trans h.inputs, h.log.trans h'.log⟩

namespace Machine

variable {m m' m'' : Machine} {a b : Route}

/-- A machine and what it is like later on. -/
def Evolves (m m' : Machine) : Prop := ∀ a n, m.node? a = some n → ∃ n', m'.node? a = some n' ∧ n.Evolves n'

theorem Evolves.refl (m : Machine) : Evolves m m := fun _ n h => ⟨n, h, .refl n⟩

theorem Evolves.trans (h : Evolves m m') (h' : Evolves m' m'') : Evolves m m'' := by
  intro a n hn
  obtain ⟨n', hn', hevolves⟩ := h a n hn
  obtain ⟨n'', hn'', hevolves'⟩ := h' a n' hn'
  exact ⟨n'', hn'', hevolves.trans hevolves'⟩

theorem Evolves.isSome (h : Evolves m m') (ha : (m.node? a).isSome = true) : (m'.node? a).isSome = true := by
  obtain ⟨n, hn⟩ := Option.isSome_iff_exists.1 ha
  obtain ⟨n', hn', -⟩ := h a n hn
  rw [hn']
  rfl

/-! ## What machines do -/

/-- What leaves the nodes alone. -/
theorem evolves_of_nodes (h : ∀ a, m'.node? a = m.node? a) : Evolves m m' :=
  fun a n hn => ⟨n, (h a).trans hn, .refl n⟩

/-- A change in place. -/
theorem evolves_of_map {g : Node → Node} (hg : ∀ n : Node, n.Evolves (g n))
    (h : ∀ a, m'.node? a = if a = b then (m.node? a).map g else m.node? a) : Evolves m m' := by
  intro a n hn
  rw [h, hn]
  split
  · exact ⟨g n, rfl, hg n⟩
  · exact ⟨n, rfl, .refl n⟩

/-- A new child. -/
theorem evolves_of_child {n child : Node} (hn : m.node? b = some n)
    (h : ∀ a, m'.node? a = if a = b then some { n with degree := n.degree + 1 }
      else if a = b ++ [n.degree] then some child else m.node? a) : Evolves m m' := by
  intro a n' hn'
  rw [h]
  split
  · next ha =>
    cases (ha ▸ hn').symm.trans hn
    exact ⟨_, rfl, rfl, rfl, List.prefix_rfl⟩
  · split
    · next ha => cases (node?_next hn).symm.trans (ha ▸ hn')
    · exact ⟨n', hn', .refl n'⟩

theorem evolves_modifyStore (m : Machine) (a : Route) (f : Store → Store) : Evolves m (m.modifyStore a f) :=
  evolves_of_map (g := fun n => { n with store := f n.store }) (fun _ => ⟨rfl, rfl, List.prefix_rfl⟩)
    (node?_modifyStore m a · f)

theorem evolves_enter (m : Machine) (a : Route) (path : Path) : Evolves m (m.enter a path) := by
  refine evolves_of_map (g := fun n => { n with session := n.session.map fun s => { s with log := s.log ++ [path] } })
    (fun n => ⟨rfl, ?_, ?_⟩) (node?_enter m a · path)
  · unfold Node.inputs?
    rw [Option.map_map]
    rfl
  · unfold Node.log
    cases n.session with
    | none => exact List.prefix_rfl
    | some s => exact List.prefix_append _ _

/-- An operation. -/
theorem evolves_perform (m : Machine) (base : Route) {α : Type} (op : Op α) : Evolves m (m.perform base op).2 := by
  cases op with
  | set branch key value => exact evolves_modifyStore m _ _
  | record branch result =>
    exact evolves_of_map (g := fun n => { n with results := n.results ++ [result] })
      (fun _ => ⟨rfl, rfl, List.prefix_rfl⟩) (node?_record m _ · result)
  | enter branch path => exact evolves_enter m _ path
  | fork branch options =>
    cases hn : m.node? (base ++ branch) with
    | none => exact evolves_of_nodes fun a => congrArg (node? · a) (addChild_of_none hn)
    | some n => exact evolves_of_child hn (node?_fork hn options)
  | openSession branch inputs =>
    cases hn : m.node? (base ++ branch) with
    | none => exact evolves_of_nodes fun a => congrArg (node? · a) (addChild_of_none hn)
    | some n => exact evolves_of_child hn (node?_open hn inputs)
  | _ => exact .refl m

theorem evolves_spawn (m : Machine) (a : Route) (key : String) (p : Prog (Except EvalError Value)) :
    Evolves m (m.spawn a key p) := by
  unfold spawn
  split
  · exact evolves_modifyStore m a fun s => s.write key (.pending (m.nextFuture a))
  · exact .refl m

theorem evolves_complete (m : Machine) (f : Future) (result : Except EvalError Value) :
    Evolves m (m.complete f result) := by
  unfold complete
  split
  · exact .refl m
  · split
    · next store _ => exact evolves_modifyStore m f.id.home fun _ => store
    · exact .refl m

/-- **Whatever programs do, machines evolve.** -/
theorem upheld_evolves : Upheld ([] <+: ·) Evolves where
  refl := .refl
  trans := .trans
  grows h _ ha := h.isSome ha
  perform _ _ := evolves_perform _ _ _
  spawn m a _ key p _ := evolves_spawn m a key p
  modifyStore m a _ f := evolves_modifyStore m a f
  markAwaited m _ _ := .refl m
  setFuture m _ _ _ _ := .refl m

theorem endured_evolves (a : Route) : Endured a Evolves := upheld_evolves.endured List.nil_prefix

/-! ## What stays -/

/-- A branch keeps its path. -/
theorem Evolves.path (h : Evolves m m') (ha : (m.node? a).isSome = true) : m'.path a = m.path a := by
  obtain ⟨n, hn⟩ := Option.isSome_iff_exists.1 ha
  obtain ⟨n', hn', hevolves⟩ := h a n hn
  rw [path_of_node? hn, path_of_node? hn', hevolves.path]

theorem Evolves.inputs? (h : Evolves m m') (ha : (m.node? a).isSome = true) :
    (m'.node? a).bind Node.inputs? = (m.node? a).bind Node.inputs? := by
  obtain ⟨n, hn⟩ := Option.isSome_iff_exists.1 ha
  obtain ⟨n', hn', hevolves⟩ := h a n hn
  rw [hn, hn', Option.bind_some, Option.bind_some, hevolves.inputs]

theorem isSome_session?_iff (m : Machine) (a : Route) :
    (m.session? a).isSome = ((m.node? a).bind Node.inputs?).isSome := by
  unfold session? Node.inputs?
  cases m.node? a with
  | none => rfl
  | some n => cases hs : n.session <;> simp [hs]

/-- It carries a session if it did. -/
theorem Evolves.isSome_session? (h : Evolves m m') (ha : (m.node? a).isSome = true) :
    (m'.session? a).isSome = (m.session? a).isSome := by
  rw [isSome_session?_iff, isSome_session?_iff, h.inputs? ha]

/-- It belongs to the same query. -/
theorem Evolves.sessionRoute (h : Evolves m m') (ha : (m.node? a).isSome = true) :
    m'.tree.sessionRoute a = m.tree.sessionRoute a := by
  refine sessionRoute_congr fun p hp => ?_
  obtain ⟨more, rfl⟩ := hp
  exact h.isSome_session? (Branch.isSome_node?_of_prefix ha)

/-- The query has the same inputs. -/
theorem Evolves.inputsAt (h : Evolves m m') (ha : (m.node? a).isSome = true) : m'.inputsAt a = m.inputsAt a := by
  refine inputsAt_congr fun p hp => ?_
  obtain ⟨more, rfl⟩ := hp
  exact h.inputs? (Branch.isSome_node?_of_prefix ha)

theorem logAt_eq (m : Machine) (a : Route) : m.logAt a = ((m.node? a).map Node.log).getD [] := by
  unfold logAt session? Node.log
  cases m.node? a <;> rfl

/-- New entries go to the end of its log. -/
theorem Evolves.log_prefix (h : Evolves m m') (ha : (m.node? a).isSome = true) :
    (m.session a).log <+: (m'.session a).log := by
  rw [log_session, log_session, h.sessionRoute ha, logAt_eq, logAt_eq]
  cases hn : m.node? (m.tree.sessionRoute a) with
  | none => exact List.nil_prefix
  | some n =>
    obtain ⟨n', hn', hevolves⟩ := h _ n hn
    rw [hn']
    exact hevolves.log

/-- What is in its log stays there. -/
theorem Evolves.mem_log (h : Evolves m m') (ha : (m.node? a).isSome = true) {path : Path}
    (hp : path ∈ (m.session a).log) : path ∈ (m'.session a).log := (h.log_prefix ha).subset hp

/-! ## Branches of a query -/

/-- A branch that is there and belongs to a query. -/
structure Hosted (m : Machine) (a : Route) : Prop where
  there : (m.node? a).isSome = true
  headed : (m.session? (m.tree.sessionRoute a)).isSome = true

theorem Hosted.evolves (h : m.Hosted a) (hg : Evolves m m') : m'.Hosted a := by
  refine ⟨hg.isSome h.there, ?_⟩
  rw [hg.sessionRoute h.there, hg.isSome_session? (isSome_node?_of_session? h.headed)]
  exact h.headed

/-- Two branches of the same query. -/
structure Kin (m : Machine) (a b : Route) : Prop where
  left : m.Hosted a
  right : m.Hosted b
  route : m.tree.sessionRoute b = m.tree.sessionRoute a

theorem Hosted.kin (h : m.Hosted a) : m.Kin a a := ⟨h, h, rfl⟩

theorem Kin.evolves (h : m.Kin a b) (hg : Evolves m m') : m'.Kin a b :=
  ⟨h.left.evolves hg, h.right.evolves hg, by rw [hg.sessionRoute h.left.there, hg.sessionRoute h.right.there, h.route]⟩

theorem Kin.trans {c : Route} (h : m.Kin a b) (h' : m.Kin b c) : m.Kin a c := ⟨h.left, h'.right, h'.route.trans h.route⟩

/-- They share the session, with its inputs and its log. -/
theorem Kin.session_eq (h : m.Kin a b) : m.session b = m.session a := by
  unfold session
  rw [h.route]

theorem Kin.log_eq (h : m.Kin a b) : (m.session b).log = (m.session a).log := congrArg Session.log h.session_eq

/-- What is entered on a branch of a query is in its log. -/
theorem Hosted.mem_log_enter (h : m.Hosted a) (path : Path) : path ∈ ((m.enter a path).session a).log := by
  have hroute : (m.enter a path).tree.sessionRoute a = m.tree.sessionRoute a :=
    (evolves_enter m a path).sessionRoute h.there
  obtain ⟨s, hs⟩ := Option.isSome_iff_exists.1 h.headed
  rw [log_session, hroute, logAt, session?_enter, if_pos rfl, hs]
  exact List.mem_append_right _ List.mem_cons_self

/-- A fork belongs to the query of its branch, and its path is the one that it is forked with. -/
theorem Hosted.fork (h : m.Hosted a) (options : ForkOptions) :
    (m.addChild a fun c => c.forkOf options).2.Kin a (a ++ [(m.addChild a fun c => c.forkOf options).1]) ∧
      (m.addChild a fun c => c.forkOf options).2.path (a ++ [(m.addChild a fun c => c.forkOf options).1]) =
        (options.path.getD (m.path a)).join options.append := by
  obtain ⟨n, hn⟩ := Option.isSome_iff_exists.1 h.there
  have hnode := node?_fork hn options
  have hevolves : Evolves m (m.addChild a fun c => c.forkOf options).2 := evolves_of_child hn hnode
  have hnew : (m.addChild a fun c => c.forkOf options).2.node? (a ++ [n.degree]) = some (forkNode n options) := by
    rw [hnode, if_neg (by simp), if_pos rfl]
  have hroute : (m.addChild a fun c => c.forkOf options).2.tree.sessionRoute (a ++ [n.degree]) =
      (m.addChild a fun c => c.forkOf options).2.tree.sessionRoute a := by
    have hnone :
        ((m.addChild a fun c => c.forkOf options).2.tree.node? (a ++ [n.degree])).bind Node.session = none := by
      rw [show (m.addChild a fun c => c.forkOf options).2.tree.node? (a ++ [n.degree]) = _ from hnew]
      rfl
    rw [Branch.sessionRoute_snoc, hnone]
    rfl
  have hold := h.evolves hevolves
  rw [addChild_position hn]
  refine ⟨⟨hold, ⟨by rw [hnew]; rfl, ?_⟩, hroute⟩, ?_⟩
  · rw [hroute]
    exact hold.headed
  · rw [path_of_node? hnew, path_of_node? hn]
    rfl

end Machine

end MediaQuery
