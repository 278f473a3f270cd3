import MediaQuery.Machine.State
import MediaQuery.Proofs.Branch.Node
import MediaQuery.Proofs.Branch.Store

/-!
# What the operations of a machine do to its branches

A machine's tree is known by its nodes (`Machine.node?`), and with it the stores. One law for each operation says
which node it changes; what it leaves alone follows.
-/

namespace MediaQuery.Machine

variable {m : Machine} {a b : Route}

/-- The node at the end of a route. -/
def node? (m : Machine) (a : Route) : Option Node := m.tree.node? a

theorem isSome_branch? (m : Machine) (a : Route) : (m.branch? a).isSome = (m.node? a).isSome :=
  m.tree.isSome_at? a

theorem store_eq (m : Machine) (a : Route) : m.store a = ((m.node? a).map Node.store).getD .empty := by
  unfold store branch? node? Branch.node?
  cases m.tree.at? a <;> rfl

theorem store_of_node? {n : Node} (h : m.node? a = some n) : m.store a = n.store := by simp [store_eq, h]

theorem path_eq (m : Machine) (a : Route) : m.path a = ((m.node? a).map Node.path).getD .root := by
  unfold path branch? node? Branch.node?
  cases m.tree.at? a <;> rfl

theorem path_of_node? {n : Node} (h : m.node? a = some n) : m.path a = n.path := by simp [path_eq, h]

theorem history_eq (m : Machine) (a : Route) : m.history a = ((m.node? a).map Node.results).getD [] := by
  unfold history branch? node? Branch.node?
  cases m.tree.at? a <;> rfl

theorem history_of_node? {n : Node} (h : m.node? a = some n) : m.history a = n.results := by simp [history_eq, h]

theorem store_of_none (h : m.node? a = none) : m.store a = .empty := by simp [store_eq, h]

/-- A branch with an entry is there. -/
theorem isSome_node?_of_find? {key : String} {e : Entry} (h : (m.store a).find? key = some e) :
    (m.node? a).isSome = true := by
  cases hn : m.node? a with
  | none => simp [store_of_none hn] at h
  | some n => rfl

/-- A machine that has just been started holds no values. -/
theorem store_start (inputs : Inputs) (a : Route) : (start inputs).store a = .empty := by
  cases a with
  | nil => rfl
  | cons i a => exact store_of_none (Branch.node?_cons _ i a)

/-! ## Changes in place -/

/-- A change of the values of a branch. -/
theorem node?_modifyStore (m : Machine) (a b : Route) (f : Store → Store) :
    (m.modifyStore a f).node? b =
      if b = a then (m.node? b).map fun n => { n with store := f n.store } else m.node? b :=
  Branch.node?_modify (fun c => { c with store := f c.store }) (fun n => { n with store := f n.store })
    (fun _ => rfl) (fun _ => rfl) m.tree a b

theorem isSome_node?_modifyStore (m : Machine) (a b : Route) (f : Store → Store) :
    ((m.modifyStore a f).node? b).isSome = (m.node? b).isSome := by
  rw [node?_modifyStore]
  split <;> simp

theorem store_modifyStore {f : Store → Store} (h : (m.node? a).isSome = true) (b : Route) :
    (m.modifyStore a f).store b = if b = a then f (m.store b) else m.store b := by
  rw [store_eq, node?_modifyStore]
  split
  · next hb =>
    subst hb
    obtain ⟨n, hn⟩ := Option.isSome_iff_exists.1 h
    simp [hn, store_of_node? hn]
  · rw [store_eq]

theorem modifyStore_of_none {f : Store → Store} (h : m.node? a = none) : m.modifyStore a f = m := by
  cases m
  exact congrArg (Machine.mk · _ _ _) (Branch.modify_of_none h)

/-- A change of the results of a branch. -/
theorem node?_record (m : Machine) (a b : Route) (result : Option Value) :
    (m.modify a fun c => { c with results := c.results ++ [result] }).node? b =
      if b = a then (m.node? b).map fun n => { n with results := n.results ++ [result] } else m.node? b :=
  Branch.node?_modify (fun c => { c with results := c.results ++ [result] })
    (fun n => { n with results := n.results ++ [result] }) (fun _ => rfl) (fun _ => rfl) m.tree a b

/-- A new entry of the log. -/
theorem node?_enter (m : Machine) (a b : Route) (path : Path) :
    (m.enter a path).node? b =
      if b = m.tree.sessionRoute a then
        (m.node? b).map fun n => { n with session := n.session.map fun s => { s with log := s.log ++ [path] } }
      else m.node? b :=
  Branch.node?_modify (fun c => { c with session := c.session.map fun s => { s with log := s.log ++ [path] } })
    (fun n => { n with session := n.session.map fun s => { s with log := s.log ++ [path] } })
    (fun _ => rfl) (fun _ => rfl) m.tree _ b

/-- A change that leaves the store of every node alone. -/
theorem store_congr {m' : Machine} (h : (m'.node? b).map Node.store = (m.node? b).map Node.store) :
    m'.store b = m.store b := by rw [store_eq, store_eq, h]

theorem store_enter (m : Machine) (a b : Route) (path : Path) : (m.enter a path).store b = m.store b := by
  refine store_congr ?_
  rw [node?_enter]
  split
  · rw [Option.map_map]
    rfl
  · rfl

theorem store_record (m : Machine) (a b : Route) (result : Option Value) :
    (m.modify a fun c => { c with results := c.results ++ [result] }).store b = m.store b := by
  refine store_congr ?_
  rw [node?_record]
  split
  · rw [Option.map_map]
    rfl
  · rfl

/-! ## New branches -/

/-- The node of a new child of a branch. -/
def forkNode (n : Node) (options : ForkOptions) : Node :=
  { session := none
    store := match options.data with
      | some values => .ofValues values
      | none => n.store
    path := (options.path.getD n.path).join options.append
    results := []
    degree := 0 }

/-- The node of the first branch of a query. -/
def rootNode (inputs : Inputs) : Node := ⟨some ⟨inputs, []⟩, .empty, .root, [], 0⟩

/-- Where there is no branch no child is made. -/
theorem addChild_of_none {f : Branch → Branch} (h : m.node? a = none) : (m.addChild a f).2 = m := by
  cases m
  exact congrArg (Machine.mk · _ _ _) (Branch.modify_of_none h)

theorem addChild_position {child : Branch → Branch} {n : Node} (h : m.node? a = some n) :
    (m.addChild a child).1 = n.degree := by
  obtain ⟨c, hc, rfl⟩ := Option.map_eq_some_iff.1 h
  unfold addChild branch?
  rw [hc]
  rfl

/-- A fork adds its node and counts at its parent. -/
theorem node?_fork {n : Node} (h : m.node? a = some n) (options : ForkOptions) (b : Route) :
    (m.addChild a fun c => c.forkOf options).2.node? b =
      if b = a then some { n with degree := n.degree + 1 }
      else if b = a ++ [n.degree] then some (forkNode n options)
      else m.node? b := by
  obtain ⟨c, hc, rfl⟩ := Option.map_eq_some_iff.1 h
  exact Branch.node?_addChild (fun _ => rfl) m.tree hc b

/-- The first branch of a nested query adds its node and counts at its parent. -/
theorem node?_open {n : Node} (h : m.node? a = some n) (inputs : Inputs) (b : Route) :
    (m.addChild a fun _ => .root inputs).2.node? b =
      if b = a then some { n with degree := n.degree + 1 }
      else if b = a ++ [n.degree] then some (rootNode inputs)
      else m.node? b := by
  obtain ⟨c, hc, rfl⟩ := Option.map_eq_some_iff.1 h
  exact Branch.node?_addChild (fun _ => rfl) m.tree hc b

/-- The next child of a branch is not there yet. -/
theorem node?_next {n : Node} (h : m.node? a = some n) : m.node? (a ++ [n.degree]) = none := by
  cases hc : m.node? (a ++ [n.degree]) with
  | none => rfl
  | some d =>
    have hsome : (m.tree.node? (a ++ [n.degree])).isSome = true := by
      rw [show m.tree.node? (a ++ [n.degree]) = some d from hc]
      rfl
    obtain ⟨n', hn', hlt⟩ := (Branch.isSome_node?_snoc m.tree a n.degree).1 hsome
    cases h.symm.trans hn'
    exact absurd hlt (Nat.lt_irrefl _)

/-- What a branch that is there holds when a child is added. -/
theorem store_of_new_child {m' : Machine} {n child : Node} (n' : Node) (h : m.node? a = some n) (hn : n'.store = n.store)
    (hnode : ∀ b, m'.node? b =
      if b = a then some n' else if b = a ++ [n.degree] then some child else m.node? b) (b : Route) :
    m'.store b = if b = a ++ [n.degree] then child.store else m.store b := by
  by_cases hb : b = a
  · have hne : b ≠ a ++ [n.degree] := by
      intro hbc
      have hlen := congrArg List.length (hb.symm.trans hbc)
      simp at hlen
    subst hb
    rw [if_neg hne, store_of_node? h, ← hn]
    exact store_of_node? (by rw [hnode, if_pos rfl])
  · by_cases hbc : b = a ++ [n.degree]
    · rw [if_pos hbc]
      exact store_of_node? (by rw [hnode, if_neg hb, if_pos hbc])
    · rw [if_neg hbc]
      exact store_congr (by rw [hnode, if_neg hb, if_neg hbc])

theorem store_fork {n : Node} (h : m.node? a = some n) (options : ForkOptions) (b : Route) :
    (m.addChild a fun c => c.forkOf options).2.store b =
      if b = a ++ [n.degree] then (forkNode n options).store else m.store b :=
  store_of_new_child { n with degree := n.degree + 1 } h rfl (node?_fork h options) b

theorem store_open {n : Node} (h : m.node? a = some n) (inputs : Inputs) (b : Route) :
    (m.addChild a fun _ => .root inputs).2.store b =
      if b = a ++ [n.degree] then .empty else m.store b :=
  store_of_new_child { n with degree := n.degree + 1 } h rfl (node?_open h inputs) b

/-! ## Futures -/

theorem node?_spawn (h : (m.node? a).isSome = true) (key : String) (p : Prog (Except EvalError Value)) (b : Route) :
    (m.spawn a key p).node? b =
      (m.modifyStore a fun s => s.write key (.pending (m.nextFuture a))).node? b := by
  unfold spawn
  rw [isSome_branch?, if_pos h]
  rfl

theorem store_spawn (h : (m.node? a).isSome = true) (key : String) (p : Prog (Except EvalError Value)) (b : Route) :
    (m.spawn a key p).store b =
      if b = a then (m.store b).write key (.pending (m.nextFuture a)) else m.store b := by
  have hsame : (m.spawn a key p).store b =
      (m.modifyStore a fun s => s.write key (.pending (m.nextFuture a))).store b :=
    store_congr (by rw [node?_spawn h])
  rw [hsame, store_modifyStore h]

@[simp] theorem node?_setFuture (m : Machine) (id : FutureId) (state : FutureState) (b : Route) :
    (m.setFuture id state).node? b = m.node? b := rfl

@[simp] theorem store_setFuture (m : Machine) (id : FutureId) (state : FutureState) (b : Route) :
    (m.setFuture id state).store b = m.store b := rfl

/-- A value goes into the entry of its future as long as that is there. -/
theorem complete_of_live {f : Future} {entry : Entry} (h : (m.store f.id.home).find? f.key = some entry)
    (hgen : entry.generation = f.id.generation) (v : Value) :
    m.complete f (.ok v) =
      (m.modifyStore f.id.home fun s => s.replace f.key f.id.generation (.ready v)).setFuture f.id
        (.ended (.ok v) (.ok ())) := by
  have hlive : ∃ e, (m.store f.id.home).find? f.key = some e ∧ e.generation = f.id.generation := ⟨entry, h, hgen⟩
  have hsame : (m.modifyStore f.id.home fun _ => (m.store f.id.home).replace f.key f.id.generation (.ready v)) =
      m.modifyStore f.id.home fun s => s.replace f.key f.id.generation (.ready v) := by
    refine congrArg (Machine.mk · _ _ _) (Branch.modify_congr fun c hc => ?_)
    unfold store branch?
    rw [hc]
    rfl
  simp only [complete]
  rw [Store.resolve_eq, if_pos hlive]
  exact congrArg (·.setFuture f.id (.ended (.ok v) (.ok ()))) hsame

theorem isSome_node?_complete (m : Machine) (f : Future) (result : Except EvalError Value) (b : Route) :
    ((m.complete f result).node? b).isSome = (m.node? b).isSome := by
  cases result with
  | error e => rfl
  | ok v =>
    simp only [complete]
    split
    · rw [node?_setFuture, isSome_node?_modifyStore]
    · rfl

theorem store_complete_of_live {f : Future} {entry : Entry} (h : (m.store f.id.home).find? f.key = some entry)
    (hgen : entry.generation = f.id.generation) (v : Value) (b : Route) :
    (m.complete f (.ok v)).store b =
      if b = f.id.home then (m.store b).replace f.key f.id.generation (.ready v) else m.store b := by
  rw [complete_of_live h hgen, store_setFuture, store_modifyStore (isSome_node?_of_find? h)]

/-- A value whose entry is gone is stale. -/
theorem complete_of_stale {f : Future}
    (h : ∀ entry, (m.store f.id.home).find? f.key = some entry → entry.generation ≠ f.id.generation) (v : Value) :
    m.complete f (.ok v) = m.setFuture f.id (.ended (.ok v) (.error (.context (.staleWrite f.key)))) := by
  have hgone : ¬ ∃ e, (m.store f.id.home).find? f.key = some e ∧ e.generation = f.id.generation :=
    fun ⟨e, he, hgen⟩ => h e he hgen
  simp only [complete]
  rw [Store.resolve_eq, if_neg hgone]

end MediaQuery.Machine
