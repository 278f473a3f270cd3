import MediaQuery.Proofs.Machine.History

/-!
# How the tree of branches grows

Of what happens to a machine, only a fork and a nested query make a branch, each one child of a branch that is there
(`Growth`, `growth_of_step`). All others leave the tree as it is: the branches, their paths, how many children they have,
and where queries start (`Node.shape`).
-/

namespace MediaQuery

/-- What there is to see of a branch in the tree: its path, the number of its children, and whether a query starts
there. -/
structure Shape where
  path : Path
  degree : Nat
  starts : Bool

/-- The shape of a node. -/
def Node.shape (n : Node) : Shape := ⟨n.path, n.degree, n.session.isSome⟩

namespace Machine

variable {inputs : Inputs} {past : List Event} {m m' : Machine} {a b : Route} {e : Event}

/-- The shape of the branch at the end of a route. -/
def shape? (m : Machine) (a : Route) : Option Shape := (m.node? a).map Node.shape

theorem path_of_shape? {s : Shape} (h : m.shape? a = some s) : m.path a = s.path := by
  obtain ⟨n, hn, rfl⟩ := Option.map_eq_some_iff.1 h
  exact path_of_node? hn

/-- The next child of a branch is not there yet. -/
theorem shape?_next {s : Shape} (h : m.shape? a = some s) : m.shape? (a ++ [s.degree]) = none := by
  obtain ⟨n, hn, rfl⟩ := Option.map_eq_some_iff.1 h
  rw [shape?, show n.shape.degree = n.degree from rfl, node?_next hn]
  rfl

/-- A branch has got a child. -/
def Bears (m m' : Machine) (b : Route) (s child : Shape) : Prop :=
  ∀ a, m'.shape? a = if a = b then some { s with degree := s.degree + 1 }
    else if a = b ++ [s.degree] then some child else m.shape? a

/-- What an event has to do with the tree. -/
inductive Growth (m m' : Machine) : Event → Prop
  | forked {b : Route} {data : Option (List (String × Value))} {s : Shape} (path : Path) (hb : m.shape? b = some s)
      (hpath : path.step = none) (h : m.Bears m' b s ⟨path, 0, false⟩) :
      Growth m m' (.forked b (b ++ [s.degree]) data)
  | opened {b : Route} {s : Shape} (hb : m.shape? b = some s) (h : m.Bears m' b s ⟨.root, 0, true⟩) :
      Growth m m' (.opened (b ++ [s.degree]))
  | none {e : Event} (hforked : ∀ b c data, e ≠ .forked b c data) (hopened : ∀ c, e ≠ .opened c)
      (h : ∀ a, m'.shape? a = m.shape? a) : Growth m m' e

/-- A change in place that is not to be seen in the tree. -/
theorem shape?_of_map {g : Node → Node} (hg : ∀ n, (g n).shape = n.shape)
    (h : ∀ a, m'.node? a = if a = b then (m.node? a).map g else m.node? a) (a : Route) : m'.shape? a = m.shape? a := by
  unfold shape?
  rw [h]
  split
  · rw [Option.map_map]
    exact congrArg (fun f => (m.node? a).map f) (funext hg)
  · rfl

theorem shape?_modifyStore (m : Machine) (b : Route) (f : Store → Store) (a : Route) :
    (m.modifyStore b f).shape? a = m.shape? a :=
  shape?_of_map (g := fun n => { n with store := f n.store }) (fun _ => rfl) (node?_modifyStore m b · f) a

theorem shape?_enter (m : Machine) (b : Route) (path : Path) (a : Route) : (m.enter b path).shape? a = m.shape? a := by
  refine shape?_of_map
    (g := fun n => { n with session := n.session.map fun s => { s with log := s.log ++ [path] } }) (fun n => ?_)
    (node?_enter m b · path) a
  unfold Node.shape
  rw [Option.isSome_map]

theorem shape?_complete (m : Machine) (f : Future) (result : Except EvalError Value) (a : Route) :
    (m.complete f result).shape? a = m.shape? a := by
  unfold complete
  split
  · rfl
  · split
    · next store _ => exact shape?_modifyStore m f.id.home (fun _ => store) a
    · rfl

/-- A new child is to be seen there, and at its parent. -/
theorem bears_of_child {n child : Node} (hnode : ∀ a, m'.node? a =
      if a = b then some { n with degree := n.degree + 1 } else if a = b ++ [n.degree] then some child else m.node? a) :
    m.Bears m' b n.shape child.shape := by
  intro a
  have hdegree : n.shape.degree = n.degree := rfl
  unfold shape?
  rw [hnode, hdegree]
  split
  · rfl
  · split <;> rfl

/-- **What the tree is like after an event.** -/
theorem growth_of_step (hs : m.Step past e m') : Growth m m' e := by
  cases hs with
  | set key value _ => exact .none nofun nofun (shape?_modifyStore m _ _)
  | @spawn a key p ha =>
    refine .none nofun nofun fun b => ?_
    rw [shape?, node?_spawn ha]
    exact shape?_modifyStore m a _ b
  | @fork b n options hb =>
    exact .forked (s := n.shape) _ (congrArg (Option.map Node.shape) hb) rfl (bears_of_child (node?_fork hb options))
  | @openSession b n inputs hb =>
    exact .opened (s := n.shape) (congrArg (Option.map Node.shape) hb) (bears_of_child (node?_open hb inputs))
  | finish result _ _ => exact .none nofun nofun (shape?_complete m _ result)
  | settle _ _ => exact .none nofun nofun (shape?_modifyStore m _ _)
  | record a result =>
    exact .none nofun nofun (shape?_of_map (g := fun n => { n with results := n.results ++ [result] }) (fun _ => rfl)
      (node?_record m a · result))
  | enter a path => exact .none nofun nofun (shape?_enter m a path)
  | _ => exact .none nofun nofun fun _ => rfl

/-! ## Paths of branches -/

/-- **No branch has a path with a step of a chain.** -/
theorem step_path_of_history (h : History inputs past m) (a : Route) : (m.path a).step = none := by
  have hshape : ∀ s, m.shape? a = some s → s.path.step = none := by
    induction h generalizing a with
    | start =>
      intro s hs
      cases a with
      | nil =>
        cases hs
        rfl
      | cons i a => cases (congrArg (Option.map Node.shape) (Branch.node?_cons (.root inputs) i a)).symm.trans hs
    | step _ hstep ih =>
      have hbears {m m' : Machine} {b : Route} {s child : Shape} (hold : ∀ a s, m.shape? a = some s → s.path.step = none)
          (hb : m.shape? b = some s) (hchild : child.path.step = none) (h : m.Bears m' b s child) (a : Route) :
          ∀ s, m'.shape? a = some s → s.path.step = none := by
        rw [h a]
        split
        · rintro _ ⟨⟩
          exact hold b s hb
        · split
          · rintro _ ⟨⟩
            exact hchild
          · exact hold a
      cases growth_of_step hstep with
      | forked path hb hpath h => exact hbears ih hb hpath h a
      | opened hb h => exact hbears ih hb rfl h a
      | none _ _ h =>
        rw [h a]
        exact ih a
  cases hs : m.shape? a with
  | none =>
    rw [path_eq, Option.map_eq_none_iff.1 hs]
    rfl
  | some s =>
    rw [path_of_shape? hs]
    exact hshape s hs

end Machine

end MediaQuery
