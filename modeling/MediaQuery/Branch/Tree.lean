import MediaQuery.Branch.Store
import MediaQuery.Inputs

/-!
# Branches

Branches form a tree: a fork is a child of the branch it was made from, with a store of its own. The first branch
of a query carries the query's session, that is, what the query is run with and its execution log; a nested
query's first branch is a child of the branch that asked for it. `Branch.at?` finds a branch by its route and
`Branch.modify` changes one; the two laws at the end say that a change is seen at its own route and that branches
off it are left alone.
-/

namespace MediaQuery

/-- What the branches of one query share. -/
structure Session where
  inputs : Inputs
  log : List Path
  deriving Inhabited

/-- How a fork differs from its parent: the path it starts from if not the parent's, segments to add to it, and
values to hold instead of a copy of the parent's. -/
structure ForkOptions where
  path : Option Path
  append : List Segment
  data : Option (List (String × Value))
  deriving Inhabited

namespace ForkOptions

/-- A plain fork. -/
def plain : ForkOptions := ⟨none, [], none⟩

/-- A fork at the given path. -/
def place (path : Path) : ForkOptions := ⟨some path, [], none⟩

end ForkOptions

/-- A branch with everything below it. -/
structure Branch where
  session : Option Session
  store : Store
  path : Path
  /-- The results recorded here, oldest first. -/
  results : List (Option Value)
  children : List Branch
  deriving Inhabited

namespace Branch

/-- The first branch of a query. -/
def root (inputs : Inputs) : Branch := ⟨some ⟨inputs, []⟩, .empty, .root, [], []⟩

/-- The branch at the end of a route. -/
def at? (b : Branch) : Route → Option Branch
  | [] => some b
  | i :: route =>
    match b.children[i]? with
    | some c => c.at? route
    | none => none

/-- Changes the branch at the end of a route. -/
def modify (b : Branch) (f : Branch → Branch) : Route → Branch
  | [] => f b
  | i :: route => { b with children := b.children.modify i fun c => c.modify f route }

/-- The route to the first branch of the query that the branch at the end of a route belongs to. -/
def sessionRoute (b : Branch) : Route → Route
  | [] => []
  | i :: route =>
    match b.children[i]? with
    | some c =>
      let rest := c.sessionRoute route
      if rest.isEmpty && c.session.isNone then [] else i :: rest
    | none => []

/-- A fork: a child of the same query with the store that the options give. -/
def forkOf (b : Branch) (options : ForkOptions) : Branch :=
  { session := none
    store := match options.data with
      | some values => .ofValues values
      | none => b.store
    path := (options.path.getD b.path).join options.append
    results := []
    children := [] }

/-- The branch with one more child. -/
def addChild (b c : Branch) : Branch := { b with children := b.children ++ [c] }

mutual

/-- The routes to all branches forked from this one, directly or not: every fork in order, each followed by those
below it. Nested queries are left out. -/
def descendants : Branch → List Route
  | ⟨_, _, _, _, children⟩ => descendantsFrom 0 children

/-- The routes to the given children and those below them; the first child has the given position. -/
def descendantsFrom (i : Nat) : List Branch → List Route
  | [] => []
  | c :: rest =>
    (if c.session.isSome then [] else [i] :: c.descendants.map (i :: ·)) ++ descendantsFrom (i + 1) rest

end

/-! ## Change and look-up -/

/-- A change is seen at the end of its route. -/
theorem at?_modify_self (f : Branch → Branch) (route : Route) (b : Branch) :
    (b.modify f route).at? route = (b.at? route).map f := by
  induction route generalizing b with
  | nil => rfl
  | cons i route ih =>
    simp only [modify, at?, List.getElem?_modify_eq]
    cases b.children[i]? with
    | none => rfl
    | some c => exact ih c

/-- A change that keeps the children of its branch is not seen at any other route. -/
theorem at?_modify_of_ne {f : Branch → Branch} (hf : ∀ b, (f b).children = b.children) {route other : Route}
    (h : route ≠ other) (hp : ¬ other <+: route) (b : Branch) :
    (b.modify f route).at? other = b.at? other := by
  induction route generalizing b other with
  | nil =>
    cases other with
    | nil => exact absurd rfl h
    | cons j other => simp only [modify, at?, hf]
  | cons i route ih =>
    cases other with
    | nil => exact absurd (List.nil_prefix) hp
    | cons j other =>
      simp only [modify, at?]
      by_cases hij : i = j
      · subst hij
        rw [List.getElem?_modify_eq]
        cases hc : b.children[i]? with
        | none => rfl
        | some c =>
          refine ih (fun e => h (by rw [e])) (fun e => hp ?_) c
          exact List.cons_prefix_cons.2 ⟨rfl, e⟩
      · rw [List.getElem?_modify_ne _ _ hij]

end Branch

end MediaQuery
