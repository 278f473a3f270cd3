import MediaQuery.Branch.Tree

/-!
# The nodes of a tree of branches

A `Node` is what a branch holds by itself: everything but the branches below it, of which only the number counts.
A tree is known by the nodes at its routes (`Branch.node?`). What changes a branch in place changes one node
(`node?_modify`), and a new child adds one node and counts at its parent (`node?_addChild`).
-/

namespace MediaQuery

/-- What a branch holds by itself. -/
structure Node where
  session : Option Session
  store : Store
  path : Path
  results : List (Option Value)
  /-- The number of children. -/
  degree : Nat

namespace Branch

/-- The node of a branch. -/
def node (b : Branch) : Node := ⟨b.session, b.store, b.path, b.results, b.children.length⟩

/-- The node at the end of a route. -/
def node? (b : Branch) (route : Route) : Option Node := (b.at? route).map node

@[simp] theorem node?_nil (b : Branch) : b.node? [] = some b.node := rfl

theorem node?_cons (b : Branch) (i : Nat) (route : Route) :
    b.node? (i :: route) = b.children[i]?.bind fun c => c.node? route := by
  unfold node?
  rw [at?]
  cases b.children[i]? <;> rfl

theorem isSome_at? (b : Branch) (route : Route) : (b.at? route).isSome = (b.node? route).isSome := by
  simp [node?]

/-- Going down a route in two parts. -/
theorem at?_append (b : Branch) (route more : Route) :
    b.at? (route ++ more) = (b.at? route).bind fun c => c.at? more := by
  induction route generalizing b with
  | nil => rfl
  | cons i route ih =>
    simp only [List.cons_append, at?]
    cases b.children[i]? with
    | none => rfl
    | some c => exact ih c

theorem node?_append (b : Branch) (route more : Route) :
    b.node? (route ++ more) = (b.at? route).bind fun c => c.node? more := by
  unfold node?
  rw [at?_append]
  cases b.at? route <;> rfl

/-- A branch is the child of its parent at a position below the number of children. -/
theorem isSome_node?_snoc (b : Branch) (route : Route) (i : Nat) :
    (b.node? (route ++ [i])).isSome = true ↔ ∃ n, b.node? route = some n ∧ i < n.degree := by
  rw [node?_append]
  unfold node?
  cases hc : b.at? route with
  | none => simp
  | some c =>
    have hchild : (c.at? [i]).isSome = true ↔ i < c.children.length := by
      unfold at?
      rcases Nat.lt_or_ge i c.children.length with hi | hi
      · simp [at?, hi]
      · simp [Nat.not_lt.2 hi]
    simpa [node] using hchild

/-- What is above a branch is there. -/
theorem isSome_node?_of_prefix {b : Branch} {route more : Route} (h : (b.node? (route ++ more)).isSome = true) :
    (b.node? route).isSome = true := by
  rw [node?_append] at h
  unfold node?
  cases hc : b.at? route with
  | none => simp [hc] at h
  | some c => rfl

/-- What changes a branch in place changes its node and no other. -/
theorem node?_modify (f : Branch → Branch) (g : Node → Node) (hf : ∀ b, (f b).children = b.children)
    (hg : ∀ b, (f b).node = g b.node) (b : Branch) (route other : Route) :
    (b.modify f route).node? other = if other = route then (b.node? other).map g else b.node? other := by
  induction route generalizing b other with
  | nil =>
    cases other with
    | nil => simp [modify, hg]
    | cons j other => simp [modify, node?_cons, hf]
  | cons i route ih =>
    cases other with
    | nil => simp [modify, node]
    | cons j other =>
      simp only [modify, node?_cons, List.cons.injEq]
      by_cases hij : j = i
      · subst hij
        rw [List.getElem?_modify_eq]
        cases b.children[j]? with
        | none => simp
        | some c => simpa using ih c other
      · rw [List.getElem?_modify_ne _ _ (Ne.symm hij)]
        simp [hij]

/-- A change where there is no branch is none. -/
theorem modify_of_none {f : Branch → Branch} {b : Branch} {route : Route} (h : b.node? route = none) :
    b.modify f route = b := by
  induction route generalizing b with
  | nil => simp at h
  | cons i route ih =>
    have hsame : (b.children.modify i fun c => c.modify f route) = b.children := by
      refine List.ext_getElem? fun j => ?_
      by_cases hij : i = j
      · subst hij
        rw [node?_cons] at h
        rw [List.getElem?_modify_eq]
        cases hc : b.children[i]? with
        | none => rfl
        | some c =>
          rw [hc] at h
          exact congrArg some (ih h)
      · rw [List.getElem?_modify_ne _ _ hij]
    cases b
    exact congrArg (Branch.mk _ _ _ _) hsame

/-- A change is a matter of the branch that it changes. -/
theorem modify_congr {f g : Branch → Branch} {b : Branch} {route : Route}
    (h : ∀ c, b.at? route = some c → f c = g c) : b.modify f route = b.modify g route := by
  induction route generalizing b with
  | nil => exact h b rfl
  | cons i route ih =>
    have hsame : (b.children.modify i fun c => c.modify f route) = b.children.modify i fun c => c.modify g route := by
      refine List.ext_getElem? fun j => ?_
      by_cases hij : i = j
      · subst hij
        rw [List.getElem?_modify_eq, List.getElem?_modify_eq]
        cases hc : b.children[i]? with
        | none => rfl
        | some c => exact congrArg some (ih fun d hd => h d (by simpa [at?, hc] using hd))
      · rw [List.getElem?_modify_ne _ _ hij, List.getElem?_modify_ne _ _ hij]
    exact congrArg (Branch.mk _ _ _ _) hsame

/-- A new child adds its node and counts at its parent. -/
theorem node?_addChild {mk : Branch → Branch} (hmk : ∀ b, (mk b).children = []) (b : Branch)
    {route : Route} {c : Branch} (hc : b.at? route = some c) (other : Route) :
    (b.modify (fun b => b.addChild (mk b)) route).node? other =
      if other = route then some { c.node with degree := c.node.degree + 1 }
      else if other = route ++ [c.node.degree] then some (mk c).node
      else b.node? other := by
  induction route generalizing b other with
  | nil =>
    obtain rfl : b = c := Option.some.inj hc
    cases other with
    | nil => simp [modify, addChild, node]
    | cons j other =>
      simp only [modify, addChild, node?_cons, node, List.nil_append, List.cons.injEq, reduceCtorEq, if_false]
      rcases Nat.lt_trichotomy j b.children.length with hj | hj | hj
      · rw [List.getElem?_append_left hj, if_neg (by omega)]
      · subst hj
        rw [List.getElem?_append_right (Nat.le_refl _)]
        cases other with
        | nil => simp [node]
        | cons k other => simp [node?_cons, hmk]
      · have hnone : (b.children ++ [mk b])[j]? = none := List.getElem?_eq_none (by simp; omega)
        rw [hnone, List.getElem?_eq_none (Nat.le_of_lt hj), if_neg (by omega)]
  | cons i route ih =>
    have hi : ∃ d, b.children[i]? = some d ∧ d.at? route = some c := by
      unfold at? at hc
      split at hc
      · next d hd => exact ⟨d, hd, hc⟩
      · cases hc
    obtain ⟨d, hd, hdc⟩ := hi
    cases other with
    | nil => simp [modify, node]
    | cons j other =>
      simp only [modify, node?_cons, List.cons_append, List.cons.injEq]
      by_cases hij : j = i
      · subst hij
        rw [List.getElem?_modify_eq, hd]
        simpa using ih d hdc other
      · rw [List.getElem?_modify_ne _ _ (Ne.symm hij)]
        simp [hij]

end Branch

end MediaQuery
