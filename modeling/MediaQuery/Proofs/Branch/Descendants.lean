import MediaQuery.Proofs.Branch.Node
import Mathlib.Data.List.Forall2

/-!
# Descendants

The descendants of a branch are the branches of the same query below it. So they are a matter of how many children these
branches have, and of which of the children start other queries (`descendants_congr`); another query that is started
below a branch is not among them (`descendants_addChild`).
-/

namespace MediaQuery.Branch

variable {b b' c : Branch}

/-- Whether another query starts at the end of the route. -/
def starts (b : Branch) (route : Route) : Bool := ((b.node? route).bind Node.session).isSome

/-- No other query starts on the way to the end of the route. -/
def Own (b : Branch) (route : Route) : Prop := ∀ p, p ≠ [] → p <+: route → b.starts p = false

theorem starts_cons {i : Nat} (h : b.children[i]? = some c) (route : Route) : b.starts (i :: route) = c.starts route := by
  unfold starts
  rw [node?_cons, h]
  rfl

theorem own_nil (b : Branch) : b.Own [] := fun _ hp hprefix => absurd (List.prefix_nil.1 hprefix) hp

/-- Down to a child of the same query. -/
theorem Own.cons {i : Nat} {route : Route} (hc : b.children[i]? = some c) (hs : c.session.isSome = false)
    (h : c.Own route) : b.Own (i :: route) := by
  intro p hp hprefix
  obtain ⟨j, p, rfl⟩ := List.exists_cons_of_ne_nil hp
  obtain ⟨rfl, hrest⟩ := List.cons_prefix_cons.1 hprefix
  rw [starts_cons hc]
  cases p with
  | nil => exact hs
  | cons k p => exact h _ (List.cons_ne_nil k p) hrest

theorem descendants_eq (b : Branch) : b.descendants = descendantsFrom 0 b.children := by
  cases b
  rw [descendants]

theorem descendantsFrom_congr {cs cs' : List Branch}
    (h : List.Forall₂ (fun c c' => c'.session.isSome = c.session.isSome ∧
      (c.session.isSome = false → c'.descendants = c.descendants)) cs cs') (i : Nat) :
    descendantsFrom i cs' = descendantsFrom i cs := by
  induction h generalizing i with
  | nil => rfl
  | @cons c c' cs cs' hc _ ih =>
    rw [descendantsFrom, descendantsFrom, ih, hc.1]
    split
    · rfl
    · next hs => rw [hc.2 (by simpa using hs)]

/-- **The descendants of a branch are a matter of the branches of its query below it.** -/
theorem descendants_congr (b b' : Branch)
    (hdegree : ∀ route, b.Own route → (b'.node? route).map Node.degree = (b.node? route).map Node.degree)
    (hstarts : ∀ route i, b.Own route → b'.starts (route ++ [i]) = b.starts (route ++ [i])) :
    b'.descendants = b.descendants := by
  rw [descendants_eq, descendants_eq]
  have hlength : b'.children.length = b.children.length := Option.some.inj (hdegree [] (own_nil b))
  refine descendantsFrom_congr (List.forall₂_iff_get.2 ⟨hlength.symm, fun i hi hi' => ?_⟩) 0
  have hc : b.children[i]? = some (b.children.get ⟨i, hi⟩) := List.getElem?_eq_getElem hi
  have hc' : b'.children[i]? = some (b'.children.get ⟨i, hi'⟩) := List.getElem?_eq_getElem hi'
  refine ⟨?_, fun hs => ?_⟩
  · have hchild := hstarts [] i (own_nil b)
    rwa [List.nil_append, starts_cons hc, starts_cons hc'] at hchild
  · refine descendants_congr _ _ (fun route hown => ?_) fun route j hown => ?_
    · have hbelow := hdegree (i :: route) (hown.cons hc hs)
      rwa [node?_cons, node?_cons, hc, hc', Option.bind_some, Option.bind_some] at hbelow
    · have hbelow := hstarts (i :: route) j (hown.cons hc hs)
      rwa [List.cons_append, starts_cons hc, starts_cons hc'] at hbelow
termination_by sizeOf b
decreasing_by
  have hmem : b.children.get ⟨i, hi⟩ ∈ b.children := List.get_mem _ _
  have hlt := List.sizeOf_lt_of_mem hmem
  cases b
  simp only [mk.sizeOf_spec]
  simp only at hlt
  omega

theorem descendantsFrom_sublist {cs cs' : List Branch}
    (h : ∀ (j : Nat) (c : Branch), cs[j]? = some c → ∃ c' : Branch, cs'[j]? = some c' ∧
      c'.session.isSome = c.session.isSome ∧ c.descendants.Sublist c'.descendants) (i : Nat) :
    (descendantsFrom i cs).Sublist (descendantsFrom i cs') := by
  induction cs generalizing cs' i with
  | nil => exact List.nil_sublist _
  | cons c cs ih =>
    obtain ⟨c', hc', hs, hsub⟩ := h 0 c rfl
    cases cs' with
    | nil => cases hc'
    | cons d cs' =>
      cases hc'
      rw [descendantsFrom, descendantsFrom, hs]
      refine List.Sublist.append ?_ (ih (fun j c hc => h (j + 1) c hc) (i + 1))
      split
      · exact List.Sublist.refl _
      · exact (hsub.map _).cons_cons _

/-- **Where all branches stay, and start other queries as they did, the descendants stay too**, with new ones among
them. -/
theorem descendants_sublist (b b' : Branch) (hthere : ∀ route, (b.node? route).isSome = true →
      (b'.node? route).isSome = true)
    (hstarts : ∀ route, (b.node? route).isSome = true → b'.starts route = b.starts route) :
    b.descendants.Sublist b'.descendants := by
  rw [descendants_eq, descendants_eq]
  refine descendantsFrom_sublist (fun j c hc => ?_) 0
  have hnode (route : Route) : b.node? (j :: route) = c.node? route := by
    rw [node?_cons, hc, Option.bind_some]
  have hself : (b'.node? [j]).isSome = true := by
    apply hthere
    rw [hnode]
    rfl
  cases hc' : b'.children[j]? with
  | none =>
    rw [node?_cons, hc'] at hself
    cases hself
  | some c' =>
    have hnode' (route : Route) : b'.node? (j :: route) = c'.node? route := by
      rw [node?_cons, hc', Option.bind_some]
    have hstarts' (route : Route) (hroute : (c.node? route).isSome = true) : c'.starts route = c.starts route := by
      rw [← starts_cons hc, ← starts_cons hc']
      exact hstarts _ (by rwa [hnode])
    refine ⟨c', rfl, hstarts' [] rfl, descendants_sublist c c' (fun route hroute => ?_) hstarts'⟩
    rw [← hnode']
    exact hthere _ (by rwa [hnode])
termination_by sizeOf b
decreasing_by
  have hmem : c ∈ b.children := List.mem_of_getElem? hc
  have hlt := List.sizeOf_lt_of_mem hmem
  cases b
  simp only [mk.sizeOf_spec]
  simp only at hlt
  omega

theorem descendantsFrom_append (cs cs' : List Branch) (i : Nat) :
    descendantsFrom i (cs ++ cs') = descendantsFrom i cs ++ descendantsFrom (i + cs.length) cs' := by
  induction cs generalizing i with
  | nil => rfl
  | cons c cs ih =>
    rw [List.cons_append, descendantsFrom, descendantsFrom, ih, List.append_assoc, List.length_cons, Nat.add_right_comm,
      Nat.add_assoc]

/-- **Another query that is started below the branch is not among its descendants.** -/
theorem descendants_addChild (b : Branch) (h : c.session.isSome = true) : (b.addChild c).descendants = b.descendants := by
  rw [descendants_eq, descendants_eq, addChild, descendantsFrom_append, descendantsFrom, if_pos h, descendantsFrom]
  simp

end MediaQuery.Branch
