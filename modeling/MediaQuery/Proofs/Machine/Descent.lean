import MediaQuery.Proofs.Machine.Grown
import MediaQuery.Proofs.Machine.Sealed
import Mathlib.Logic.Relation

/-!
# The tree of forks

The descendants of a branch are its forks in order, each followed by its own descendants (`descendants_eq_forks`); so
they are in pre-order, and none is there twice (`nodup_descendants`). Whatever happens to a machine, the forks of a
branch are those of the past (`forks_of_history`), and its descendants are what has been forked from it, directly or not
(`forkTree_of_history`).
-/

namespace MediaQuery

namespace Branch

variable {b c : Branch}

/-- What is listed of the child at a position. -/
def listed (children : List Branch) (j : Nat) : List Route :=
  match children[j]? with
  | some c => if c.session.isSome then [] else [j] :: c.descendants.map (j :: ·)
  | none => []

theorem descendantsFrom_eq_listed (children : List Branch) :
    descendantsFrom 0 children = (List.range children.length).flatMap (listed children) := by
  induction children using List.reverseRecOn with
  | nil => rfl
  | append_singleton cs c ih =>
    have hold : ∀ j ∈ List.range cs.length, listed cs j = listed (cs ++ [c]) j := by
      intro j hj
      unfold listed
      rw [List.getElem?_append_left (List.mem_range.1 hj)]
    have hlast : listed (cs ++ [c]) cs.length = descendantsFrom (0 + cs.length) [c] := by
      unfold listed
      rw [List.getElem?_concat_length, descendantsFrom, descendantsFrom, List.append_nil, Nat.zero_add]
    rw [descendantsFrom_append, ih, List.length_append, List.length_singleton, List.range_succ, List.flatMap_append,
      List.flatMap_congr hold, List.flatMap_singleton, hlast]

/-- What is listed of a child is below it. -/
theorem exists_of_mem_listed {children : List Branch} {j : Nat} {d : Route} (h : d ∈ listed children j) :
    ∃ more, d = j :: more := by
  unfold listed at h
  split at h
  · split at h
    · cases h
    · rcases List.mem_cons.1 h with rfl | h
      · exact ⟨[], rfl⟩
      · obtain ⟨more, -, rfl⟩ := List.mem_map.1 h
        exact ⟨more, rfl⟩
  · cases h

/-- **No descendant is listed twice.** -/
theorem nodup_descendants (b : Branch) : b.descendants.Nodup := by
  rw [descendants_eq, descendantsFrom_eq_listed, List.nodup_flatMap]
  refine ⟨fun j hj => ?_, List.nodup_range.imp fun hne => ?_⟩
  · unfold listed
    cases hc : b.children[j]? with
    | none => exact List.nodup_nil
    | some c =>
      have hbelow : (c.descendants.map (j :: ·)).Nodup :=
        (nodup_descendants c).map fun _ _ h => List.tail_eq_of_cons_eq h
      dsimp only
      split
      · exact List.nodup_nil
      · refine List.nodup_cons.2 ⟨fun hself => ?_, hbelow⟩
        -- the child itself is not among its descendants
        obtain ⟨more, hmore, heq⟩ := List.mem_map.1 hself
        cases heq
        rw [descendants_eq, descendantsFrom_eq_listed] at hmore
        obtain ⟨k, -, hk⟩ := List.mem_flatMap.1 hmore
        obtain ⟨_, hcons⟩ := exists_of_mem_listed hk
        cases hcons
  · intro d hd hd'
    obtain ⟨_, rfl⟩ := exists_of_mem_listed hd
    obtain ⟨_, heq⟩ := exists_of_mem_listed hd'
    exact hne (List.cons.inj heq).1
termination_by sizeOf b
decreasing_by
  have hlt := List.sizeOf_lt_of_mem (List.mem_of_getElem? hc)
  cases b
  simp only [mk.sizeOf_spec]
  simp only at hlt
  omega

end Branch

namespace Machine

variable {inputs : Inputs} {past : List Event} {m m' : Machine} {a b c d : Route}

/-! ## Forks -/

/-- The child of a branch at a position, if it is a fork and not the first branch of a nested query. -/
def forkAt (m : Machine) (a : Route) (j : Nat) : List Route :=
  if (m.session? (a ++ [j])).isSome then [] else [a ++ [j]]

/-- The forks of a branch, in order. -/
def forks (m : Machine) (a : Route) : List Route := (List.range (m.nextChild a)).flatMap (m.forkAt a)

/-- A fork is one step further down. -/
theorem length_of_mem_forks (h : c ∈ m.forks a) : c.length = a.length + 1 := by
  obtain ⟨j, -, hj⟩ := List.mem_flatMap.1 h
  unfold forkAt at hj
  split at hj
  · cases hj
  · rw [List.mem_singleton.1 hj, List.length_append, List.length_singleton]

/-- **The descendants of a branch** are its forks, each followed by its own descendants. -/
theorem descendants_eq_forks (m : Machine) (a : Route) :
    m.descendants a = (m.forks a).flatMap fun c => c :: m.descendants c := by
  unfold forks
  rw [List.flatMap_assoc]
  cases hb : m.branch? a with
  | none =>
    unfold descendants nextChild
    rw [hb]
    rfl
  | some b =>
    have hdegree : m.nextChild a = b.children.length := by
      unfold nextChild
      rw [hb]
      rfl
    rw [descendants_of_branch? hb, Branch.descendants_eq, Branch.descendantsFrom_eq_listed, List.map_flatMap, hdegree]
    refine List.flatMap_congr fun j hj => ?_
    obtain ⟨c, hc⟩ : ∃ c, b.children[j]? = some c :=
      ⟨_, List.getElem?_eq_getElem (List.mem_range.1 hj)⟩
    have hchild : m.branch? (a ++ [j]) = some c := by
      unfold branch? at hb ⊢
      rw [Branch.at?_append, hb, Option.bind_some, Branch.at?, hc]
      rfl
    have hstarts : (m.session? (a ++ [j])).isSome = c.session.isSome := by
      rw [← starts_below hb, Branch.starts_cons hc]
      rfl
    unfold forkAt Branch.listed
    rw [hc, hstarts]
    dsimp only
    cases c.session.isSome with
    | true => rfl
    | false =>
      rw [if_neg Bool.false_ne_true, if_neg Bool.false_ne_true, List.flatMap_singleton, List.map_cons, List.map_map,
        descendants_of_branch? hchild]
      refine congrArg ((a ++ [j]) :: ·) (List.map_congr_left fun more _ => ?_)
      exact (List.append_assoc a [j] more).symm

theorem mem_descendants_iff : d ∈ m.descendants a ↔ ∃ c ∈ m.forks a, d = c ∨ d ∈ m.descendants c := by
  rw [descendants_eq_forks, List.mem_flatMap]
  simp only [List.mem_cons]

theorem nodup_descendants (m : Machine) (a : Route) : (m.descendants a).Nodup := by
  cases hb : m.branch? a with
  | none =>
    unfold descendants
    rw [hb]
    exact List.nodup_nil
  | some b =>
    rw [descendants_of_branch? hb]
    exact b.nodup_descendants.map fun _ _ h => List.append_cancel_left h

/-- A descendant is further down. -/
theorem exists_of_mem_descendants (h : d ∈ m.descendants a) : ∃ i more, d = a ++ i :: more := by
  cases hb : m.branch? a with
  | none =>
    unfold descendants at h
    rw [hb] at h
    cases h
  | some b =>
    rw [descendants_of_branch? hb] at h
    obtain ⟨more, hmore, rfl⟩ := List.mem_map.1 h
    rw [Branch.descendants_eq, Branch.descendantsFrom_eq_listed] at hmore
    obtain ⟨j, -, hj⟩ := List.mem_flatMap.1 hmore
    obtain ⟨more, rfl⟩ := Branch.exists_of_mem_listed hj
    exact ⟨j, more, rfl⟩

/-- **A descendant is what can be reached by forks.** -/
theorem mem_descendants_iff_transGen (m : Machine) (a d : Route) :
    d ∈ m.descendants a ↔ Relation.TransGen (fun b c => c ∈ m.forks b) a d := by
  constructor
  · intro h
    -- on the way down to the descendant
    induction hn : d.length - a.length generalizing a with
    | zero =>
      obtain ⟨_, _, rfl⟩ := exists_of_mem_descendants h
      simp at hn
    | succ n ih =>
      obtain ⟨c, hc, rfl | hd⟩ := mem_descendants_iff.1 h
      · exact .single hc
      · have hlength := length_of_mem_forks hc
        exact .head hc (ih c hd (by omega))
  · intro h
    induction h using Relation.TransGen.head_induction_on with
    | single hc => exact mem_descendants_iff.2 ⟨_, hc, .inl rfl⟩
    | head hc _ ih => exact mem_descendants_iff.2 ⟨_, hc, .inr ih⟩

/-- A fork is there. -/
theorem isSome_node?_of_mem_forks (h : c ∈ m.forks a) : (m.node? c).isSome = true := by
  obtain ⟨j, hj, hc⟩ := List.mem_flatMap.1 h
  unfold forkAt at hc
  split at hc
  · cases hc
  · rw [List.mem_singleton.1 hc]
    cases hn : m.node? a with
    | none =>
      unfold nextChild at hj
      rw [show m.branch? a = none from Option.map_eq_none_iff.1 hn] at hj
      cases hj
    | some n =>
      rw [nextChild_of_node? hn] at hj
      exact (Branch.isSome_node?_snoc m.tree a j).2 ⟨n, hn, List.mem_range.1 hj⟩

/-- And so is every descendant. -/
theorem isSome_node?_of_mem_descendants (h : d ∈ m.descendants a) : (m.node? d).isSome = true := by
  rw [mem_descendants_iff_transGen] at h
  cases h with
  | single hd => exact isSome_node?_of_mem_forks hd
  | tail _ hd => exact isSome_node?_of_mem_forks hd

/-- **What is further down and of the same query is a descendant.** -/
theorem mem_descendants_of_sessionRoute {more : Route} (hmore : more ≠ [])
    (h : (m.node? (a ++ more)).isSome = true) (hs : m.tree.sessionRoute (a ++ more) = m.tree.sessionRoute a) :
    a ++ more ∈ m.descendants a := by
  rw [mem_descendants_iff_transGen]
  -- on the way back up
  induction more using List.reverseRecOn with
  | nil => exact absurd rfl hmore
  | append_singleton more j ih =>
    rw [← List.append_assoc] at h hs ⊢
    obtain ⟨n, hn, hj⟩ := (Branch.isSome_node?_snoc m.tree (a ++ more) j).1 h
    rw [Branch.sessionRoute_snoc] at hs
    split at hs
    · -- a branch that starts a query is not above itself
      have hlength := (prefix_sessionRoute m.tree a).length_le
      rw [← hs] at hlength
      simp only [List.length_append, List.length_singleton] at hlength
      omega
    · next hstarts =>
      have hstarts : ¬ (m.session? (a ++ more ++ [j])).isSome = true := hstarts
      have hfork : a ++ more ++ [j] ∈ m.forks (a ++ more) := by
        refine List.mem_flatMap.2 ⟨j, List.mem_range.2 (by rwa [nextChild_of_node? hn]), ?_⟩
        rw [forkAt, if_neg hstarts]
        exact List.mem_cons_self
      by_cases hmore' : more = []
      · subst hmore'
        rw [List.append_nil] at hfork ⊢
        exact .single hfork
      · exact (ih hmore' (by rw [show m.node? (a ++ more) = some n from hn]; rfl) hs).tail hfork

/-! ## The past -/

/-- The branches that have been forked from a branch, in the order in which that has happened. -/
def forksOf : List Event → Route → List Route
  | [], _ => []
  | .forked b c _ :: past, a => if b = a then forksOf past a ++ [c] else forksOf past a
  | _ :: past, a => forksOf past a

theorem mem_forksOf : c ∈ forksOf past a ↔ ∃ data, .forked a c data ∈ past := by
  induction past with
  | nil => simp [forksOf]
  | cons e past ih =>
    cases e with
    | forked b c' data =>
      rw [forksOf]
      split
      · next hb =>
        subst hb
        rw [List.mem_append, List.mem_singleton, ih]
        simp only [List.mem_cons, Event.forked.injEq, true_and]
        constructor
        · rintro (⟨data', h⟩ | rfl)
          · exact ⟨data', .inr h⟩
          · exact ⟨data, .inl ⟨rfl, rfl⟩⟩
        · rintro ⟨data', ⟨rfl, -⟩ | h⟩
          · exact .inr rfl
          · exact .inl ⟨data', h⟩
      · next hb =>
        rw [ih]
        refine exists_congr fun data' => ?_
        simp [Ne.symm hb]
    | _ => simp [forksOf, ih]

theorem nextChild_of_shape (m : Machine) (a : Route) : m.nextChild a = ((m.shape? a).map Shape.degree).getD 0 := by
  unfold nextChild shape? branch? node? Branch.node?
  cases m.tree.at? a <;> rfl

theorem isSome_session?_of_shape (m : Machine) (a : Route) :
    (m.session? a).isSome = ((m.shape? a).map Shape.starts).getD false := by
  unfold session? shape?
  cases m.node? a <;> rfl

theorem forks_congr (h : ∀ a, m'.shape? a = m.shape? a) (a : Route) : m'.forks a = m.forks a := by
  unfold forks forkAt
  simp only [nextChild_of_shape, isSome_session?_of_shape, h]

/-- A child that a branch has got is among its forks, unless it is the first branch of a nested query. -/
theorem forks_of_bears {s child : Shape} (hb : m.shape? b = some s) (hchild : child.degree = 0) (h : m.Bears m' b s child)
    (a : Route) :
    m'.forks a = m.forks a ++ if a = b then (if child.starts then [] else [b ++ [s.degree]]) else [] := by
  have hnew := shape?_next hb
  have hself : b ≠ b ++ [s.degree] := fun heq => by simpa using congrArg List.length heq
  have hstarts (a : Route) : (m'.session? a).isSome =
      if a = b ++ [s.degree] then child.starts else (m.session? a).isSome := by
    rw [isSome_session?_of_shape, isSome_session?_of_shape, h a]
    by_cases hab : a = b
    · subst hab
      rw [if_pos rfl, if_neg hself, hb]
      rfl
    · rw [if_neg hab]
      split <;> rfl
  by_cases hab : a = b
  · subst hab
    have hdegree : m.nextChild a = s.degree := by rw [nextChild_of_shape, hb]; rfl
    have hdegree' : m'.nextChild a = s.degree + 1 := by rw [nextChild_of_shape, h, if_pos rfl]; rfl
    have hold : ∀ j ∈ List.range s.degree, m'.forkAt a j = m.forkAt a j := by
      intro j hj
      have hne : a ++ [j] ≠ a ++ [s.degree] := by
        have hlt := List.mem_range.1 hj
        simp only [ne_eq, List.append_cancel_left_eq, List.cons.injEq, and_true]
        omega
      unfold forkAt
      rw [hstarts, if_neg hne]
    unfold forks
    rw [hdegree, hdegree', List.range_succ, List.flatMap_append, List.flatMap_congr hold, List.flatMap_singleton,
      if_pos rfl]
    unfold forkAt
    rw [hstarts, if_pos rfl]
  · have hdegree : m'.nextChild a = m.nextChild a := by
      rw [nextChild_of_shape, nextChild_of_shape, h, if_neg hab]
      split
      · next hac =>
        rw [hac, hnew]
        exact hchild
      · rfl
    have hsame : ∀ j ∈ List.range (m.nextChild a), m'.forkAt a j = m.forkAt a j := by
      intro j _
      have hne : a ++ [j] ≠ b ++ [s.degree] := fun heq => hab (List.append_inj' heq rfl).1
      unfold forkAt
      rw [hstarts, if_neg hne]
    unfold forks
    rw [hdegree, List.flatMap_congr hsame, if_neg hab, List.append_nil]

/-- **The forks of a branch are those that have been made of it.** -/
theorem forks_of_history (h : History inputs past m) (a : Route) : m.forks a = forksOf past a := by
  induction h with
  | start =>
    unfold forks nextChild branch?
    cases a <;> rfl
  | @step past m m' e _ hs ih =>
    cases growth_of_step hs with
    | @forked b data s path hb _ hbears =>
      rw [forks_of_bears hb rfl hbears, ih, forksOf]
      by_cases hab : a = b
      · subst hab
        simp
      · simp [hab, Ne.symm hab]
    | opened hb hbears =>
      rw [forks_of_bears hb rfl hbears, ih]
      simp [forksOf]
    | none hforked hopened hshape =>
      rw [forks_congr hshape, ih]
      cases e with
      | forked b c data => exact absurd rfl (hforked b c data)
      | _ => rfl

/-- A branch has been forked from another one. -/
def ForkedFrom (past : List Event) (b c : Route) : Prop := ∃ data, .forked b c data ∈ past

/-- The descendants of a branch are all that has been forked from it, directly or not, each once. They come in pre-order,
forks of one branch in the order in which they have been made. -/
structure ForkTree (past : List Event) (m : Machine) (a : Route) : Prop where
  once : (m.descendants a).Nodup
  complete : ∀ d, d ∈ m.descendants a ↔ Relation.TransGen (ForkedFrom past) a d
  preorder : m.descendants a = (forksOf past a).flatMap fun c => c :: m.descendants c

/-- **The descendants of a branch are the tree of its forks**, whatever has happened. -/
theorem forkTree_of_history (h : History inputs past m) (a : Route) : ForkTree past m a := by
  refine ⟨nodup_descendants m a, fun d => ?_, ?_⟩
  · have hforked : (fun b c => c ∈ m.forks b) = ForkedFrom past := by
      funext b c
      rw [forks_of_history h]
      exact propext mem_forksOf
    rw [mem_descendants_iff_transGen, hforked]
  · rw [← forks_of_history h]
    exact descendants_eq_forks m a

end Machine

end MediaQuery
