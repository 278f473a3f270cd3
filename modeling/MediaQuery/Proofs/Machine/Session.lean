import MediaQuery.Proofs.Machine.Place
import Mathlib.Data.List.Induction

/-!
# What the query of a branch is run with

A branch belongs to the query of the nearest branch above it that carries a session, itself included. So what it is
run with is known from the branch above, unless it carries a session of its own (`inputs?_snoc`), and only a nested
query changes it, and only below its first branch (`inputs_open`).
-/

namespace MediaQuery

/-- What the query is run with whose session the node carries. -/
def Node.inputs? (n : Node) : Option Inputs := n.session.map Session.inputs

namespace Branch

/-- The session that the branch at the end of a route belongs to. -/
def sessionAt (b : Branch) (route : Route) : Option Session := (b.at? (b.sessionRoute route)).bind Branch.session

/-- The way to a session ends at one, unless there is none on the way. -/
theorem isSome_sessionAt {b : Branch} {route : Route}
    (h : ¬ ((b.sessionRoute route).isEmpty && b.session.isNone) = true) : (b.sessionAt route).isSome = true := by
  have hroot (h : ¬ ((([] : Route)).isEmpty && b.session.isNone) = true) : b.session.isSome = true := by
    cases hs : b.session with
    | none => simp [hs] at h
    | some s => rfl
  induction route generalizing b with
  | nil => exact hroot h
  | cons i route ih =>
    unfold sessionAt
    rw [sessionRoute] at h ⊢
    cases hc : b.children[i]? with
    | none =>
      rw [hc] at h
      exact hroot h
    | some c =>
      simp only [hc] at h ⊢
      split
      · next hnone =>
        rw [if_pos hnone] at h
        exact hroot h
      · next hsome =>
        simp only [at?, hc]
        refine ih hsome fun hs => ?_
        cases hc' : c.session with
        | none => simp [hc'] at hs
        | some s => rfl

theorem sessionAt_cons (b : Branch) (i : Nat) (route : Route) :
    b.sessionAt (i :: route) = (b.children[i]?.bind fun c => c.sessionAt route).or b.session := by
  unfold sessionAt
  rw [sessionRoute]
  cases hc : b.children[i]? with
  | none => rfl
  | some c =>
    simp only [Option.bind_some]
    split
    · next hnone =>
      rw [Bool.and_eq_true, List.isEmpty_iff, Option.isNone_iff_eq_none] at hnone
      rw [hnone.1]
      simp [at?, hnone.2]
    · next hsome =>
      obtain ⟨s, hs⟩ := Option.isSome_iff_exists.1 (isSome_sessionAt hsome)
      have hs' : (c.at? (c.sessionRoute route)).bind Branch.session = some s := hs
      simp [at?, hc, hs']

/-- A branch without a session of its own belongs to that of its parent. -/
theorem sessionAt_snoc (b : Branch) (route : Route) (i : Nat) :
    b.sessionAt (route ++ [i]) = ((b.node? (route ++ [i])).bind Node.session).or (b.sessionAt route) := by
  induction route generalizing b with
  | nil =>
    rw [List.nil_append, sessionAt_cons, node?_cons]
    cases b.children[i]? <;> rfl
  | cons j route ih =>
    rw [List.cons_append, sessionAt_cons, sessionAt_cons, node?_cons]
    cases b.children[j]? with
    | none => rfl
    | some c =>
      rw [Option.bind_some, Option.bind_some, Option.bind_some, ih, Option.or_assoc]

end Branch

namespace Machine

variable {m m' : Machine} {a : Route}

/-- What the query of a branch is run with. -/
def inputsAt (m : Machine) (a : Route) : Inputs := (m.session a).inputs

/-- The same, if there is a query at all. -/
def inputs? (m : Machine) (a : Route) : Option Inputs := (m.tree.sessionAt a).map Session.inputs

theorem inputsAt_eq (m : Machine) (a : Route) : m.inputsAt a = (m.inputs? a).getD .blank := by
  unfold inputsAt inputs? session
  change ((m.tree.sessionAt a).getD ⟨.blank, []⟩).inputs = _
  cases m.tree.sessionAt a <;> rfl

theorem inputs?_nil (m : Machine) : m.inputs? [] = (m.node? []).bind Node.inputs? := rfl

/-- A branch without a session of its own is run with what its parent is run with. -/
theorem inputs?_snoc (m : Machine) (a : Route) (i : Nat) :
    m.inputs? (a ++ [i]) = ((m.node? (a ++ [i])).bind Node.inputs?).or (m.inputs? a) := by
  unfold inputs? node?
  rw [Branch.sessionAt_snoc]
  cases m.tree.node? (a ++ [i]) with
  | none => rfl
  | some n =>
    simp only [Option.bind_some, Node.inputs?]
    cases n.session <;> rfl

/-- What a branch is run with is a matter of the sessions above it. -/
theorem inputs?_congr (h : ∀ p, p <+: a → (m'.node? p).bind Node.inputs? = (m.node? p).bind Node.inputs?) :
    m'.inputs? a = m.inputs? a := by
  induction a using List.reverseRecOn with
  | nil => rw [inputs?_nil, inputs?_nil, h [] (List.prefix_refl _)]
  | append_singleton a i ih =>
    rw [inputs?_snoc, inputs?_snoc, h _ (List.prefix_refl _), ih fun p hp => h p (hp.trans (List.prefix_append _ _))]

theorem inputsAt_congr (h : ∀ p, p <+: a → (m'.node? p).bind Node.inputs? = (m.node? p).bind Node.inputs?) :
    m'.inputsAt a = m.inputsAt a := by
  rw [inputsAt_eq, inputsAt_eq, inputs?_congr h]

/-- A change in place that keeps what the session is run with. -/
theorem inputsAt_of_map {g : Node → Node} (hg : ∀ n, (g n).inputs? = n.inputs?) {b : Route}
    (h : ∀ p, m'.node? p = if p = b then (m.node? p).map g else m.node? p) (a : Route) :
    m'.inputsAt a = m.inputsAt a := by
  refine inputsAt_congr fun p _ => ?_
  rw [h]
  split
  · cases m.node? p with
    | none => rfl
    | some n => exact hg n
  · rfl

theorem inputsAt_modifyStore (m : Machine) (b a : Route) (f : Store → Store) :
    (m.modifyStore b f).inputsAt a = m.inputsAt a :=
  inputsAt_of_map (g := fun n => { n with store := f n.store }) (fun _ => rfl)
    (fun p => node?_modifyStore m b p f) a

theorem inputsAt_record (m : Machine) (b a : Route) (result : Option Value) :
    (m.modify b fun c => { c with results := c.results ++ [result] }).inputsAt a = m.inputsAt a :=
  inputsAt_of_map (g := fun n => { n with results := n.results ++ [result] }) (fun _ => rfl)
    (fun p => node?_record m b p result) a

theorem inputsAt_enter (m : Machine) (b a : Route) (path : Path) : (m.enter b path).inputsAt a = m.inputsAt a := by
  refine inputsAt_of_map
    (g := fun n => { n with session := n.session.map fun s => { s with log := s.log ++ [path] } }) (fun n => ?_)
    (fun p => node?_enter m b p path) a
  unfold Node.inputs?
  rw [Option.map_map]
  rfl

/-- What is not there has nothing below it. -/
theorem node?_append_of_none {b : Route} (h : m.node? b = none) (more : Route) : m.node? (b ++ more) = none := by
  cases hm : m.node? (b ++ more) with
  | none => rfl
  | some n =>
    have hbelow : (m.tree.node? (b ++ more)).isSome = true := by
      rw [show m.tree.node? (b ++ more) = some n from hm]
      rfl
    have hsome := Branch.isSome_node?_of_prefix hbelow
    rw [show m.tree.node? b = none from h] at hsome
    cases hsome

/-- A fork belongs to the query of its parent. -/
theorem inputsAt_fork {b : Route} {n : Node} (h : m.node? b = some n) (options : ForkOptions) (a : Route) :
    (m.addChild b fun c => c.forkOf options).2.inputsAt a = m.inputsAt a := by
  refine inputsAt_congr fun p _ => ?_
  rw [node?_fork h]
  split
  · next hp => rw [hp, h, Option.bind_some, Option.bind_some]; rfl
  · split
    · next hp => rw [hp, node?_next h]; rfl
    · rfl

/-- A nested query is run with what it has been started with. -/
theorem inputsAt_open {b : Route} {n : Node} (h : m.node? b = some n) (inputs : Inputs) (a : Route) :
    (m.addChild b fun _ => .root inputs).2.inputsAt a =
      if b ++ [n.degree] <+: a then inputs else m.inputsAt a := by
  have hnode := node?_open h inputs
  split
  · next hbelow =>
    obtain ⟨more, rfl⟩ := hbelow
    have hfound : (m.addChild b fun _ => .root inputs).2.inputs? (b ++ [n.degree] ++ more) = some inputs := by
      induction more using List.reverseRecOn with
      | nil =>
        rw [List.append_nil, inputs?_snoc, hnode, if_neg (by simp), if_pos rfl]
        rfl
      | append_singleton more i ih =>
        have hfar : b ++ [n.degree] ++ more ++ [i] ≠ b ++ [n.degree] := fun heq => by
          have hlen := congrArg List.length heq
          simp at hlen
        rw [← List.append_assoc, inputs?_snoc, ih, hnode, if_neg (by simp), if_neg hfar,
          List.append_assoc, node?_append_of_none (node?_next h)]
        rfl
    rw [inputsAt_eq, hfound]
    rfl
  · next habove =>
    refine inputsAt_congr fun p hp => ?_
    have hnew : p ≠ b ++ [n.degree] := fun heq => habove (heq ▸ hp)
    rw [hnode, if_neg hnew]
    split
    · next hpb => rw [hpb, h, Option.bind_some, Option.bind_some]; rfl
    · rfl

end Machine

end MediaQuery
