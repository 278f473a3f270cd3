import MediaQuery.Proofs.Branch.Descendants
import MediaQuery.Proofs.Machine.Evolves
import MediaQuery.Proofs.Machine.Hosts
import MediaQuery.Proofs.Machine.Turns

/-!
# Queries inside a query

A nested query starts at a branch of its own. What is done below that branch is not seen elsewhere: it is no matter to
what other branches hold, and entries go to no log but those that are kept there (`Sealed`, `upheld_sealed`). So nothing
about the branch that has asked for the query becomes another (`Undisturbed`), neither when it starts
(`undisturbed_open`) nor whatever it does next, in the midst of others (`undisturbed_of_advances`), and if there are no
others, not by a whole run (`undisturbed_of_run`).
-/

namespace MediaQuery.Machine

variable {place a base : Route} {m m' m'' : Machine} {α : Type} {Q : α → Prop}

/-! ## What is done below the first branch of a query -/

theorem sessionRoute_self (h : (m.session? place).isSome = true) : m.tree.sessionRoute place = place := by
  rcases List.eq_nil_or_concat place with rfl | ⟨above, i, rfl⟩
  · rfl
  · rw [List.concat_eq_append] at h ⊢
    rw [Branch.sessionRoute_snoc]
    exact if_pos h

/-- The way to a session from below the first branch of a query does not leave it. -/
theorem sessionRoute_below (h : (m.session? place).isSome = true) (ha : place <+: a) :
    place <+: m.tree.sessionRoute a := by
  obtain ⟨more, rfl⟩ := ha
  induction more using List.reverseRecOn with
  | nil =>
    refine ⟨[], ?_⟩
    rw [List.append_nil, sessionRoute_self h]
  | append_singleton more i ih =>
    rw [← List.append_assoc, Branch.sessionRoute_snoc]
    split
    · rw [List.append_assoc]
      exact List.prefix_append _ _
    · exact ih

/-- Machines evolve, and if a query starts at a place, then all off the place is as it was. -/
structure Sealed (place : Route) (m m' : Machine) : Prop where
  evolves : Evolves m m'
  node : (m.session? place).isSome = true → ∀ a, Away place a → m'.node? a = m.node? a

theorem Sealed.head (h : Sealed place m m') (hs : (m.session? place).isSome = true) :
    (m'.session? place).isSome = true := by
  rw [h.evolves.isSome_session? (isSome_node?_of_session? hs), hs]

theorem Sealed.refl (place : Route) (m : Machine) : Sealed place m m := ⟨.refl m, fun _ _ _ => rfl⟩

theorem Sealed.trans (h : Sealed place m m') (h' : Sealed place m' m'') : Sealed place m m'' :=
  ⟨h.evolves.trans h'.evolves, fun hs a ha => (h'.node (h.head hs) a ha).trans (h.node hs a ha)⟩

theorem sealed_of_nodes (h : ∀ a, m'.node? a = m.node? a) : Sealed place m m' :=
  ⟨evolves_of_nodes h, fun _ a _ => h a⟩

theorem sealed_modifyStore (m : Machine) (ha : place <+: a) (f : Store → Store) :
    Sealed place m (m.modifyStore a f) := by
  refine ⟨evolves_modifyStore m a f, fun _ b hb => ?_⟩
  have hne : b ≠ a := fun heq => hb (heq ▸ ha)
  exact (node?_modifyStore m a b f).trans (if_neg hne)

theorem sealed_spawn (m : Machine) (ha : place <+: a) (key : String) (p : Prog (Except EvalError Value)) :
    Sealed place m (m.spawn a key p) := by
  unfold spawn
  split
  · exact (sealed_modifyStore m ha fun s => s.write key (.pending (m.nextFuture a))).trans (sealed_of_nodes fun _ => rfl)
  · exact .refl place m

/-- An operation below the place. -/
theorem sealed_perform {op : Op α} (hb : place <+: base ++ op.branch) :
    Sealed place m (m.perform base op).2 := by
  refine ⟨evolves_perform m base op, fun hs a ha => ?_⟩
  have hne : a ≠ base ++ op.branch := fun heq => ha (heq ▸ hb)
  have hchild (i : Nat) : a ≠ base ++ op.branch ++ [i] := fun heq => ha (heq ▸ hb.trans (List.prefix_append _ _))
  cases op with
  | set branch key value => exact (node?_modifyStore m _ a _).trans (if_neg hne)
  | record branch result => exact (node?_record m _ a result).trans (if_neg hne)
  | enter branch path =>
    refine (node?_enter m _ a path).trans (if_neg fun heq => ha ?_)
    exact heq ▸ sessionRoute_below hs hb
  | fork branch options =>
    cases hn : m.node? (base ++ branch) with
    | none => exact congrArg (node? · a) (addChild_of_none hn)
    | some n => exact (node?_fork hn options a).trans ((if_neg hne).trans (if_neg (hchild n.degree)))
  | openSession branch inputs =>
    cases hn : m.node? (base ++ branch) with
    | none => exact congrArg (node? · a) (addChild_of_none hn)
    | some n => exact (node?_open hn inputs a).trans ((if_neg hne).trans (if_neg (hchild n.degree)))
  | _ => rfl

/-- **What programs do below the first branch of a query is not seen elsewhere.** -/
theorem upheld_sealed (place : Route) : Upheld (place <+: ·) (Sealed place) where
  refl := .refl place
  trans := .trans
  grows h _ ha := h.evolves.isSome ha
  perform hb _ := sealed_perform hb
  spawn m _ ha key p _ := sealed_spawn m ha key p
  modifyStore m _ ha f := sealed_modifyStore m ha f
  markAwaited _ _ _ := sealed_of_nodes fun _ => rfl
  setFuture _ _ _ _ _ := sealed_of_nodes fun _ => rfl

/-! ## The branch that has asked for it -/

/-- Nothing about a branch has become another: what it holds, its path, its results, the branches forked from it, and
the session of its query with the log. -/
structure Undisturbed (a : Route) (m m' : Machine) : Prop where
  store : m'.store a = m.store a
  path : m'.path a = m.path a
  history : m'.history a = m.history a
  descendants : m'.descendants a = m.descendants a
  session : m'.session a = m.session a

theorem Undisturbed.refl (a : Route) (m : Machine) : Undisturbed a m m := ⟨rfl, rfl, rfl, rfl, rfl⟩

theorem Undisturbed.trans (h : Undisturbed a m m') (h' : Undisturbed a m' m'') : Undisturbed a m m'' :=
  ⟨h'.store.trans h.store, h'.path.trans h.path, h'.history.trans h.history, h'.descendants.trans h.descendants,
    h'.session.trans h.session⟩

theorem descendants_of_branch? {b : Branch} (h : m.branch? a = some b) :
    m.descendants a = b.descendants.map (a ++ ·) := by
  unfold descendants
  rw [h]
  rfl

theorem node?_below {b : Branch} (h : m.branch? a = some b) (route : Route) :
    b.node? route = m.node? (a ++ route) := by
  have hb : m.tree.at? a = some b := h
  unfold node?
  rw [Branch.node?_append, hb]
  rfl

theorem starts_below {b : Branch} (h : m.branch? a = some b) (route : Route) :
    b.starts route = (m.session? (a ++ route)).isSome := by
  unfold Branch.starts session?
  rw [node?_below h]

section Outside

variable (hs : (m.session? place).isSome = true) (ha : Away place a)
include hs ha

/-- The branches of its own query below a branch off the place are off the place. -/
theorem away_of_own {b : Branch} (hb : m.branch? a = some b) {route : Route} (hown : b.Own route) :
    Away place (a ++ route) := by
  intro hplace
  rcases List.prefix_or_prefix_of_prefix hplace (List.prefix_append a route) with habove | ⟨q, rfl⟩
  · exact ha habove
  · rw [List.prefix_append_right_inj] at hplace
    have hq : q ≠ [] := by
      rintro rfl
      exact ha (by simp)
    have hstarts := hown q hq hplace
    rw [starts_below hb, hs] at hstarts
    cases hstarts

theorem Sealed.descendants (h : Sealed place m m') : m'.descendants a = m.descendants a := by
  have hnode := h.node hs
  have hsome : (m'.branch? a).isSome = (m.branch? a).isSome := by
    rw [isSome_branch?, isSome_branch?, hnode a ha]
  cases hb : m.branch? a with
  | none =>
    rw [hb, Option.isSome_none, Option.isSome_eq_false_iff, Option.isNone_iff_eq_none] at hsome
    unfold Machine.descendants
    rw [hb, hsome]
  | some b =>
    rw [hb, Option.isSome_some, Option.isSome_iff_exists] at hsome
    obtain ⟨b', hb'⟩ := hsome
    rw [descendants_of_branch? hb, descendants_of_branch? hb']
    refine congrArg _ (Branch.descendants_congr b b' (fun route hown => ?_) fun route i hown => ?_)
    · rw [node?_below hb, node?_below hb', hnode _ (away_of_own hs ha hb hown)]
    · rw [starts_below hb, starts_below hb', ← List.append_assoc]
      -- the child is off the place like its parent, or it is the place
      by_cases hchild : place <+: a ++ route ++ [i]
      · rcases List.prefix_concat_iff.1 hchild with rfl | habove
        · rw [h.head hs, hs]
        · exact absurd habove (away_of_own hs ha hb hown)
      · unfold session?
        rw [hnode _ hchild]

/-- **What is done below the first branch of a query disturbs no branch elsewhere.** -/
theorem Sealed.undisturbed (h : Sealed place m m') : Undisturbed a m m' := by
  have hnode {p : Route} (hp : p <+: a) : m'.node? p = m.node? p := h.node hs p fun hplace => ha (hplace.trans hp)
  have hbranch := hnode (List.prefix_refl a)
  have hsession {p : Route} (hp : p <+: a) : m'.session? p = m.session? p := by
    unfold session?
    rw [hnode hp]
  refine ⟨store_congr (by rw [hbranch]), ?_, ?_, h.descendants hs ha, ?_⟩
  · rw [path_eq, path_eq, hbranch]
  · rw [history_eq, history_eq, hbranch]
  · have hroute : m'.tree.sessionRoute a = m.tree.sessionRoute a := sessionRoute_congr fun p hp => by rw [hsession hp]
    rw [session_eq, session_eq, hroute, hsession (prefix_sessionRoute m.tree a)]

end Outside

/-- **A query that starts below a branch does not disturb it.** -/
theorem undisturbed_open {n : Node} (hn : m.node? a = some n) (inputs : Inputs) :
    Undisturbed a m (m.addChild a fun _ => .root inputs).2 := by
  have hnode := (node?_open hn inputs a).trans (if_pos rfl)
  obtain ⟨b, hb, -⟩ := Option.map_eq_some_iff.1 hn
  have hbranch : (m.addChild a fun _ => .root inputs).2.branch? a = some (b.addChild (.root inputs)) := by
    have hb : m.tree.at? a = some b := hb
    unfold branch? addChild modify
    rw [Branch.at?_modify_self, hb]
    rfl
  have hroute : (m.addChild a fun _ => .root inputs).2.tree.sessionRoute a = m.tree.sessionRoute a :=
    (keepsHeads_open hn inputs).sessionRoute (hn ▸ rfl)
  have hold : m.tree.sessionRoute a ≠ a ++ [n.degree] := by
    intro heq
    have hlength := (prefix_sessionRoute m.tree a).length_le
    rw [heq, List.length_append, List.length_singleton] at hlength
    omega
  refine ⟨?_, ?_, ?_, ?_, ?_⟩
  · rw [store_open hn, if_neg (by simp)]
  · rw [path_of_node? hnode, path_of_node? hn]
  · rw [history_of_node? hnode, history_of_node? hn]
  · rw [descendants_of_branch? hbranch, descendants_of_branch? hb, Branch.descendants_addChild b rfl]
  · rw [session_eq, session_eq, hroute, session?_open hn, if_neg hold]

theorem away_nextChild (m : Machine) (a : Route) : Away (a ++ [m.nextChild a]) a :=
  fun hprefix => by simpa using hprefix.length_le

/-! ## What a nested query does -/

/-- A started program advances, with the futures below a place: it is taken on, or one of these is. -/
inductive Advances (place base : Route) : Run α × Machine → Run α × Machine → Prop
  | resume (run : Run α) (m : Machine) : Advances place base (run, m) (run.resume base m)
  | future (run : Run α) {m m' : Machine} {f : Future} (hf : place <+: f.id.home) (h : m.runFuture f = some m') :
      Advances place base (run, m) (run, m')

/-- The same, in the midst of others that do whatever machines do. -/
inductive Amid (place base : Route) : Run α × Machine → Run α × Machine → Prop
  | own {x y : Run α × Machine} (h : Advances place base x y) : Amid place base x y
  | others (run : Run α) {m m' : Machine} (h : Evolves m m') : Amid place base (run, m) (run, m')

/-- A run that uses only what is below a place where a query starts. -/
structure Within (place base : Route) (x : Run α × Machine) : Prop where
  uses : x.1.Uses (place <+: ·) base fun _ => True
  head : (x.2.session? place).isSome = true

variable {x y : Run α × Machine}

/-- What it does is sealed. -/
theorem Within.advances (hx : Within place base x) (h : Advances place base x y) :
    Sealed place x.2 y.2 ∧ Within place base y := by
  cases h with
  | resume run m =>
    obtain ⟨hsealed, huses⟩ := (upheld_sealed place).resume hx.uses (settled_below place m)
    exact ⟨hsealed, huses, hsealed.head hx.head⟩
  | @future run m m' f hf h =>
    obtain ⟨taken, rfl⟩ := takeOn_of_runFuture h
    have hsealed := (upheld_sealed place).takeOn (settled_below place m) hf (taken.uses_below hf)
    exact ⟨⟨hsealed.evolves, hsealed.node⟩, hx.uses, hsealed.head hx.head⟩

/-- **It stays like that**, whatever others do in between. -/
theorem Within.amid (hx : Within place base x) (h : Relation.ReflTransGen (Amid place base) x y) :
    Within place base y := by
  induction h with
  | refl => exact hx
  | tail _ h ih =>
    cases h with
    | own h => exact (ih.advances h).2
    | others run h => exact ⟨ih.uses, by rw [h.isSome_session? (isSome_node?_of_session? ih.head), ih.head]⟩

/-- **So nothing that it ever does disturbs a branch off the place.** -/
theorem undisturbed_of_advances (hx : Within place base x) (ha : Away place a)
    (hy : Relation.ReflTransGen (Amid place base) x y) {z : Run α × Machine} (hz : Advances place base y z) :
    Undisturbed a y.2 z.2 := ((hx.amid hy).advances hz).1.undisturbed (hx.amid hy).head ha

/-! ## Whole runs -/

/-- Off a place all futures have ended. -/
def Still (place : Route) (m : Machine) : Prop := ∀ f ∈ m.futures, Away place f.id.home → f.report?.isSome = true

/-- What is done below the place starts no futures elsewhere. -/
theorem Still.confined (h : m.Still place) (hc : Confined (place <+: ·) m m') : m'.Still place := by
  intro f hf haway
  have hsame := hc.futures (fun x => decide (Away place x)) fun x hx => decide_eq_false (not_not_intro hx)
  have hmem : f ∈ m'.futures.filter fun f => decide (Away place f.id.home) :=
    List.mem_filter.2 ⟨hf, decide_eq_true haway⟩
  rw [hsame] at hmem
  exact h f (List.mem_of_mem_filter hmem) haway

/-- A future that is taken on where all others have ended is below the place. -/
theorem Still.home {f : Future} (h : m.Still place) (hf : f ∈ m.futures) (hm : m.runFuture f = some m') :
    place <+: f.id.home := by
  by_contra haway
  have hended := h f hf haway
  obtain ⟨run, hrun, -⟩ := running_of_runFuture hm
  unfold Future.report? at hended
  rw [hrun] at hended
  cases hended

/-- The main program is a run below the place, and no other goes on elsewhere. -/
structure Alone (place : Route) (run : Run α) (m : Machine) : Prop where
  within : Within place [] (run, m)
  still : m.Still place

/-- **If there are no others, no step of a turn disturbs a branch off the place.** -/
theorem maintained_alone (ha : Away place a) : Maintained (α := α) (Alone place) (Undisturbed a) where
  refl _ := .refl a _
  trans := .trans
  idle h _ _ := ⟨⟨rfl, rfl, rfl, rfl, rfl⟩, ⟨h.within.uses, h.within.head⟩, h.still⟩
  resume {run m} h := by
    obtain ⟨hsealed, hwithin⟩ := h.within.advances (.resume run m)
    have hconfined := (confined_resume h.within.uses (settled_below place m)).1
    exact ⟨hsealed.undisturbed h.within.head ha, hwithin, h.still.confined hconfined⟩
  future {run m m' id f} h hf hm := by
    have hhome := h.still.home (List.mem_of_find?_eq_some hf) hm
    obtain ⟨hsealed, hwithin⟩ := h.within.advances (.future run hhome hm)
    obtain ⟨taken, rfl⟩ := takeOn_of_runFuture hm
    have hstill := h.still.confined (confined_takeOn (settled_below place m) hhome (taken.uses_below hhome))
    exact ⟨hsealed.undisturbed h.within.head ha, hwithin, hstill⟩

/-- **Nor does a whole run.** -/
theorem undisturbed_of_run (ha : Away place a) {p : Prog α} (hp : p.Uses (place <+: ·) [] fun _ => True)
    (hs : (m.session? place).isSome = true) (h : m.Still place) : Undisturbed a m (m.run p).2 := by
  obtain ⟨hsealed, huses⟩ := (upheld_sealed place).start hp (settled_below place m)
  have hstill := h.confined (confined_start hp (settled_below place m)).1
  have hstarted : Alone place (p.start [] m).1 (p.start [] m).2 := ⟨⟨huses, hsealed.head hs⟩, hstill⟩
  obtain ⟨-, -, hdriven, -⟩ := (maintained_alone ha).drive hstarted
  exact (hsealed.undisturbed hs ha).trans hdriven

end MediaQuery.Machine
