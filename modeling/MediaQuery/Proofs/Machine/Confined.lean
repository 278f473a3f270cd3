import MediaQuery.Proofs.Machine.Upheld

/-!
# What a program leaves alone

A program that uses only some branches changes nothing about the others (`confined_start`, `confined_resume`): not
what they hold, not their futures, and not the place of these in the queue.
-/

namespace MediaQuery

/-- The node without its session, which may get new entries of the log from anywhere. -/
def Node.bare (n : Node) : Node := { n with session := none }

theorem Node.same_of_bare {n n' : Node} (h : n.bare = n'.bare) :
    n.store = n'.store ∧ n.path = n'.path ∧ n.results = n'.results ∧ n.degree = n'.degree := by
  obtain ⟨_, _, _, _, _⟩ := n
  obtain ⟨_, _, _, _, _⟩ := n'
  cases h
  exact ⟨rfl, rfl, rfl, rfl⟩

namespace Machine

variable {T : Route → Prop} {m m' m'' : Machine} {a place : Route}

/-- What changes from one machine to a later one is about some branches only. -/
structure Confined (T : Route → Prop) (m m' : Machine) : Prop where
  grows : m.Grows m'
  node : ∀ a, ¬ T a → (m'.node? a).map Node.bare = (m.node? a).map Node.bare
  /-- What a branch is run with is another matter only if a branch on the way is new. -/
  inputs : ∀ a, (∀ x, x <+: a → (m'.node? x).isSome = true → (m.node? x).isSome = true) →
    m'.inputsAt a = m.inputsAt a
  futures : ∀ p : Route → Bool, (∀ x, T x → p x = false) →
    (m'.futures.filter fun f => p f.id.home) = m.futures.filter fun f => p f.id.home
  ready : ∀ p : Route → Bool, (∀ x, T x → p x = false) →
    (m'.ready.filter fun id => p id.home) = m.ready.filter fun id => p id.home
  clock : m'.clock = m.clock
  /-- Futures go on as they were, and new ones use some branches only. -/
  guests : ∀ f ∈ m'.futures, ∀ run, f.state = .running run →
    (∃ g ∈ m.futures, g.id = f.id ∧ g.state = .running run) ∨ T f.id.home ∧ run.Uses T f.id.home fun _ => True

theorem Confined.refl (T : Route → Prop) (m : Machine) : Confined T m m :=
  ⟨fun _ h => h, fun _ _ => rfl, fun _ _ => rfl, fun _ _ => rfl, fun _ _ => rfl, rfl,
    fun f hf _ hs => .inl ⟨f, hf, rfl, hs⟩⟩

theorem Confined.trans (h : Confined T m m') (h' : Confined T m' m'') : Confined T m m'' := by
  refine ⟨fun a ha => h'.grows a (h.grows a ha), fun a ha => (h'.node a ha).trans (h.node a ha),
    fun a ha => (h'.inputs a fun x hx hx' => h.grows x (ha x hx hx')).trans
      (h.inputs a fun x hx hx' => ha x hx (h'.grows x hx')),
    fun p hp => (h'.futures p hp).trans (h.futures p hp), fun p hp => (h'.ready p hp).trans (h.ready p hp),
    h'.clock.trans h.clock, fun f hf run hs => ?_⟩
  rcases h'.guests f hf run hs with ⟨g, hg, hid, hgs⟩ | hnew
  · rcases h.guests g hg run hgs with ⟨g', hg', hid', hgs'⟩ | hnew
    · exact .inl ⟨g', hg', hid'.trans hid, hgs'⟩
    · exact .inr (hid ▸ hnew)
  · exact .inr hnew

/-- What leaves futures, queue and clock alone. -/
theorem confined_of_nodes (hg : m.Grows m')
    (hnode : ∀ a, ¬ T a → (m'.node? a).map Node.bare = (m.node? a).map Node.bare)
    (hinputs : ∀ a, (∀ x, x <+: a → (m'.node? x).isSome = true → (m.node? x).isSome = true) →
      m'.inputsAt a = m.inputsAt a)
    (hf : m'.futures = m.futures) (hr : m'.ready = m.ready) (hc : m'.clock = m.clock) : Confined T m m' :=
  ⟨hg, hnode, hinputs, fun p _ => by rw [hf], fun p _ => by rw [hr], hc,
    fun f hmem _ hs => .inl ⟨f, hf ▸ hmem, rfl, hs⟩⟩

/-! ## Operations -/

/-- A change in place of one of the branches. -/
theorem confined_of_map {b : Route} {g : Node → Node}
    (h : ∀ a, m'.node? a = if a = b then (m.node? a).map g else m.node? a)
    (hbare : T b ∨ ∀ n, (g n).bare = n.bare) (hinputs : ∀ n, (g n).inputs? = n.inputs?)
    (hf : m'.futures = m.futures) (hr : m'.ready = m.ready) (hc : m'.clock = m.clock) : Confined T m m' := by
  refine confined_of_nodes (fun a ha => ?_) (fun a ha => ?_) (fun a _ => inputsAt_of_map hinputs h a) hf hr hc
  · rw [h]
    split
    · rwa [Option.isSome_map]
    · exact ha
  · rw [h]
    split
    · next hab =>
      rcases hbare with hb | hg
      · exact absurd (hab ▸ hb) ha
      · rw [Option.map_map]
        exact congrArg (Option.map · _) (funext hg)
    · rfl

theorem confined_modifyStore (m : Machine) (ha : T a) (f : Store → Store) : Confined T m (m.modifyStore a f) :=
  confined_of_map (node?_modifyStore m a · f) (.inl ha) (fun _ => rfl) rfl rfl rfl

/-- A new child among the branches. -/
theorem confined_newChild {n child : Node} (hn : m.node? a = some n) (ha : T a) (hchild : T (a ++ [n.degree]))
    (h : ∀ b, m'.node? b = if b = a then some { n with degree := n.degree + 1 }
      else if b = a ++ [n.degree] then some child else m.node? b)
    (hinputs : ∀ b, ¬ a ++ [n.degree] <+: b → m'.inputsAt b = m.inputsAt b)
    (hf : m'.futures = m.futures) (hr : m'.ready = m.ready) (hc : m'.clock = m.clock) : Confined T m m' := by
  refine confined_of_nodes (fun b hb => ?_) (fun b hb => ?_) (fun b hb => hinputs _ fun hprefix => ?_) hf hr hc
  · rw [h]
    split
    · rfl
    · split
      · rfl
      · exact hb
  · have hne : b ≠ a := fun heq => hb (heq ▸ ha)
    have hne' : b ≠ a ++ [n.degree] := fun heq => hb (heq ▸ hchild)
    rw [h, if_neg hne, if_neg hne']
  · have hnew : (m'.node? (a ++ [n.degree])).isSome = true := by
      rw [h, if_neg (by simp), if_pos rfl]
      rfl
    have hold := hb _ hprefix hnew
    rw [node?_next hn] at hold
    cases hold

theorem confined_addChild {child : Branch → Branch} (hchild : T (a ++ [m.nextChild a]))
    (h : ∀ n, m.node? a = some n → T (a ++ [n.degree]) → Confined T m (m.addChild a child).2) :
    Confined T m (m.addChild a child).2 := by
  cases hn : m.node? a with
  | none =>
    rw [addChild_of_none hn]
    exact .refl T m
  | some n => exact h n hn (nextChild_of_node? hn ▸ hchild)

/-- Operations on some branches, where what they make is one of these. -/
theorem confined_perform {α : Type} {op : Op α} {base : Route} (hb : T (base ++ op.branch))
    (hmakes : op.Makes T base (m.perform base op).1) : Confined T m (m.perform base op).2 := by
  cases op with
  | set branch key value => exact confined_modifyStore m hb fun s => s.write key (.ready value)
  | record branch result => exact confined_of_map (node?_record m _ · result) (.inl hb) (fun _ => rfl) rfl rfl rfl
  | enter branch path =>
    refine confined_of_map (node?_enter m _ · path) (.inr fun _ => rfl) (fun n => ?_) rfl rfl rfl
    unfold Node.inputs?
    rw [Option.map_map]
    rfl
  | fork branch options =>
    refine confined_addChild hmakes fun n hn hdegree => ?_
    exact confined_newChild hn hb hdegree (node?_fork hn options) (fun b _ => inputsAt_fork hn options b) rfl rfl rfl
  | openSession branch inputs =>
    refine confined_addChild hmakes fun n hn hdegree => ?_
    refine confined_newChild hn hb hdegree (node?_open hn inputs) (fun b hbelow => ?_) rfl rfl rfl
    rw [inputsAt_open hn, if_neg hbelow]
  | _ => exact .refl T m

theorem confined_spawn (m : Machine) (ha : T a) (key : String) {p : Prog (Except EvalError Value)}
    (hp : p.Uses T a fun _ => True) : Confined T m (m.spawn a key p) := by
  unfold spawn
  split
  · have hstore := confined_modifyStore m ha fun s => s.write key (.pending (m.nextFuture a))
    refine ⟨hstore.grows, hstore.node, hstore.inputs, fun q hq => ?_, fun q hq => ?_, rfl, fun f hf run hs => ?_⟩
    · have hnew : q (m.nextFuture a).home = false := hq a ha
      simp [List.filter_append, hnew]
    · have hnew : q (m.nextFuture a).home = false := hq a ha
      simp [List.filter_append, hnew]
    · rcases List.mem_append.1 hf with hf | hf
      · exact .inl ⟨f, hf, rfl, hs⟩
      · rw [List.mem_singleton] at hf
        subst hf
        cases hs
        exact .inr ⟨ha, .asleep hp⟩
  · exact .refl T m

/-! ## Futures -/

/-- A future that is set has its new state, and the others are as they were. -/
theorem mem_setState {id : FutureId} {state : FutureState} {futures : List Future} {f : Future}
    (h : f ∈ Future.setState id state futures) : f ∈ futures ∨ f.id = id ∧ f.state = state := by
  induction futures with
  | nil => cases h
  | cons g rest ih =>
    unfold Future.setState at h
    split at h
    · next hid =>
      rcases List.mem_cons.1 h with rfl | h
      · exact .inr ⟨hid, rfl⟩
      · exact .inl (List.mem_cons_of_mem _ h)
    · rcases List.mem_cons.1 h with rfl | h
      · exact .inl List.mem_cons_self
      · exact (ih h).imp_left (List.mem_cons_of_mem _)

theorem confined_setFuture (m : Machine) {id : FutureId} (ha : T id.home) {state : FutureState}
    (hs : ∀ run, state = .running run → run.Uses T id.home fun _ => True) : Confined T m (m.setFuture id state) := by
  refine ⟨fun _ h => h, fun _ _ => rfl, fun _ _ => rfl, fun p hp => ?_, fun _ _ => rfl, rfl, fun f hf run hrun => ?_⟩
  · exact filter_setState_other (hp _ ha) state m.futures
  · rcases mem_setState hf with hf | ⟨rfl, hstate⟩
    · exact .inl ⟨f, hf, rfl, hrun⟩
    · exact .inr ⟨ha, hs run (hstate.symm.trans hrun)⟩

/-! ## Waiting -/

theorem confined_markAwaited (m : Machine) (ha : T a) : Confined T m (m.markAwaited a) := by
  refine ⟨fun _ h => h, fun _ _ => rfl, fun _ _ => rfl, fun p hp => ?_, fun _ _ => rfl, rfl, fun f hf run hs => ?_⟩
  · unfold markAwaited
    have hsame : (fun f => p f.id.home) ∘ (fun f : Future => if f.id.home = a then { f with awaited := true } else f) =
        fun f => p f.id.home := by
      funext f
      dsimp only [Function.comp_apply]
      split <;> rfl
    rw [List.filter_map, hsame]
    refine (List.map_congr_left fun f hf => ?_).trans (List.map_id _)
    have hne : f.id.home ≠ a := by
      intro heq
      have hcond := (List.mem_filter.1 hf).2
      rw [heq, hp a ha] at hcond
      cases hcond
    rw [if_neg hne]
    rfl
  · obtain ⟨g, hg, rfl⟩ := List.mem_map.1 hf
    refine .inl ⟨g, hg, ?_⟩
    split at hs
    · next hhome =>
      rw [if_pos hhome]
      exact ⟨rfl, hs⟩
    · next hhome =>
      rw [if_neg hhome]
      exact ⟨rfl, hs⟩

/-! ## Programs -/

variable {base : Route}

/-- **That a change is about some branches only is upheld by programs that use only these.** -/
theorem upheld_confined (T : Route → Prop) : Upheld T (Confined T) where
  refl := .refl T
  trans := .trans
  grows := Confined.grows
  perform := confined_perform
  spawn m _ ha key _ hp := confined_spawn m ha key hp
  modifyStore m _ ha f := confined_modifyStore m ha f
  markAwaited m _ ha := confined_markAwaited m ha
  setFuture m _ ha _ hs := confined_setFuture m ha hs

/-- What a program leaves that uses some branches only. -/
abbrev ConfinedRun (T : Route → Prop) (base : Route) {α : Type} (Q : α → Prop) (m : Machine)
    (r : Run α × Machine) : Prop := Confined T m r.2 ∧ r.1.Uses T base Q

theorem confined_waitFutures (m : Machine) (ha : T a) (todo : List FutureId) (failure : Option EvalError) :
    Confined T m (waitFutures a todo failure m).2 := ((upheld_confined T).endured ha).waitFutures m todo failure

theorem confined_wait (m : Machine) (ha : T a) (wait : Wait) : Confined T m (Machine.wait a wait m).2 :=
  ((upheld_confined T).endured ha).wait m wait

theorem confined_keep (m : Machine) {f : Future} (ha : T f.id.home) {run : Run (Except EvalError Value)}
    (hr : run.Uses T f.id.home fun _ => True) : Confined T m (m.keep f run) := (upheld_confined T).keep m ha hr

theorem confined_sweep {β : Type} {n : Nat} {S : Except ExecutionError β → Prop}
    {advance : Fin n → Machine → Run (Except ExecutionError β) × Machine} (is : List (Fin n))
    (h : ∀ i ∈ is, ∀ m, m.Settled T → ConfinedRun T base S m (advance i m)) (hT : m.Settled T) :
    Confined T m (sweep advance is m).2 ∧ SweepHolds (Run.Uses T base S) (sweep advance is m).1 :=
  (upheld_confined T).sweep is h hT

variable {α : Type} {Q : α → Prop}

/-- **A program leaves alone the branches that it does not use.** -/
theorem confined_start {p : Prog α} (hp : p.Uses T base Q) (hT : m.Settled T) :
    ConfinedRun T base Q m (p.start base m) := (upheld_confined T).start hp hT

/-- **A run leaves alone the branches that it does not use.** -/
theorem confined_resume {run : Run α} (hr : run.Uses T base Q) (hT : m.Settled T) :
    ConfinedRun T base Q m (run.resume base m) := (upheld_confined T).resume hr hT

end Machine

end MediaQuery
