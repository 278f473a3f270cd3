import MediaQuery.Proofs.Machine.Follow
import MediaQuery.Proofs.Machine.Lone

/-!
# Programs on forks of one branch

Programs that run side by side, each on a fork of its own of one branch (`OwnFork`), do not see each other: where all
succeed, each of them comes to the same value as without the others (`parallel_isolated`). While they start one after
another the branch itself stays as it was but for its forks (`Sown`), so that each starts on the same machine of its
own.
-/

namespace MediaQuery

variable {β : Type} {b : Route} {options : ForkOptions} {p q : Prog (Except ExecutionError β)}

/-- A program forks a branch, maybe after some entries of the log, and does on the fork what another program does on
its own branch. -/
inductive Forks (b : Route) (options : ForkOptions) (q : Prog (Except ExecutionError β)) :
    Prog (Except ExecutionError β) → Prop
  | fork {k : Nat → Prog (Except ExecutionError β)} (h : ∀ i, Prog.Alike (b ++ [i]) SameValue (k i) q) :
      Forks b options q (.act (.fork b options) k)
  | enter (path : Path) {p : Prog (Except ExecutionError β)} (h : Forks b options q p) :
      Forks b options q (.act (.enter b path) fun _ => p)

/-- A program is a value, or runs on a fork of its own. -/
def OwnFork (b : Route) (p : Prog (Except ExecutionError β)) : Prop :=
  (∃ v, p = .done (.ok v)) ∨ ∃ options q, Forks b options q p

/-- What is below one fork is not below another. -/
theorem away_of_sibling {i j : Nat} (hij : i ≠ j) {x : Route} (h : b ++ [i] <+: x) : Away (b ++ [j]) x := by
  intro h'
  have hprefix : b ++ [i] <+: b ++ [j] := List.prefix_of_prefix_length_le h h' (by simp)
  have heq := hprefix.eq_of_length (by simp)
  exact hij (by simpa using heq)

/-- A branch is not below its forks. -/
theorem away_self (b : Route) (i : Nat) : Away (b ++ [i]) b := fun h => by simpa using h.length_le

/-- What uses one fork does not use another. -/
theorem Prog.Alike.keeps_away {α : Type} {R : α → α → Prop} {p q : Prog α} {i j : Nat}
    (h : Prog.Alike (b ++ [i]) R p q) (hij : i ≠ j) : p.Uses (Away (b ++ [j])) [] fun _ => True := by
  have huses : p.Uses (b ++ [i] <+: ·) [] (Related R) := h.uses List.prefix_rfl
  exact huses.mono (fun _ => away_of_sibling hij) (fun _ _ hx => hx.trans (List.prefix_append _ _)) fun _ _ => trivial

/-- A program on a fork of its own does not use the forks that are there. -/
theorem Forks.uses (h : Forks b options q p) (j : Nat) : p.Uses (Away (b ++ [j])) [] fun _ => True := by
  induction h with
  | fork hk =>
    refine .act (away_self b j) fun i hi => (hk i).keeps_away fun heq => ?_
    rw [heq] at hi
    exact hi List.prefix_rfl
  | enter path _ ih => exact .act (away_self b j) fun _ _ => ih

theorem OwnFork.uses (h : OwnFork b p) (j : Nat) : p.Uses (Away (b ++ [j])) [] fun _ => True := by
  rcases h with ⟨v, rfl⟩ | ⟨options, q, h⟩
  · exact .done trivial
  · exact h.uses j

namespace Machine

variable {inputs : Inputs} {m m' : Machine} {n : Node} {clock : Nat}

/-- The branch holds what it held at first, and its new forks are used by none but those they were made for. -/
structure Sown (b : Route) (n : Node) (inputs : Inputs) (clock : Nat) (m : Machine) : Prop where
  steady : ∃ first past, Steady first past m
  node : ∃ n', m.node? b = some n' ∧ n'.store = n.store ∧ n'.path = n.path
  inputs : m.inputsAt b = inputs
  clock : m.clock = clock
  clear : m.Clear b

/-- What happens off the branch and off its future forks. -/
theorem Sown.confined {T : Route → Prop} (h : Sown b n inputs clock m) (hs : ∃ first past, Steady first past m')
    (hc : Confined T m m') (hb : ¬ T b) (hT : ∀ i, m.nextChild b ≤ i → ∀ x, T x → Away (b ++ [i]) x)
    (hclosed : ∀ x i, T x → T (x ++ [i])) : Sown b n inputs clock m' ∧ m'.nextChild b = m.nextChild b := by
  obtain ⟨n', hn', hstore, hpath⟩ := h.node
  have hnode := hc.node b hb
  rw [hn', Option.map_some, Option.map_eq_some_iff] at hnode
  obtain ⟨n₁, hn₁, hbare⟩ := hnode
  obtain ⟨hstore₁, hpath₁, -, hdegree⟩ := Node.same_of_bare hbare
  have hnext : m'.nextChild b = m.nextChild b := by
    rw [nextChild_of_node? hn₁, nextChild_of_node? hn', hdegree]
  refine ⟨⟨hs, ⟨n₁, hn₁, hstore₁.trans hstore, hpath₁.trans hpath⟩, ?_, hc.clock.trans h.clock,
    fun f hf run hrun i hi => ?_⟩, hnext⟩
  · refine (hc.inputs b fun x hx _ => ?_).trans h.inputs
    obtain ⟨more, rfl⟩ := hx
    have hthere : (m.tree.node? (x ++ more)).isSome = true := by
      rw [show m.tree.node? (x ++ more) = some n' from hn']
      rfl
    exact Branch.isSome_node?_of_prefix hthere
  · rw [hnext] at hi
    rcases hc.guests f hf run hrun with ⟨g, hg, hid, hgs⟩ | ⟨-, huses⟩
    · exact hid ▸ h.clear g hg run hgs i hi
    · exact huses.mono (hT i hi) hclosed fun _ _ => trivial

theorem Sown.enter (h : Sown b n inputs clock m) (path : Path) :
    Sown b n inputs clock (m.enter b path) ∧ (m.enter b path).nextChild b = m.nextChild b := by
  obtain ⟨first, past, hs⟩ := h.steady
  obtain ⟨past', hacts⟩ := acts_perform hs.history [] (.enter b path)
  have hc : Confined (fun _ => False) m (m.enter b path) := by
    refine confined_of_map (node?_enter m _ · path) (.inr fun _ => rfl) (fun n => ?_) rfl rfl rfl
    unfold Node.inputs?
    rw [Option.map_map]
    rfl
  exact h.confined ⟨first, past', hs.acts hacts⟩ hc (fun hf => hf) (fun _ _ _ hf => hf.elim) fun _ _ hf => hf

theorem Sown.fork (h : Sown b n inputs clock m) (options : ForkOptions) :
    Sown b n inputs clock (m.addChild b fun c => c.forkOf options).2 ∧
      (m.addChild b fun c => c.forkOf options).2.nextChild b = m.nextChild b + 1 := by
  obtain ⟨first, past, hs⟩ := h.steady
  obtain ⟨past', hacts⟩ := acts_perform hs.history [] (.fork b options)
  obtain ⟨n', hn', hstore, hpath⟩ := h.node
  have hself : (m.addChild b fun c => c.forkOf options).2.node? b = some { n' with degree := n'.degree + 1 } := by
    rw [node?_fork hn', if_pos rfl]
  have hnext : (m.addChild b fun c => c.forkOf options).2.nextChild b = m.nextChild b + 1 := by
    rw [nextChild_of_node? hself, nextChild_of_node? hn']
  refine ⟨⟨⟨first, past', hs.acts hacts⟩, ⟨_, hself, hstore, hpath⟩, ?_, h.clock, fun f hf run hrun i hi => ?_⟩, hnext⟩
  · rw [inputsAt_fork hn', h.inputs]
  · exact h.clear f hf run hrun i (by omega)

/-- A program that has started on a fork of its own leaves the branch as it was but for that fork. -/
theorem Sown.start (h : Sown b n inputs clock m) (hp : Forks b options q p) :
    Sown b n inputs clock (p.start [] m).2 ∧ m.nextChild b < (p.start [] m).2.nextChild b ∧
      (p.start [] m).1.Uses (b ++ [m.nextChild b] <+: ·) [] fun _ => True := by
  induction hp generalizing m with
  | @fork k hk =>
    obtain ⟨first, past, hs⟩ := h.steady
    obtain ⟨n', hn', -⟩ := h.node
    obtain ⟨hforked, hnext⟩ := h.fork options
    have hstart : (Prog.act (.fork b options) k).start [] m =
        (k (m.nextChild b)).start [] (m.addChild b fun c => c.forkOf options).2 := rfl
    rw [hstart]
    have huses : (k (m.nextChild b)).Uses (b ++ [m.nextChild b] <+: ·) [] (Related SameValue) :=
      (hk _).uses List.prefix_rfl
    obtain ⟨hconfined, hrun⟩ := confined_start (huses.mono (fun _ hx => hx)
      (fun _ _ hx => hx.trans (List.prefix_append _ _)) fun _ _ => trivial) (settled_below _ _)
    have hsteady : ∃ first past, Steady first past
        ((k (m.nextChild b)).start [] (m.addChild b fun c => c.forkOf options).2).2 := by
      obtain ⟨first, past, hs⟩ := hforked.steady
      obtain ⟨past', hacts, -⟩ := acts_start (k (m.nextChild b)) [] hs.history
      exact ⟨first, past', hs.acts hacts⟩
    obtain ⟨hsown, hsame⟩ := hforked.confined hsteady hconfined (away_self b _)
      (fun i hi x hx => away_of_sibling (by omega) hx) fun _ _ hx => hx.trans (List.prefix_append _ _)
    exact ⟨hsown, by omega, hrun⟩
  | @enter path p _ ih =>
    obtain ⟨hentered, hnext⟩ := h.enter path
    have hstart : (Prog.act (.enter b path) fun _ => p).start [] m = p.start [] (m.enter b path) := rfl
    rw [hstart, ← hnext]
    exact ih hentered

/-- And on that fork it does what the other program does on a machine of its own. -/
theorem Sown.hosts (h : Sown b n inputs clock m) (hp : Forks b options q p) (hpending : n.store.pending = []) :
    Hosts (b ++ [m.nextChild b]) (p.start [] m).2 (q.start [] (lone inputs (forkNode n options) clock)).2 ∧
      (p.start [] m).1.Alike (b ++ [m.nextChild b]) (b ++ [m.nextChild b]) SameValue
        (q.start [] (lone inputs (forkNode n options) clock)).1 := by
  induction hp generalizing m with
  | @fork k hk =>
    obtain ⟨first, past, hs⟩ := h.steady
    obtain ⟨n', hn', hstore, hpath⟩ := h.node
    have hhosts := hosts_fork hs hn' (hstore ▸ hpending) h.clear options
    have hnode : forkNode n' options = forkNode n options := by
      unfold forkNode
      rw [hstore, hpath]
    rw [h.inputs, h.clock, hnode, ← nextChild_of_node? hn'] at hhosts
    have hbase : [] ++ (b ++ [m.nextChild b]) = b ++ [m.nextChild b] ++ [] := (List.append_nil _).symm
    obtain ⟨halike, hafter⟩ := mirrors_start (hk (m.nextChild b)) hhosts.mirrors hbase
    have huses : (k (m.nextChild b)).Uses (b ++ [m.nextChild b] <+: ·) [] (Related SameValue) :=
      (hk _).uses List.prefix_rfl
    exact ⟨hhosts.inside hafter (confined_start huses (settled_below _ _)).1, halike⟩
  | @enter path p _ ih =>
    obtain ⟨hentered, hnext⟩ := h.enter path
    rw [← hnext]
    exact ih hentered

/-! ## All of them -/

/-- A program on a fork of its own leaves the branch as it was but for its forks. -/
theorem Sown.startOwn (h : Sown b n inputs clock m) (hp : OwnFork b p) :
    Sown b n inputs clock (p.start [] m).2 ∧ m.nextChild b ≤ (p.start [] m).2.nextChild b ∧
      ∀ i, (p.start [] m).2.nextChild b ≤ i → (p.start [] m).1.Uses (Away (b ++ [i])) [] fun _ => True := by
  rcases hp with ⟨v, rfl⟩ | ⟨options, q, hp⟩
  · exact ⟨h, Nat.le_refl _, fun _ _ => .done trivial⟩
  · obtain ⟨hsown, hlt, huses⟩ := h.start hp
    exact ⟨hsown, Nat.le_of_lt hlt, fun i hi => huses.mono (fun _ hx => away_of_sibling (by omega) hx)
      (fun _ _ hx => hx.trans (List.prefix_append _ _)) fun _ _ => trivial⟩

/-- So do several of them, one after another. -/
theorem Sown.sweep {size : Nat} {parts : Fin size → Prog (Except ExecutionError β)} {is : List (Fin size)}
    (hparts : ∀ j ∈ is, OwnFork b (parts j)) (h : Sown b n inputs clock m) :
    Sown b n inputs clock (MediaQuery.sweep (fun j m => (parts j).start [] m) is m).2 ∧
      SweepHolds (fun run => ∀ i, (MediaQuery.sweep (fun j m => (parts j).start [] m) is m).2.nextChild b ≤ i →
        run.Uses (Away (b ++ [i])) [] fun _ => True) (MediaQuery.sweep (fun j m => (parts j).start [] m) is m).1 := by
  obtain ⟨⟨hsown, -⟩, huses⟩ := sweep_keeps (I := Sown b n inputs clock)
    (R := fun m m' => Sown b n inputs clock m' ∧ m.nextChild b ≤ m'.nextChild b)
    (P := fun m run => ∀ i, m.nextChild b ≤ i → run.Uses (Away (b ++ [i])) [] fun _ => True)
    (fun h => ⟨h, Nat.le_refl _⟩) (fun hfirst hsecond => ⟨hsecond.1, hfirst.2.trans hsecond.2⟩) (fun _ hm => hm.1)
    (fun hm huses i hi => huses i (hm.2.trans hi)) is (fun j hj _ h => and_assoc.2 (h.startOwn (hparts j hj))) h
  exact ⟨hsown, huses⟩

theorem start_parallel (parts : List (Prog (Except ExecutionError β))) (m : Machine) :
    (Prog.parallel parts).start [] m =
      afterSweep [] .done (MediaQuery.sweep (fun i m => (parts.get i).start [] m) (List.finRange parts.length) m) :=
  start_all parts.get .done [] m

/-- **Of programs that have started on forks of their own one is followed on a machine of its own**, which is the same
whatever the other programs are. -/
theorem Sown.follows (h : Sown b n inputs clock m) (hpending : n.store.pending = [])
    {parts : List (Prog (Except ExecutionError β))} (hparts : ∀ p ∈ parts, OwnFork b p) {k : Fin parts.length}
    (hp : Forks b options q (parts.get k)) :
    ∃ place, Follows place parts.length k
      (drive (q.start [] (lone inputs (forkNode n options) clock)).1
        (q.start [] (lone inputs (forkNode n options) clock)).2).1
      ((Prog.parallel parts).start [] m).1 ((Prog.parallel parts).start [] m).2 := by
  have hown (j : Fin parts.length) : OwnFork b (parts.get j) := hparts _ (List.get_mem parts j)
  obtain ⟨pre, post, hsplit, hlen, hsize, -, -⟩ := finRange_split k
  rw [start_parallel, hsplit, ← hlen]
  cases hs : (MediaQuery.sweep (fun i m => (parts.get i).start [] m) pre m).1 with
  | error e => exact ⟨[], follows_failed hsize hs⟩
  | ok runs =>
    obtain ⟨hsown, huses⟩ := h.sweep fun j (_ : j ∈ pre) => hown j
    rw [hs] at huses
    obtain ⟨hhosts, halike⟩ := hsown.hosts hp hpending
    exact ⟨_, follows_rest hsize hs (fun run hrun => huses run hrun _ (Nat.le_refl _)) hhosts halike fun j _ m hT =>
      confined_start ((hown j).uses _) hT⟩

/-! ## Values among the parts -/

/-- The main program waits for parts one of which is a value, or it has ended, with that value among others. -/
inductive Carries (n k : Nat) (v : β) : Run (Except ExecutionError (List β)) → Prop
  | going {n' : Nat} {parts : Fin n' → Run (Except ExecutionError β)} {i : Fin n'} (hn : n' = n) (hi : i.val = k)
      (hv : parts i = .done (.ok v)) : Carries n k v (.joined parts .done)
  | ended {values : List β} (hn : values.length = n) (hv : values[k]? = some v) : Carries n k v (.done (.ok values))
  | failed (e : ExecutionError) : Carries n k v (.done (.error e))

theorem carries_sweep {size : Nat} (advance : Fin size → Machine → Run (Except ExecutionError β) × Machine)
    {i : Fin size} {v : β} (hi : ∀ m, (advance i m).1 = .done (.ok v)) (m : Machine) :
    Carries size i v (afterSweep [] .done (sweep advance (List.finRange size) m)).1 := by
  cases hs : (MediaQuery.sweep advance (List.finRange size) m).1 with
  | error e =>
    generalize MediaQuery.sweep advance (List.finRange size) m = x at hs
    obtain ⟨r, m'⟩ := x
    cases hs
    exact .failed e
  | ok runs =>
    have hlen : runs.length = size := (length_sweep hs).trans List.length_finRange
    have hat : (List.finRange size)[i.val]? = some i := by simp
    obtain ⟨m', hrun⟩ := getElem?_sweep hs hat
    rw [hi] at hrun
    generalize MediaQuery.sweep advance (List.finRange size) m = x at hs
    obtain ⟨r, m'⟩ := x
    cases hs
    unfold afterSweep
    cases hg : gather? runs with
    | none =>
      simp only [hg]
      have hlt : i.val < runs.length := hlen ▸ i.isLt
      exact .going (i := ⟨i.val, hlt⟩) hlen rfl ((List.getElem_eq_iff hlt).2 hrun)
    | some values =>
      simp only [hg]
      have hvalues := gather?_eq_some.1 hg
      rw [hvalues, List.getElem?_map, Option.map_eq_some_iff] at hrun
      obtain ⟨w, hw, hdone⟩ := hrun
      cases hdone
      rw [hvalues, List.length_map] at hlen
      exact .ended hlen hw

/-- A value stays among the parts. -/
theorem Carries.dispatch {k : Nat} {size : Nat} {v : β} {main main' : Run (Except ExecutionError (List β))}
    (h : Carries size k v main) (hd : dispatch main m = some (main', m')) : Carries size k v main' := by
  unfold Machine.dispatch at hd
  split at hd
  · cases hd
    exact h
  · split at hd
    · next hready =>
      cases h with
      | @going n' parts i hn hi hv =>
        subst hn hi
        have hcarries := carries_sweep (fun i m => (parts i).resume [] m) (fun m => by rw [hv]; rfl) m
        rw [← resume_joined, Option.some.inj hd] at hcarries
        exact hcarries
      | ended _ _ => cases hready
      | failed _ => cases hready
    · cases hd

theorem Carries.drive {k size : Nat} {v : β} {main : Run (Except ExecutionError (List β))}
    (h : Carries size k v main) (m : Machine) {values : List β} (hd : (drive main m).1 = some (.ok values)) :
    values.length = size ∧ values[k]? = some v := by
  induction main, m using drive.induct with
  | case1 main m a hr =>
    rw [drive_of_result hr] at hd
    cases hd
    cases h with
    | going _ _ _ => cases hr
    | ended hn hv =>
      cases hr
      exact ⟨hn, hv⟩
    | failed _ => cases hr
  | case2 main m hr main' m' ht ih =>
    rw [drive_of_turn hr ht] at hd
    refine ih ?_ hd
    unfold turn at ht
    split at ht
    · next he => exact h.dispatch (he.trans ht)
    · obtain ⟨t, -, hd'⟩ := Option.bind_eq_some_iff.1 ht
      exact h.dispatch hd'
  | case3 main m hr ht =>
    rw [drive_of_stuck hr ht] at hd
    cases hd

/-! ## Each alone -/

theorem run_parallel_nil (m : Machine) :
    m.run (Prog.parallel ([] : List (Prog (Except ExecutionError β)))) = (some (.ok []), m) := drive_of_result rfl m

theorem run_parallel_value (v : β) (m : Machine) : m.run (Prog.parallel [.done (.ok v)]) = (some (.ok [v]), m) :=
  drive_of_result rfl m

/-- A branch as it is before anything has been started on its forks. -/
theorem sown_of_steady {first : Inputs} {past : List Event} (hs : Steady first past m) (hn : m.node? b = some n)
    (hclear : m.Clear b) : Sown b n (m.inputsAt b) m.clock m := ⟨⟨first, past, hs⟩, ⟨n, hn, rfl, rfl⟩, rfl, rfl, hclear⟩

/-- **Programs on forks of one branch do not see each other.** Where all of them succeed, each comes to the same value
as without the others. -/
theorem parallel_isolated {first : Inputs} {past : List Event} (hs : Steady first past m) (hn : m.node? b = some n)
    (hpending : n.store.pending = []) (hclear : m.Clear b) {parts : List (Prog (Except ExecutionError β))}
    (hparts : ∀ p ∈ parts, OwnFork b p) {values : List β} (h : (m.run (Prog.parallel parts)).1 = some (.ok values)) :
    List.Forall₂ (fun p v => (m.run (Prog.parallel [p])).1 = some (.ok [v])) parts values := by
  have hsown := sown_of_steady hs hn hclear
  have part (k : Fin parts.length) : values.length = parts.length ∧
      ∃ v, values[k.val]? = some v ∧ (m.run (Prog.parallel [parts.get k])).1 = some (.ok [v]) := by
    rcases hparts _ (List.get_mem parts k) with ⟨v, hv⟩ | ⟨options, q, hp⟩
    · have hcarries : Carries parts.length k v ((Prog.parallel parts).start [] m).1 := by
        rw [start_parallel]
        exact carries_sweep _ (fun m => by rw [hv]; rfl) m
      obtain ⟨hlen, hat⟩ := hcarries.drive _ h
      refine ⟨hlen, v, hat, ?_⟩
      rw [hv, run_parallel_value]
    · obtain ⟨place, hall⟩ := hsown.follows hpending hparts hp
      obtain ⟨past₁, hacts₁, hw₁⟩ := acts_start (Prog.parallel parts) [] hs.history
      obtain ⟨hlen, v, hat, hanswer⟩ := (hall.drive (hs.acts hacts₁) hw₁).1 values h
      have hone : ∀ p ∈ [parts.get k], OwnFork b p := fun p hp =>
        hparts p (List.mem_singleton.1 hp ▸ List.get_mem parts k)
      obtain ⟨place', halone⟩ := hsown.follows hpending hone (k := ⟨0, Nat.one_pos⟩) hp
      obtain ⟨past₂, hacts₂, hw₂⟩ := acts_start (Prog.parallel [parts.get k]) [] hs.history
      exact ⟨hlen, v, hat, (halone.drive (hs.acts hacts₂) hw₂).2 rfl v hanswer⟩
  rw [List.forall₂_iff_get]
  cases hsize : parts with
  | nil =>
    rw [hsize, run_parallel_nil] at h
    cases h
    exact ⟨rfl, fun i hi => absurd hi (Nat.not_lt_zero i)⟩
  | cons p rest =>
    rw [← hsize]
    have hpos : 0 < parts.length := by simp [hsize]
    refine ⟨(part ⟨0, hpos⟩).1.symm, fun i hi hi' => ?_⟩
    obtain ⟨-, v, hat, hrun⟩ := part ⟨i, hi⟩
    have hv : values.get ⟨i, hi'⟩ = v := (List.getElem_eq_iff hi').2 hat
    rw [hv]
    exact hrun

end Machine

end MediaQuery
