import MediaQuery.Proofs.Machine.Hosts

/-!
# A fork as a machine of its own

A fresh fork of a branch whose values have all come to an end is a machine of its own (`lone`), found below the
place of the fork (`hosts_fork`), as long as whatever runs elsewhere keeps away from branches that are yet to be made
below that branch (`Clear`).
-/

namespace MediaQuery.Machine

variable {inputs : Inputs} {past : List Event} {m : Machine} {b : Route} {n : Node} {clock : Nat}

/-- A machine with nothing but one branch that holds what the node holds. -/
def lone (inputs : Inputs) (n : Node) (clock : Nat) : Machine :=
  ⟨⟨some ⟨inputs, []⟩, n.store, n.path, [], []⟩, [], [], clock⟩

/-- What runs keeps away from branches that are yet to be made below a branch. -/
def Clear (m : Machine) (b : Route) : Prop :=
  ∀ f ∈ m.futures, ∀ run, f.state = .running run → ∀ i, m.nextChild b ≤ i →
    run.Uses (Away (b ++ [i])) f.id.home fun _ => True

/-! ## Where futures are at home -/

/-- The branch of a future is there. -/
theorem there_of_mem (h : History inputs past m) {f : Future} (hf : f ∈ m.futures) :
    (m.node? f.id.home).isSome = true := by
  obtain ⟨a, key, hspawned⟩ := spawned_of_mem h hf
  have hl := lineage_of_history h
  obtain ⟨hhome, -⟩ := hl.roster.started hspawned
  rw [hhome]
  exact (hl.values.started hspawned).there

/-- What is there is not below a branch that is not. -/
theorem away_of_there {place a : Route} (hp : m.node? place = none) (ha : (m.node? a).isSome = true) :
    Away place a := by
  rintro ⟨more, rfl⟩
  rw [node?_append_of_none hp] at ha
  cases ha

theorem Steady.away_of_mem (h : Steady inputs past m) {place : Route} (hp : m.node? place = none) {f : Future}
    (hf : f ∈ m.futures) : Away place f.id.home := away_of_there hp (there_of_mem h.history hf)

theorem Steady.away_of_ready (h : Steady inputs past m) {place : Route} (hp : m.node? place = none) {id : FutureId}
    (hid : id ∈ m.ready) : Away place id.home := by
  obtain ⟨run, hrun, -⟩ := h.live id hid
  obtain ⟨f, hf, -⟩ := Option.map_eq_some_iff.1 hrun
  obtain rfl := id_of_future? hf
  exact h.away_of_mem hp (List.mem_of_find?_eq_some hf)

/-! ## The machine of a fork -/

theorem node?_lone_cons (i : Nat) (r : Route) : (lone inputs n clock).node? (i :: r) = none := rfl

theorem inputsAt_lone (r : Route) : (lone inputs n clock).inputsAt r = inputs := by
  have hinputs : (lone inputs n clock).inputs? r = some inputs := by
    induction r using List.reverseRecOn with
    | nil => rfl
    | append_singleton r i ih =>
      have hnone : (lone inputs n clock).node? (r ++ [i]) = none := by cases r <;> rfl
      rw [inputs?_snoc, ih, hnone]
      rfl
  rw [inputsAt_eq, hinputs]
  rfl

/-- Where no branch is, what would be run there is run with what is run above. -/
theorem inputsAt_append_of_none {a : Route} {i : Nat} (h : m.node? (a ++ [i]) = none) (r : Route) :
    m.inputsAt (a ++ [i] ++ r) = m.inputsAt a := by
  have hinputs : m.inputs? (a ++ [i] ++ r) = m.inputs? a := by
    induction r using List.reverseRecOn with
    | nil =>
      rw [List.append_nil, inputs?_snoc, h]
      rfl
    | append_singleton r j ih =>
      have hnone : m.node? (a ++ [i] ++ (r ++ [j])) = none := node?_append_of_none h _
      rw [← List.append_assoc] at hnone ⊢
      rw [inputs?_snoc, ih, hnone]
      rfl
  rw [inputsAt_eq, inputsAt_eq, hinputs]

theorem pending_forkNode (h : n.store.pending = []) (options : ForkOptions) (place : Route) :
    (forkNode n options).store.shift place = (forkNode n options).store := by
  unfold forkNode
  cases options.data with
  | some values => exact Store.ofValues_shift place values
  | none => exact Store.shift_of_settled place n.store h

/-- A fresh fork is a machine of its own, where futures and guests keep away from its place. -/
theorem hosts_fork_of_away (hn : m.node? b = some n) (hpending : n.store.pending = [])
    (hfutures : ∀ f ∈ m.futures, Away (b ++ [n.degree]) f.id.home)
    (hready : ∀ id ∈ m.ready, Away (b ++ [n.degree]) id.home)
    (hguests : ∀ f ∈ m.futures, ∀ run, f.state = .running run →
      run.Uses (Away (b ++ [n.degree])) f.id.home fun _ => True) (options : ForkOptions) :
    Hosts (b ++ [n.degree]) (m.addChild b fun c => c.forkOf options).2
      (lone (m.inputsAt b) (forkNode n options) m.clock) := by
  have hnone := node?_next hn
  have hnode := node?_fork hn options
  have hself : (m.addChild b fun c => c.forkOf options).2.node? (b ++ [n.degree]) = some (forkNode n options) := by
    rw [hnode, if_neg (by simp), if_pos rfl]
  refine ⟨⟨fun r => ?_, fun r => ?_, ?_, ?_, rfl⟩, ?_, fun f hf _ run hrun => hguests f hf run hrun⟩
  · cases r with
    | nil =>
      rw [List.append_nil, hself]
      exact .some ⟨(pending_forkNode hpending options _).symm, rfl, rfl, rfl⟩
    | cons i r =>
      rw [hnode, if_neg (by simp), if_neg (by simp), node?_append_of_none hnone, node?_lone_cons]
      exact .none
  · rw [inputsAt_fork hn, inputsAt_append_of_none hnone, inputsAt_lone]
  · have hbelow : (m.futures.filter fun f => b ++ [n.degree] <+: f.id.home) = [] :=
      List.filter_eq_nil_iff.2 fun f hf => by simpa using hfutures f hf
    exact hbelow ▸ .nil
  · exact List.filter_eq_nil_iff.2 fun id hid => by simpa using hready id hid
  · rw [hself]
    rfl

/-- **A fresh fork is a machine of its own.** -/
theorem hosts_fork (hs : Steady inputs past m) (hn : m.node? b = some n) (hpending : n.store.pending = [])
    (hclear : m.Clear b) (options : ForkOptions) :
    Hosts (b ++ [n.degree]) (m.addChild b fun c => c.forkOf options).2
      (lone (m.inputsAt b) (forkNode n options) m.clock) :=
  hosts_fork_of_away hn hpending (fun _ => hs.away_of_mem (node?_next hn)) (fun _ => hs.away_of_ready (node?_next hn))
    (fun f hf run hrun => hclear f hf run hrun _ (Nat.le_of_eq (nextChild_of_node? hn))) options

end MediaQuery.Machine
