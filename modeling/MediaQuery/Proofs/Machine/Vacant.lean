import MediaQuery.Proofs.Machine.Lone
import MediaQuery.Proofs.Machine.Rest

/-!
# Vacant machines

A machine is vacant if nothing runs on it (`Vacant`): so is a machine at rest, whatever has happened to it
(`vacant_of_steady`). A fresh fork on a vacant machine is a machine of its own, which shares the log of its query with
the other (`Vacant.hosts_fork`, `Vacant.linked_fork`). What runs on forks of a branch leaves all else as it was
(`Spared`).
-/

namespace MediaQuery.Machine

variable {inputs : Inputs} {past : List Event} {m m' m₀ : Machine} {a b s place : Route} {n : Node} {k k' : Nat}

/-! ## Sessions -/

theorem sameSessions_complete (m : Machine) (f : Future) (result : Except EvalError Value) :
    SameSessions m (m.complete f result) := by
  unfold complete
  split
  · exact .refl m
  · split
    · next store _ => exact (sameSessions_modifyStore m f.id.home fun _ => store).trans fun _ => rfl
    · exact .refl m

/-- Whatever happens, branches stay and keep their sessions. -/
theorem keepsHeads_step {e : Event} (h : m.Step past e m') : KeepsHeads m m' := by
  cases h with
  | set key value ha => exact (sameSessions_modifyStore m _ _).keepsHeads
  | spawn key p ha => exact (sameSessions_spawn m _ key p).keepsHeads
  | fork options ha => exact keepsHeads_fork ha options
  | openSession inputs ha => exact keepsHeads_open ha inputs
  | finish result hf hr => exact (sameSessions_complete m _ result).keepsHeads
  | meet h => exact .refl m
  | settle h hr => exact (sameSessions_modifyStore m _ _).keepsHeads
  | record a result => exact (sameSessions_record m a result).keepsHeads
  | enter a path => exact keepsHeads_enter m a path
  | await a => exact .refl m
  | work state hf hr hs => exact .refl m
  | queue ready => exact .refl m
  | tick clock => exact .refl m

/-- The first branch carries a session. -/
theorem isSome_session?_root (h : History inputs past m) : (m.session? []).isSome = true := by
  induction h with
  | start => rfl
  | step _ hs ih => rw [(keepsHeads_step hs [] (isSome_node?_of_session? ih)).2, ih]

/-! ## Vacancy -/

/-- A machine on which nothing runs: all futures have ended, on branches that are there. The first branch carries a
session. -/
structure Vacant (m : Machine) : Prop where
  rest : m.Resting
  homes : ∀ f ∈ m.futures, (m.node? f.id.home).isSome = true
  root : (m.session? []).isSome = true

/-- A machine at rest is vacant. -/
theorem vacant_of_steady (h : Steady inputs past m) (hr : m.Resting) : m.Vacant :=
  ⟨hr, fun _ hf => there_of_mem h.history hf, isSome_session?_root h.history⟩

theorem vacant_lone (inputs : Inputs) (n : Node) (clock : Nat) : (lone inputs n clock).Vacant :=
  ⟨⟨nofun, rfl⟩, nofun, rfl⟩

theorem Vacant.rested (h : m.Vacant) (hr : Rested m m') : m'.Vacant := by
  refine ⟨hr.rest, fun f hf => ?_, ?_⟩
  · have hid : f.id ∈ m.futures.map Future.id := hr.ids ▸ List.mem_map_of_mem hf
    obtain ⟨g, hg, hgid⟩ := List.mem_map.1 hid
    exact hgid ▸ (hr.heads _ (h.homes g hg)).1
  · rw [(hr.heads [] (isSome_node?_of_session? h.root)).2, h.root]

/-- The query of a branch has its session. -/
theorem Vacant.head (h : m.Vacant) (a : Route) : (m.session? (m.tree.sessionRoute a)).isSome = true := by
  induction a using List.reverseRecOn with
  | nil => exact h.root
  | append_singleton a i ih =>
    rw [Branch.sessionRoute_snoc]
    split
    · next hs => exact hs
    · exact ih

/-! ## Fresh forks -/

/-- A fresh fork is a machine of its own. -/
theorem Vacant.hosts_fork (h : m.Vacant) (hn : m.node? b = some n) (hpending : n.store.pending = [])
    (options : ForkOptions) :
    Hosts (b ++ [n.degree]) (m.addChild b fun c => c.forkOf options).2
      (lone (m.inputsAt b) (forkNode n options) m.clock) := by
  refine hosts_fork_of_away hn hpending (fun f hf => away_of_there (node?_next hn) (h.homes f hf)) ?_ ?_ options
  · rw [h.rest.idle]
    exact nofun
  · intro f hf run hrun
    have hover := h.rest.ended f hf
    unfold Future.report? at hover
    rw [hrun] at hover
    cases hover

/-- What is entered there goes to the log of the query that the branch belongs to. -/
theorem Vacant.linked_fork (h : m.Vacant) (hn : m.node? b = some n) (options : ForkOptions) (clock : Nat) :
    Linked (b ++ [n.degree]) (m.tree.sessionRoute b) (m.addChild b fun c => c.forkOf options).2
      (lone inputs (forkNode n options) clock) := by
  have hsession := session?_fork hn options
  have hheads := keepsHeads_fork hn options
  have hthere : (m.node? b).isSome = true := hn ▸ rfl
  refine ⟨?_, ?_, rfl, fun r hr => ?_⟩
  · have hnew : (m.addChild b fun c => c.forkOf options).2.session? (b ++ [n.degree]) = none := by
      rw [hsession]
      unfold session?
      rw [node?_next hn]
      rfl
    rw [Branch.sessionRoute_snoc, if_neg, hheads.sessionRoute hthere]
    have hnone : (((m.addChild b fun c => c.forkOf options).2.tree.node? (b ++ [n.degree])).bind Node.session) = none :=
      hnew
    rw [hnone]
    exact nofun
  · rw [hsession]
    exact h.head b
  · rw [hsession, session?_append_of_none (node?_next hn)]
    cases r with
    | nil => exact absurd rfl hr
    | cons i r => rfl

/-! ## What is spared -/

/-- All but the new forks of a branch is as it was: other branches, what the branch itself holds, futures, and other
logs than that of one query. -/
structure Spared (b s : Route) (k : Nat) (m m' : Machine) : Prop where
  node : ∀ a, a ≠ b → (m.node? a).isSome = true → (m'.node? a).map Node.bare = (m.node? a).map Node.bare
  trunk : ∀ n, m.node? b = some n → ∃ n', m'.node? b = some n' ∧ n'.bare = { n with degree := n.degree + k }.bare
  inputs : ∀ a, (m.node? a).isSome = true → m'.inputsAt a = m.inputsAt a
  futures : m'.futures = m.futures
  heads : KeepsHeads m m'
  logs : ∀ a, a ≠ s → (m.node? a).isSome = true → m'.logAt a = m.logAt a

theorem Spared.refl (b s : Route) (m : Machine) : Spared b s 0 m m :=
  ⟨fun _ _ _ => rfl, fun n hn => ⟨n, hn, rfl⟩, fun _ _ => rfl, rfl, .refl m, fun _ _ _ => rfl⟩

theorem Spared.trans (h : Spared b s k m₀ m) (h' : Spared b s k' m m') : Spared b s (k + k') m₀ m' := by
  refine ⟨fun a hab ha => ?_, fun n hn => ?_, fun a ha => ?_, h'.futures.trans h.futures, h.heads.trans h'.heads,
    fun a has ha => ?_⟩
  · exact (h'.node a hab (h.heads a ha).1).trans (h.node a hab ha)
  · obtain ⟨n₁, hn₁, hbare⟩ := h.trunk n hn
    obtain ⟨n₂, hn₂, hbare'⟩ := h'.trunk n₁ hn₁
    obtain ⟨hstore, hpath, hresults, hdegree⟩ := Node.same_of_bare hbare
    refine ⟨n₂, hn₂, hbare'.trans ?_⟩
    unfold Node.bare
    dsimp only at hstore hpath hresults hdegree ⊢
    rw [hstore, hpath, hresults, hdegree, Nat.add_assoc]
  · exact (h'.inputs a (h.heads a ha).1).trans (h.inputs a ha)
  · exact (h'.logs a has (h.heads a ha).1).trans (h.logs a has ha)

/-- What the branch holds. -/
theorem Spared.trunk_eq (h : Spared b s k m m') (hn : m.node? b = some n) :
    ∃ n', m'.node? b = some n' ∧ n'.store = n.store ∧ n'.path = n.path ∧ n'.results = n.results ∧
      n'.degree = n.degree + k := by
  obtain ⟨n', hn', hbare⟩ := h.trunk n hn
  exact ⟨n', hn', Node.same_of_bare hbare⟩

theorem Spared.sessionRoute (h : Spared b s k m m') (ha : (m.node? a).isSome = true) :
    m'.tree.sessionRoute a = m.tree.sessionRoute a := h.heads.sessionRoute ha

/-- What is done below a branch that was not there. -/
theorem Spared.below (h : Spared b s k m₀ m) (hm : m₀.Vacant) (hplace : m₀.node? place = none)
    (hb : (m₀.node? b).isSome = true) (hc : Confined (place <+: ·) m m') (hr : Rested m m')
    (hlogs : ∀ a, a ≠ s → Away place a → m'.logAt a = m.logAt a) : Spared b s k m₀ m' := by
  have haway {a : Route} (ha : (m₀.node? a).isSome = true) : Away place a := away_of_there hplace ha
  refine ⟨fun a hab ha => (hc.node a (haway ha)).trans (h.node a hab ha), fun n hn => ?_, fun a ha => ?_, ?_,
    h.heads.trans hr.heads, fun a has ha => (hlogs a has (haway ha)).trans (h.logs a has ha)⟩
  · obtain ⟨n₁, hn₁, hbare⟩ := h.trunk n hn
    have hnode := hc.node b (haway hb)
    rw [hn₁, Option.map_some, Option.map_eq_some_iff] at hnode
    obtain ⟨n₂, hn₂, hbare'⟩ := hnode
    exact ⟨n₂, hn₂, hbare'.trans hbare⟩
  · refine (hc.inputs a fun x hx _ => ?_).trans (h.inputs a ha)
    obtain ⟨more, rfl⟩ := hx
    exact (h.heads x (Branch.isSome_node?_of_prefix ha)).1
  · have hfilter := hc.futures (fun x => decide (Away place x)) fun x hx => decide_eq_false (not_not_intro hx)
    have hall : (m.futures.filter fun f => decide (Away place f.id.home)) = m.futures :=
      List.filter_eq_self.2 fun f hf => decide_eq_true (haway (hm.homes f (h.futures ▸ hf)))
    have hall' : (m'.futures.filter fun f => decide (Away place f.id.home)) = m'.futures := by
      refine List.filter_eq_self.2 fun f hf => decide_eq_true ?_
      have hid : f.id ∈ m.futures.map Future.id := hr.ids ▸ List.mem_map_of_mem hf
      obtain ⟨g, hg, hgid⟩ := List.mem_map.1 hid
      exact hgid ▸ haway (hm.homes g (h.futures ▸ hg))
    rw [← hall', hfilter, hall, h.futures]

/-- An entry of the log. -/
theorem spared_enter (m : Machine) (b : Route) (path : Path) :
    Spared b (m.tree.sessionRoute b) 0 m (m.enter b path) := by
  have hnode (a : Route) : ((m.enter b path).node? a).map Node.bare = (m.node? a).map Node.bare := by
    rw [node?_enter]
    split
    · rw [Option.map_map]
      rfl
    · rfl
  refine ⟨fun a _ _ => hnode a, fun n hn => ?_, fun a _ => inputsAt_enter m b a path, rfl, keepsHeads_enter m b path,
    fun a has _ => logAt_enter_of_ne has path⟩
  have hsame := hnode b
  rw [hn, Option.map_some, Option.map_eq_some_iff] at hsame
  obtain ⟨n', hn', hbare⟩ := hsame
  exact ⟨n', hn', hbare⟩

/-- A new child of the branch. -/
theorem spared_newChild {child : Node} (hn : m.node? b = some n)
    (hnode : ∀ c, m'.node? c = if c = b then some { n with degree := n.degree + 1 }
      else if c = b ++ [n.degree] then some child else m.node? c)
    (hsession : ∀ c, c ≠ b ++ [n.degree] → m'.session? c = m.session? c)
    (hinputs : ∀ a, (m.node? a).isSome = true → m'.inputsAt a = m.inputsAt a) (hf : m'.futures = m.futures)
    (s : Route) : Spared b s 1 m m' := by
  have hne {a : Route} (ha : (m.node? a).isSome = true) : a ≠ b ++ [n.degree] := by
    rintro rfl
    rw [node?_next hn] at ha
    cases ha
  refine ⟨fun a hab ha => ?_, fun n' hn' => ?_, hinputs, hf, keepsHeads_newChild hn hnode hsession,
    fun a _ ha => logAt_congr (hsession a (hne ha))⟩
  · rw [hnode, if_neg hab, if_neg (hne ha)]
  · cases hn.symm.trans hn'
    exact ⟨_, (hnode b).trans (if_pos rfl), rfl⟩

/-- A fork of the branch. -/
theorem spared_fork (hn : m.node? b = some n) (options : ForkOptions) (s : Route) :
    Spared b s 1 m (m.addChild b fun c => c.forkOf options).2 :=
  spared_newChild hn (node?_fork hn options) (fun c _ => session?_fork hn options c)
    (fun a _ => inputsAt_fork hn options a) rfl s

/-- A query that is started below the branch. -/
theorem spared_open (hn : m.node? b = some n) (inputs : Inputs) (s : Route) :
    Spared b s 1 m (m.addChild b fun _ => .root inputs).2 := by
  refine spared_newChild hn (node?_open hn inputs) (fun c hc => ?_) (fun a ha => ?_) rfl s
  · rw [session?_open hn, if_neg hc]
  · rw [inputsAt_open hn, if_neg (away_of_there (node?_next hn) ha)]

end MediaQuery.Machine
