import MediaQuery.Proofs.Machine.MirrorRun

/-!
# The log of a machine inside another

The branches of a query share its log, which is kept at the query's first branch. Where a machine is found below a
place of another one, its first branch carries a session, but the place need not, and then what is entered below the
place goes to the log of the query that the place belongs to (`Linked`). So what a program enters on the machine inside,
it also enters in that log (`Echoes`, `echoes_start`, `echoes_resume`).
-/

namespace MediaQuery

namespace Branch

/-- The way to the session of a branch ends there, if it carries one, and is the way to that of its parent else. -/
theorem sessionRoute_snoc (b : Branch) (route : Route) (i : Nat) :
    b.sessionRoute (route ++ [i]) =
      if ((b.node? (route ++ [i])).bind Node.session).isSome then route ++ [i] else b.sessionRoute route := by
  induction route generalizing b with
  | nil =>
    rw [List.nil_append, sessionRoute, node?_cons]
    cases hc : b.children[i]? with
    | none => simp [sessionRoute, hc]
    | some c => cases hs : c.session <;> simp [sessionRoute, node, hc, hs]
  | cons j route ih =>
    rw [List.cons_append, sessionRoute, node?_cons, sessionRoute]
    cases b.children[j]? with
    | none => rfl
    | some c =>
      simp only [Option.bind_some, ih]
      split
      · simp
      · rfl

end Branch

namespace Machine

variable {place s a b : Route} {m m' l l' m₀ l₀ : Machine}

/-! ## Sessions -/

/-- The session that a branch carries itself. -/
def session? (m : Machine) (a : Route) : Option Session := (m.node? a).bind Node.session

/-- The log of the query that starts at a branch. -/
def logAt (m : Machine) (a : Route) : List Path := ((m.session? a).map Session.log).getD []

/-- The session of a branch is the one at the end of the way to it. -/
theorem session_eq (m : Machine) (a : Route) :
    m.session a = (m.session? (m.tree.sessionRoute a)).getD ⟨.blank, []⟩ := by
  unfold session session? branch? node? Branch.node?
  cases m.tree.at? (m.tree.sessionRoute a) <;> rfl

/-- The log of the query that a branch belongs to. -/
theorem log_session (m : Machine) (a : Route) : (m.session a).log = m.logAt (m.tree.sessionRoute a) := by
  rw [session_eq]
  unfold logAt
  cases m.session? (m.tree.sessionRoute a) <;> rfl

theorem logAt_congr (h : m'.session? a = m.session? a) : m'.logAt a = m.logAt a := by
  unfold logAt
  rw [h]

theorem session?_append_of_none (h : m.node? a = none) (more : Route) : m.session? (a ++ more) = none := by
  unfold session?
  rw [node?_append_of_none h]
  rfl

theorem isSome_node?_of_session? (h : (m.session? a).isSome = true) : (m.node? a).isSome = true := by
  unfold session? at h
  cases hn : m.node? a with
  | none => simp [hn] at h
  | some n => rfl

/-- Branches stay, and carry a session if they did. -/
def KeepsHeads (m m' : Machine) : Prop :=
  ∀ a, (m.node? a).isSome = true → (m'.node? a).isSome = true ∧ (m'.session? a).isSome = (m.session? a).isSome

theorem KeepsHeads.refl (m : Machine) : KeepsHeads m m := fun _ h => ⟨h, rfl⟩

theorem KeepsHeads.trans (h : KeepsHeads m₀ m) (h' : KeepsHeads m m') : KeepsHeads m₀ m' := fun a ha =>
  ⟨(h' a (h a ha).1).1, (h' a (h a ha).1).2.trans (h a ha).2⟩

/-- The way to the session of a branch is a matter of the sessions above it. -/
theorem sessionRoute_congr (h : ∀ p, p <+: a → (m'.session? p).isSome = (m.session? p).isSome) :
    m'.tree.sessionRoute a = m.tree.sessionRoute a := by
  induction a using List.reverseRecOn with
  | nil => rfl
  | append_singleton a i ih =>
    have hsame : ((m'.tree.node? (a ++ [i])).bind Node.session).isSome =
        ((m.tree.node? (a ++ [i])).bind Node.session).isSome := h _ List.prefix_rfl
    rw [Branch.sessionRoute_snoc, Branch.sessionRoute_snoc, hsame,
      ih fun p hp => h p (hp.trans (List.prefix_append _ _))]

/-- Where branches keep their sessions, the way to the session of a branch that is there stays as it is. -/
theorem KeepsHeads.sessionRoute (h : KeepsHeads m m') (ha : (m.node? a).isSome = true) :
    m'.tree.sessionRoute a = m.tree.sessionRoute a := by
  refine sessionRoute_congr fun p hp => ?_
  obtain ⟨more, rfl⟩ := hp
  exact (h p (Branch.isSome_node?_of_prefix ha)).2

/-! ### Changes of sessions -/

theorem session?_enter (m : Machine) (a : Route) (path : Path) (b : Route) :
    (m.enter a path).session? b =
      if b = m.tree.sessionRoute a then (m.session? b).map fun s => { s with log := s.log ++ [path] }
      else m.session? b := by
  unfold session?
  rw [node?_enter]
  split
  · cases m.node? b <;> rfl
  · rfl

theorem session?_fork {n : Node} (h : m.node? a = some n) (options : ForkOptions) (b : Route) :
    (m.addChild a fun c => c.forkOf options).2.session? b = m.session? b := by
  unfold session?
  rw [node?_fork h]
  split
  · next hb => rw [hb, h]; rfl
  · split
    · next hb => rw [hb, node?_next h]; rfl
    · rfl

theorem session?_open {n : Node} (h : m.node? a = some n) (inputs : Inputs) (b : Route) :
    (m.addChild a fun _ => .root inputs).2.session? b =
      if b = a ++ [n.degree] then some ⟨inputs, []⟩ else m.session? b := by
  unfold session?
  rw [node?_open h]
  split
  · next hb => rw [hb, if_neg (by simp), h]; rfl
  · split
    · rfl
    · rfl

theorem SameSessions.session? (h : SameSessions m m') (a : Route) : m'.session? a = m.session? a := by
  have hsame := h a
  unfold Machine.session?
  cases hm : m.node? a <;> cases hm' : m'.node? a <;> simp_all

theorem SameSessions.keepsHeads (h : SameSessions m m') : KeepsHeads m m' := by
  refine fun a ha => ⟨?_, by rw [h.session?]⟩
  have hsame := congrArg Option.isSome (h a)
  rw [Option.isSome_map, Option.isSome_map] at hsame
  rwa [hsame]

/-! ## One log for two machines -/

/-- The machine below the place enters in a log of its own what the larger one enters in that of the given branch. -/
structure Linked (place s : Route) (m l : Machine) : Prop where
  route : m.tree.sessionRoute place = s
  head : (m.session? s).isSome = true
  own : (l.session? []).isSome = true
  below : ∀ r, r ≠ [] → (m.session? (place ++ r)).isSome = (l.session? r).isSome

/-- An entry below the place goes to the log of the larger machine if it goes to that of the machine inside. -/
theorem Linked.sessionRoute (h : Linked place s m l) (r : Route) :
    m.tree.sessionRoute (place ++ r) = if l.tree.sessionRoute r = [] then s else place ++ l.tree.sessionRoute r := by
  induction r using List.reverseRecOn with
  | nil =>
    rw [List.append_nil, h.route]
    rfl
  | append_singleton r i ih =>
    have hsame : ((m.tree.node? (place ++ r ++ [i])).bind Node.session).isSome =
        ((l.tree.node? (r ++ [i])).bind Node.session).isSome := by
      rw [List.append_assoc]
      exact h.below (r ++ [i]) (by simp)
    rw [← List.append_assoc, Branch.sessionRoute_snoc, Branch.sessionRoute_snoc, hsame, ih]
    split
    · rw [if_neg (by simp), List.append_assoc]
    · rfl

/-- The session of the place is further up, or at the place. -/
theorem prefix_sessionRoute (b : Branch) (a : Route) : b.sessionRoute a <+: a := by
  induction a using List.reverseRecOn with
  | nil => exact List.prefix_rfl
  | append_singleton a i ih =>
    rw [Branch.sessionRoute_snoc]
    split
    · exact List.prefix_rfl
    · exact ih.trans (List.prefix_append _ _)

theorem Linked.ne_below (h : Linked place s m l) {r : Route} (hr : r ≠ []) : s ≠ place ++ r := by
  intro heq
  have hprefix : s <+: place := h.route ▸ prefix_sessionRoute m.tree place
  have hlength := hprefix.length_le
  rw [heq, List.length_append] at hlength
  exact hr (List.length_eq_zero_iff.1 (by omega))

/-- Links are a matter of which branches carry sessions. -/
theorem Linked.congr (h : Linked place s m l) (hplace : (m.node? place).isSome = true) (hm : KeepsHeads m m')
    (hl : KeepsHeads l l') (hbelow : ∀ r, r ≠ [] → (m'.session? (place ++ r)).isSome = (l'.session? r).isSome) :
    Linked place s m' l' :=
  ⟨(hm.sessionRoute hplace).trans h.route, (hm s (isSome_node?_of_session? h.head)).2.trans h.head,
    (hl [] (isSome_node?_of_session? h.own)).2.trans h.own, hbelow⟩

/-- Since some moment a machine and the one found below a place of it have got the same new entries of their logs, and
other logs have got none. -/
structure Echoes (place s : Route) (m₀ l₀ m l : Machine) : Prop where
  mirrors : Mirrors place m l
  linked : Linked place s m l
  heads : KeepsHeads m₀ m
  news : ∃ paths, m.logAt s = m₀.logAt s ++ paths ∧ l.logAt [] = l₀.logAt [] ++ paths
  others : ∀ a, a ≠ s → ¬ place <+: a → m.logAt a = m₀.logAt a

theorem Echoes.refl (h : Mirrors place m l) (hl : Linked place s m l) : Echoes place s m l m l :=
  ⟨h, hl, .refl m, ⟨[], (List.append_nil _).symm, (List.append_nil _).symm⟩, fun _ _ _ => rfl⟩

theorem Mirrors.there (h : Mirrors place m l) : (m.node? place).isSome = true := by
  have hroot := h.isSome_node? []
  rw [List.append_nil] at hroot
  rw [hroot]
  rfl

/-- What leaves all sessions alone. -/
theorem Echoes.quiet (h : Echoes place s m₀ l₀ m l) (hm : Mirrors place m' l') (hheads : KeepsHeads m m')
    (hheads' : KeepsHeads l l') (hs : ∀ a, m'.session? a = m.session? a) (hs' : ∀ a, l'.session? a = l.session? a) :
    Echoes place s m₀ l₀ m' l' := by
  obtain ⟨paths, hlog, hlog'⟩ := h.news
  refine ⟨hm, h.linked.congr h.mirrors.there hheads hheads' fun r hr => ?_, h.heads.trans hheads, ⟨paths, ?_, ?_⟩,
    fun a ha haway => (logAt_congr (hs a)).trans (h.others a ha haway)⟩
  · rw [hs, hs']
    exact h.linked.below r hr
  · rw [logAt_congr (hs s), hlog]
  · rw [logAt_congr (hs' []), hlog']

/-! ## Operations -/

theorem keepsHeads_enter (m : Machine) (a : Route) (path : Path) : KeepsHeads m (m.enter a path) := by
  refine fun b hb => ⟨?_, ?_⟩
  · rw [node?_enter]
    split
    · rwa [Option.isSome_map]
    · exact hb
  · rw [session?_enter]
    split
    · rw [Option.isSome_map]
    · rfl

theorem logAt_enter_self (h : (m.session? s).isSome = true) (hs : m.tree.sessionRoute a = s) (path : Path) :
    (m.enter a path).logAt s = m.logAt s ++ [path] := by
  obtain ⟨session, hsession⟩ := Option.isSome_iff_exists.1 h
  unfold logAt
  rw [session?_enter, if_pos hs.symm, hsession]
  rfl

theorem logAt_enter_of_ne (h : s ≠ m.tree.sessionRoute a) (path : Path) : (m.enter a path).logAt s = m.logAt s := by
  unfold logAt
  rw [session?_enter, if_neg h]

/-- An entry below the place. -/
theorem Echoes.enter (h : Echoes place s m₀ l₀ m l) (r : Route) (path : Path) :
    Echoes place s m₀ l₀ (m.enter (place ++ r) path) (l.enter r path) := by
  obtain ⟨paths, hlog, hlog'⟩ := h.news
  have hroute := h.linked.sessionRoute r
  refine ⟨mirrors_enter h.mirrors r path, ?_, h.heads.trans (keepsHeads_enter m _ path), ?_, fun a ha haway => ?_⟩
  · refine h.linked.congr h.mirrors.there (keepsHeads_enter m _ path) (keepsHeads_enter l r path) fun q hq => ?_
    have hbelow := h.linked.below q hq
    rw [session?_enter, session?_enter]
    split <;> split <;> simpa only [Option.isSome_map] using hbelow
  · by_cases hown : l.tree.sessionRoute r = []
    · rw [if_pos hown] at hroute
      refine ⟨paths ++ [path], ?_, ?_⟩
      · rw [logAt_enter_self h.linked.head hroute, hlog, List.append_assoc]
      · rw [logAt_enter_self h.linked.own hown, hlog', List.append_assoc]
    · rw [if_neg hown] at hroute
      refine ⟨paths, ?_, ?_⟩
      · rw [logAt_enter_of_ne (hroute ▸ h.linked.ne_below hown), hlog]
      · rw [logAt_enter_of_ne (Ne.symm hown), hlog']
  · refine (logAt_enter_of_ne (fun heq => ?_) path).trans (h.others a ha haway)
    rw [hroute] at heq
    split at heq
    · exact ha heq
    · exact haway (heq ▸ List.prefix_append _ _)

/-- A new branch leaves the others alone. -/
theorem keepsHeads_newChild {n n' child : Node} (hn : m.node? a = some n)
    (hnode : ∀ b, m'.node? b = if b = a then some n' else if b = a ++ [n.degree] then some child else m.node? b)
    (hs : ∀ b, b ≠ a ++ [n.degree] → m'.session? b = m.session? b) : KeepsHeads m m' := by
  refine fun b hb => ⟨?_, ?_⟩
  · rw [hnode]
    split
    · rfl
    · split
      · rfl
      · exact hb
  · rw [hs]
    rintro rfl
    rw [node?_next hn] at hb
    cases hb

theorem keepsHeads_fork {n : Node} (h : m.node? a = some n) (options : ForkOptions) :
    KeepsHeads m (m.addChild a fun c => c.forkOf options).2 :=
  keepsHeads_newChild h (node?_fork h options) fun b _ => session?_fork h options b

theorem keepsHeads_open {n : Node} (h : m.node? a = some n) (inputs : Inputs) :
    KeepsHeads m (m.addChild a fun _ => .root inputs).2 :=
  keepsHeads_newChild h (node?_open h inputs) fun b hb => by rw [session?_open h, if_neg hb]

/-- A fork below the place. -/
theorem Echoes.fork (h : Echoes place s m₀ l₀ m l) (r : Route) (options : ForkOptions) :
    Echoes place s m₀ l₀ (m.addChild (place ++ r) fun c => c.forkOf options).2
      (l.addChild r fun c => c.forkOf options).2 := by
  obtain ⟨-, hmirrors⟩ := mirrors_fork h.mirrors r options
  rcases rel_cases (h.mirrors.node r) with ⟨hm, hl⟩ | ⟨n, n', hm, hl, -⟩
  · rw [addChild_of_none hm, addChild_of_none hl]
    exact h
  · exact h.quiet hmirrors (keepsHeads_fork hm options) (keepsHeads_fork hl options) (session?_fork hm options)
      (session?_fork hl options)

/-- A nested query below the place has a log of its own. -/
theorem Echoes.openSession (h : Echoes place s m₀ l₀ m l) (r : Route) (inputs : Inputs) :
    Echoes place s m₀ l₀ (m.addChild (place ++ r) fun _ => .root inputs).2
      (l.addChild r fun _ => .root inputs).2 := by
  obtain ⟨-, hmirrors⟩ := mirrors_open h.mirrors r inputs
  rcases rel_cases (h.mirrors.node r) with ⟨hm, hl⟩ | ⟨n, n', hm, hl, hn⟩
  · rw [addChild_of_none hm, addChild_of_none hl]
    exact h
  · obtain ⟨paths, hlog, hlog'⟩ := h.news
    have hopen := session?_open hm inputs
    have hopen' := session?_open hl inputs
    refine ⟨hmirrors, ?_, h.heads.trans (keepsHeads_open hm inputs), ⟨paths, ?_, ?_⟩, fun a ha haway => ?_⟩
    · refine h.linked.congr h.mirrors.there (keepsHeads_open hm inputs) (keepsHeads_open hl inputs) fun q hq => ?_
      rw [hopen, hopen', hn.degree, List.append_assoc]
      simp only [List.append_cancel_left_eq]
      split
      · rfl
      · exact h.linked.below q hq
    · have hne : s ≠ place ++ r ++ [n.degree] := by
        rw [List.append_assoc]
        exact h.linked.ne_below (by simp)
      exact (logAt_congr ((hopen s).trans (if_neg hne))).trans hlog
    · exact (logAt_congr ((hopen' []).trans (if_neg (by simp)))).trans hlog'
    · have hne : a ≠ place ++ r ++ [n.degree] := by
        rintro rfl
        rw [List.append_assoc] at haway
        exact haway (List.prefix_append _ _)
      exact (logAt_congr ((hopen a).trans (if_neg hne))).trans (h.others a ha haway)

/-- **What is done below the place and on the machine found there gives both the same entries.** -/
theorem carried_echoes (place s : Route) (m₀ l₀ : Machine) : Carried place (Echoes place s m₀ l₀) where
  mirrors h := h.mirrors
  quiet h hm hs hs' := h.quiet hm hs.keepsHeads hs'.keepsHeads hs.session? hs'.session?
  perform {m l} h α op hop base := by
    have hmirrors := (mirrors_perform h.mirrors hop base).2
    cases op with
    | log branch => cases hop
    | set branch key value =>
      have hs := sameSessions_modifyStore m (place ++ base ++ branch) fun s => s.write key (.ready value)
      have hs' := sameSessions_modifyStore l (base ++ branch) fun s => s.write key (.ready value)
      exact h.quiet hmirrors hs.keepsHeads hs'.keepsHeads hs.session? hs'.session?
    | record branch result =>
      have hs := sameSessions_record m (place ++ base ++ branch) result
      have hs' := sameSessions_record l (base ++ branch) result
      exact h.quiet hmirrors hs.keepsHeads hs'.keepsHeads hs.session? hs'.session?
    | fork branch options =>
      simp only [Machine.perform, List.append_assoc]
      exact h.fork _ options
    | enter branch path =>
      simp only [Machine.perform, List.append_assoc]
      exact h.enter _ path
    | openSession branch inputs =>
      simp only [Machine.perform, List.append_assoc]
      exact h.openSession _ inputs
    | _ => exact h

/-! ## Programs -/

variable {α : Type} {R : α → α → Prop} {route base base' : Route}

theorem echoes_start {p q : Prog α} (hp : Prog.Alike route R p q) (h : Mirrors place m l) (hl : Linked place s m l)
    (hb : base ++ route = place ++ base') : Echoes place s m l (p.start base m).2 (q.start base' l).2 :=
  (carried_start (carried_echoes place s m l) hp (.refl h hl) hb).2

theorem echoes_resume {run run' : Run α} (hr : run.Alike place route R run') (h : Mirrors place m l)
    (hl : Linked place s m l) (hb : base ++ route = place ++ base') :
    Echoes place s m l (run.resume base m).2 (run'.resume base' l).2 :=
  (carried_resume (carried_echoes place s m l) hr (.refl h hl) hb).2

end Machine

end MediaQuery
