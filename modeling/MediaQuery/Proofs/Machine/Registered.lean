import MediaQuery.Proofs.Machine.Descent
import MediaQuery.Proofs.Machine.Visited
import MediaQuery.Proofs.Program.Registers

/-!
# What is entered is forked for

Where programs register what they enter, every path that is new in the log of a branch is the path of a descendant
(`Registered`), without the step of a chain. That is so when such a program starts (`Prog.Registers.start`), when it is
taken on (`Run.Registers.resume`), in the midst of whatever others do (`registered_of_advances`, `registers_of_amid`),
and, if nothing else runs that could enter anything (`Enrolled`), in whole runs (`registered_run`), no matter what they
come to.
-/

namespace MediaQuery

namespace Machine

variable {free : Path → Prop} {a base branch : Route} {m m' m'' : Machine} {H : Route → Prop} {α β : Type}
  {Q : Set Route → α → Prop}

/-! ## Branches that are known -/

/-- The branches below a place that are there, as a program with the base names them. -/
def known (m : Machine) (a base : Route) : Set Route := {b | a <+: base ++ b ∧ m.Hosted (base ++ b)}

theorem Evolves.known (h : Evolves m m') (a base : Route) : m.known a base ⊆ m'.known a base :=
  fun _ hb => ⟨hb.1, hb.2.evolves h⟩

theorem lowered_known (m : Machine) (a base branch : Route) :
    lowered branch (m.known a base) = m.known a (base ++ branch) := by
  ext b
  simp only [lowered, known, Set.mem_preimage, Set.mem_ofPred_eq, List.append_assoc]

theorem there_of_known (hb : branch ∈ m.known a base) : (m.node? a).isSome = true := by
  obtain ⟨⟨more, hmore⟩, hhosted⟩ := hb
  have hthere := hhosted.there
  rw [← hmore] at hthere
  exact Branch.isSome_node?_of_prefix hthere

/-- The first branch of a nested query. -/
theorem Hosted.open (h : m.Hosted a) (inputs : Inputs) :
    (m.addChild a fun _ => .root inputs).2.Hosted (a ++ [(m.addChild a fun _ => .root inputs).1]) := by
  obtain ⟨n, hn⟩ := Option.isSome_iff_exists.1 h.there
  rw [addChild_position hn]
  have hsession : ((m.addChild a fun _ => .root inputs).2.session? (a ++ [n.degree])).isSome = true := by
    rw [session?_open hn, if_pos rfl]
    rfl
  refine ⟨isSome_node?_of_session? hsession, ?_⟩
  rw [sessionRoute_self hsession]
  exact hsession

/-- What an operation has made is known then. -/
theorem known_perform (op : Op α) (hb : op.branch ∈ m.known a base) :
    op.known (m.known a base) (m.perform base op).1 ⊆ (m.perform base op).2.known a base := by
  have hold := (evolves_perform m base op).known a base
  obtain ⟨hbelow, hhosted⟩ := hb
  cases op with
  | fork branch options =>
    refine Set.insert_subset ⟨?_, ?_⟩ hold
    · rw [← List.append_assoc]
      exact hbelow.trans (List.prefix_append _ _)
    · rw [← List.append_assoc]
      exact (hhosted.fork options).1.right
  | openSession branch inputs =>
    refine Set.insert_subset ⟨?_, ?_⟩ hold
    · rw [← List.append_assoc]
      exact hbelow.trans (List.prefix_append _ _)
    · rw [← List.append_assoc]
      exact hhosted.open inputs
  | _ => exact hold

/-! ## What becomes of the log -/

/-- A future that is at home at one of the places told is below the branch, and registers what it enters. -/
def Enrolled (free : Path → Prop) (H : Route → Prop) (a : Route) (m : Machine) : Prop :=
  ∀ f ∈ m.futures, H f.id.home → ∀ run, f.state = .running run →
    a <+: f.id.home ∧ run.Registers free (m.known a f.id.home) fun _ _ => True

/-- The paths that are new in the log of a branch are paths of its descendants, and what still runs registers what it
enters, if that has been so. -/
structure Registered (free : Path → Prop) (a : Route) (m m' : Machine) : Prop where
  evolves : Evolves m m'
  entered : ∃ paths, (m'.session a).log = (m.session a).log ++ paths ∧
    ∀ path ∈ paths, free path ∨ ∃ d ∈ m'.descendants a, m'.path d = path.join []
  enrolled : ∀ H, m.Enrolled free H a → m'.Enrolled free H a

/-- What is shown by a descendant is shown by it from then on. -/
theorem Evolves.shows (h : Evolves m m') {path : Path} (hd : ∃ d ∈ m.descendants a, m.path d = path) :
    ∃ d ∈ m'.descendants a, m'.path d = path := by
  obtain ⟨d, hd, hpath⟩ := hd
  have hthere := isSome_node?_of_mem_descendants hd
  have ha : (m.node? a).isSome = true := by
    obtain ⟨_, _, rfl⟩ := exists_of_mem_descendants hd
    exact Branch.isSome_node?_of_prefix hthere
  exact ⟨d, (h.descendants ha).subset hd, (h.path hthere).trans hpath⟩

theorem Registered.trans (h : Registered free a m m') (h' : Registered free a m' m'') : Registered free a m m'' := by
  obtain ⟨paths, hlog, hpaths⟩ := h.entered
  obtain ⟨paths', hlog', hpaths'⟩ := h'.entered
  refine ⟨h.evolves.trans h'.evolves, ⟨paths ++ paths', ?_, fun path hpath => ?_⟩,
    fun H hm => h'.enrolled H (h.enrolled H hm)⟩
  · rw [hlog', hlog, List.append_assoc]
  · rcases List.mem_append.1 hpath with hpath | hpath
    · exact (hpaths path hpath).imp_right h'.evolves.shows
    · exact hpaths' path hpath

/-- What still runs has been running, or registers what it enters. -/
def Continues (free : Path → Prop) (a : Route) (m m' : Machine) : Prop :=
  ∀ f ∈ m'.futures, ∀ run, f.state = .running run → (∃ g ∈ m.futures, g.id = f.id ∧ g.state = .running run) ∨
    a <+: f.id.home ∧ run.Registers free (m'.known a f.id.home) fun _ _ => True

theorem continues_of_futures (h : m'.futures = m.futures) : Continues free a m m' :=
  fun f hf _ hrun => .inl ⟨f, h ▸ hf, rfl, hrun⟩

theorem enrolled_of_continues (he : Evolves m m') (hf : Continues free a m m') (H : Route → Prop)
    (hm : m.Enrolled free H a) :
    m'.Enrolled free H a := by
  intro f hmem hH run hrun
  rcases hf f hmem run hrun with ⟨g, hg, hid, hgs⟩ | hnew
  · rw [← hid] at hH ⊢
    obtain ⟨hbelow, hregisters⟩ := hm g hg hH run hgs
    exact ⟨hbelow, hregisters.mono (he.known a _)⟩
  · exact hnew

/-- Nothing is entered. -/
theorem registered_of_log (he : Evolves m m') (hlog : (m'.session a).log = (m.session a).log) (hf : Continues free a m m') :
    Registered free a m m' :=
  ⟨he, ⟨[], by rw [hlog, List.append_nil], nofun⟩, enrolled_of_continues he hf⟩

theorem Registered.refl (free : Path → Prop) (a : Route) (m : Machine) : Registered free a m m :=
  registered_of_log (.refl m) rfl (continues_of_futures rfl)

/-- Queue and clock are no matter. -/
theorem registered_of_eq (ht : m'.tree = m.tree) (hf : m'.futures = m.futures) : Registered free a m m' := by
  obtain ⟨_, _, _, _⟩ := m
  obtain ⟨_, _, _, _⟩ := m'
  cases ht
  exact registered_of_log (.refl _) rfl (continues_of_futures hf)

/-- The session is the same where all sessions are. -/
theorem SameSessions.session (h : SameSessions m m') (a : Route) : m'.session a = m.session a := by
  have hroute : m'.tree.sessionRoute a = m.tree.sessionRoute a := sessionRoute_congr fun p _ => by rw [h.session?]
  rw [session_eq, session_eq, hroute, h.session?]

theorem registered_modifyStore (m : Machine) (b : Route) (f : Store → Store) : Registered free a m (m.modifyStore b f) :=
  registered_of_log (evolves_modifyStore m b f) (congrArg Session.log ((sameSessions_modifyStore m b f).session a))
    (continues_of_futures rfl)

theorem registered_markAwaited (m : Machine) (b : Route) : Registered free a m (m.markAwaited b) := by
  refine registered_of_log (.refl m) rfl fun f hf run hrun => ?_
  obtain ⟨g, hg, rfl⟩ := List.mem_map.1 hf
  refine .inl ⟨g, hg, ?_⟩
  split at hrun
  · next hhome =>
    rw [if_pos hhome]
    exact ⟨rfl, hrun⟩
  · next hhome =>
    rw [if_neg hhome]
    exact ⟨rfl, hrun⟩

theorem endured_registered (free : Path → Prop) (a b : Route) : Endured b (Registered free a) where
  refl := .refl free a
  trans := .trans
  modifyStore m := registered_modifyStore m b
  markAwaited m := registered_markAwaited m b

/-- The branch that a program is spawned on. -/
theorem registered_spawn (key : String) {future : Prog (Except EvalError Value)} (hb : branch ∈ m.known a base)
    (hfuture : future.Registers free (lowered branch (m.known a base)) fun _ _ => True) :
    Registered free a m (m.spawn (base ++ branch) key future) := by
  have hevolves := evolves_spawn m (base ++ branch) key future
  refine registered_of_log hevolves
    (congrArg Session.log ((sameSessions_spawn m (base ++ branch) key future).session a)) fun f hf run hrun => ?_
  have hnew : a <+: base ++ branch ∧ (Run.asleep m.clock future).Registers free
      ((m.spawn (base ++ branch) key future).known a (base ++ branch)) fun _ _ => True := by
    refine ⟨hb.1, .asleep (hfuture.mono ?_)⟩
    rw [lowered_known]
    exact hevolves.known a _
  unfold spawn at hf hnew ⊢
  split at hf
  · next hthere =>
    rw [if_pos hthere] at hnew ⊢
    rcases List.mem_append.1 hf with hf | hf
    · exact .inl ⟨f, hf, rfl, hrun⟩
    · cases List.mem_singleton.1 hf
      cases hrun
      exact .inr hnew
  · exact .inl ⟨f, hf, rfl, hrun⟩

theorem registered_setFuture (m : Machine) {id : FutureId} {state : FutureState}
    (hs : ∀ run, state = .running run → a <+: id.home ∧ run.Registers free (m.known a id.home) fun _ _ => True) :
    Registered free a m (m.setFuture id state) := by
  refine registered_of_log (.refl m) rfl fun f hf run hrun => ?_
  rcases mem_setState hf with hf | ⟨rfl, hstate⟩
  · exact .inl ⟨f, hf, rfl, hrun⟩
  · have hsame : Evolves m (m.setFuture f.id state) := .refl m
    obtain ⟨hbelow, hregisters⟩ := hs run (hstate.symm.trans hrun)
    exact .inr ⟨hbelow, hregisters.mono (hsame.known a _)⟩

/-- A new branch leaves the log as it is. -/
theorem log_newChild {m' : Machine} (he : Evolves m m') (ha : (m.node? a).isSome = true)
    (hs : ∀ b, (m.node? b).isSome = true → m'.session? b = m.session? b) :
    (m'.session a).log = (m.session a).log := by
  rw [log_session, log_session, he.sessionRoute ha]
  obtain ⟨more, hmore⟩ := prefix_sessionRoute m.tree a
  refine logAt_congr (hs _ ?_)
  rw [← hmore] at ha
  exact Branch.isSome_node?_of_prefix ha

theorem log_fork (ha : (m.node? a).isSome = true) (b : Route) (options : ForkOptions) :
    ((m.addChild b fun c => c.forkOf options).2.session a).log = (m.session a).log := by
  cases hn : m.node? b with
  | none => rw [addChild_of_none hn]
  | some n => exact log_newChild (evolves_of_child hn (node?_fork hn options)) ha fun c _ => session?_fork hn options c

theorem log_open (ha : (m.node? a).isSome = true) (b : Route) (inputs : Inputs) :
    ((m.addChild b fun _ => .root inputs).2.session a).log = (m.session a).log := by
  cases hn : m.node? b with
  | none => rw [addChild_of_none hn]
  | some n =>
    refine log_newChild (evolves_of_child hn (node?_open hn inputs)) ha fun c hc => ?_
    rw [session?_open hn, if_neg]
    rintro rfl
    rw [node?_next hn] at hc
    cases hc

/-- An operation that enters nothing. -/
theorem registered_perform {op : Op α} (hop : ¬ op.Enters) (ha : (m.node? a).isSome = true) :
    Registered free a m (m.perform base op).2 := by
  cases op with
  | set branch key value => exact registered_modifyStore m (base ++ branch) (·.write key (.ready value))
  | record branch result =>
    exact registered_of_log (evolves_perform m base (.record branch result))
      (congrArg Session.log ((sameSessions_record m _ result).session a)) (continues_of_futures rfl)
  | enter branch path => exact absurd trivial hop
  | fork branch options =>
    exact registered_of_log (evolves_perform m base (.fork branch options)) (log_fork ha _ options)
      (continues_of_futures rfl)
  | openSession branch inputs =>
    exact registered_of_log (evolves_perform m base (.openSession branch inputs)) (log_open ha _ inputs)
      (continues_of_futures rfl)
  | _ => exact .refl free a m

/-- An entry is in the log of all branches of the query. -/
theorem log_enter {b : Route} (ha : (m.node? a).isSome = true) (hhosted : m.Hosted b) (path : Path) :
    ((m.enter b path).session a).log =
      (m.session a).log ++ if m.tree.sessionRoute b = m.tree.sessionRoute a then [path] else [] := by
  rw [log_session, log_session, (evolves_enter m b path).sessionRoute ha]
  split
  · next hsame => exact logAt_enter_self (hsame ▸ hhosted.headed) hsame path
  · next hsame => rw [logAt_enter_of_ne (Ne.symm hsame), List.append_nil]

/-- A free path is entered. -/
theorem registered_note {path : Path} (hb : branch ∈ m.known a base) (hfree : free path) :
    Registered free a m (m.enter (base ++ branch) path) := by
  refine ⟨evolves_enter m _ path, ⟨_, log_enter (there_of_known hb) hb.2 path, fun entry hentry => .inl ?_⟩,
    enrolled_of_continues (evolves_enter m _ path) (continues_of_futures rfl)⟩
  split at hentry
  · cases List.mem_singleton.1 hentry
    exact hfree
  · cases hentry

/-- **A path is entered, and a fork is made there.** It is a descendant of every branch of the query above it, and has
the path without the step of a chain. -/
theorem registered_enter {b : Route} (hb : a <+: b) (hhosted : m.Hosted b) (path : Path) :
    Registered free a m ((m.enter b path).addChild b fun c => c.forkOf (.place path)).2 := by
  obtain ⟨more, rfl⟩ := hb
  have ha : (m.node? a).isSome = true := Branch.isSome_node?_of_prefix hhosted.there
  have henter := evolves_enter m (a ++ more) path
  have hfork : Evolves (m.enter (a ++ more) path)
      ((m.enter (a ++ more) path).addChild (a ++ more) fun c => c.forkOf (.place path)).2 := by
    simpa [perform] using evolves_perform (m.enter (a ++ more) path) (a ++ more) (.fork [] (.place path))
  have hevolves := henter.trans hfork
  have hlog := (log_fork (henter.isSome ha) (a ++ more) (.place path)).trans (log_enter ha hhosted path)
  obtain ⟨hkin, hpath⟩ := (hhosted.evolves henter).fork (.place path)
  have hfutures : ((m.enter (a ++ more) path).addChild (a ++ more) fun c => c.forkOf (.place path)).2.futures =
    m.futures := rfl
  generalize (m.enter (a ++ more) path).addChild (a ++ more) (fun c => c.forkOf (.place path)) = made at *
  refine ⟨hevolves, ⟨_, hlog, fun entry hentry => ?_⟩, enrolled_of_continues hevolves (continues_of_futures hfutures)⟩
  split at hentry
  · next hsame =>
    cases List.mem_singleton.1 hentry
    have hroute : made.2.tree.sessionRoute (a ++ more ++ [made.1]) = made.2.tree.sessionRoute a := by
      rw [hkin.route, hevolves.sessionRoute hhosted.there, hevolves.sessionRoute ha, hsame]
    have hthere := hkin.right.there
    refine .inr ⟨a ++ more ++ [made.1], ?_, hpath⟩
    rw [List.append_assoc] at hroute hthere ⊢
    exact mem_descendants_of_sessionRoute (by simp) hthere hroute
  · cases hentry

/-! ## Programs -/

/-- What a program leaves that registers what it enters. -/
abbrev RegisteredRun (free : Path → Prop) (a base : Route) {α : Type} (Q : Set Route → α → Prop) (m : Machine)
    (r : Run α × Machine) : Prop := Registered free a m r.2 ∧ r.1.Registers free (r.2.known a base) Q

theorem RegisteredRun.after {r : Run α × Machine} (hr : RegisteredRun free a base Q m' r) (h : Registered free a m m') :
    RegisteredRun free a base Q m r := ⟨h.trans hr.1, hr.2⟩

section Sweep

variable {K : Set Route} {n : Nat} {S : Set Route → Except ExecutionError β → Prop}
  {advance : Fin n → Machine → Run (Except ExecutionError β) × Machine}

theorem registers_done {Q : Set Route → α → Prop} {v : α} (h : (Run.done v).Registers free K Q) : Q K v := by
  cases h with
  | done h => exact h K subset_rfl

/-- Side by side, and then on. -/
theorem registered_afterSweep {next : Except ExecutionError (List β) → Prog α}
    (h : ∀ i m, K ⊆ m.known a base → RegisteredRun free a base S m (advance i m))
    (he : ∀ K', K ⊆ K' → ∀ e, S K' (.error e) → (next (.error e)).Registers free K' Q)
    (hok : ∀ K', K ⊆ K' → ∀ values, (∀ v ∈ values, S K' (.ok v)) → (next (.ok values)).Registers free K' Q)
    (hstart : ∀ K', K ⊆ K' → ∀ e, S K' (.error e) → ∀ m, K' ⊆ m.known a base →
      RegisteredRun free a base Q m ((next (.error e)).start base m))
    (hstart' : ∀ K', K ⊆ K' → ∀ values, (∀ v ∈ values, S K' (.ok v)) → ∀ m, K' ⊆ m.known a base →
      RegisteredRun free a base Q m ((next (.ok values)).start base m))
    (hK : K ⊆ m.known a base) :
    RegisteredRun free a base Q m (afterSweep base next (sweep advance (List.finRange n) m)) := by
  obtain ⟨hsweep, hall⟩ := sweep_keeps (I := fun m => K ⊆ m.known a base)
    (P := fun m run => run.Registers free (m.known a base) S) (fun _ => .refl free a _) .trans
    (fun hK hm => hK.trans (hm.evolves.known a base)) (fun hm hrun => hrun.mono (hm.evolves.known a base))
    (List.finRange n) (fun i _ => h i) hK
  have hlater := hK.trans (hsweep.evolves.known a base)
  refine afterSweep_cases hall (fun e hS => ?_) (fun values hS => ?_) fun runs hregisters _ => ?_
  · exact (hstart _ hlater e (registers_done hS) _ subset_rfl).after hsweep
  · exact (hstart' _ hlater values (fun v hv => registers_done (hS v hv)) _ subset_rfl).after hsweep
  · exact ⟨hsweep, .joined S (fun i => hregisters _ (List.get_mem runs i)) (fun K' hK' => he K' (hlater.trans hK'))
      fun K' hK' => hok K' (hlater.trans hK')⟩

end Sweep

end Machine

open Machine

variable {free : Path → Prop} {K : Set Route} {a base : Route} {m m' : Machine} {α : Type} {Q : Set Route → α → Prop}

/-- **Starting a program that registers what it enters.** -/
theorem Prog.Registers.start {p : Prog α} (h : p.Registers free K Q) (hK : K ⊆ m.known a base) :
    RegisteredRun free a base Q m (p.start base m) := by
  induction h generalizing m with
  | done h => exact ⟨.refl free a m, .done fun K' hK' => h K' (hK.trans hK')⟩
  | @enter _ _ _ branch path k hb _ ih =>
    obtain ⟨hbelow, hhosted⟩ := hK hb
    have henter := evolves_perform m base (.enter branch path)
    have hlater := hK.trans (henter.known a base)
    have hmore := (Set.insert_subset_insert hlater).trans (known_perform (.fork branch (.place path)) (hlater hb))
    exact (ih _ hmore).after (registered_enter hbelow hhosted path)
  | @note _ _ _ branch path _ hb hfree _ ih =>
    have henter := evolves_perform m base (.enter branch path)
    exact (ih (hK.trans (henter.known a base))).after (registered_note (hK hb) hfree)
  | @act _ _ _ _ op _ hop hb _ ih =>
    have hknown := (op.known_mono hK _).trans (known_perform op (hK hb))
    exact (ih _ hknown).after (registered_perform hop (there_of_known (hK hb)))
  | sleep hp ih =>
    unfold Prog.start
    split
    · exact ih hK
    · exact ⟨.refl free a m, .asleep (hp.mono hK)⟩
  | @spawn branch _ _ _ key future _ hb hfuture _ _ ih =>
    have hspawn := registered_spawn key (hK hb) (hfuture.mono (lowered_mono hK branch))
    exact (ih (hK.trans (hspawn.evolves.known a base))).after hspawn
  | @resolve branch _ _ _ key _ hb hp ih =>
    have hsettle (generation : Nat) (value : Option Value) :
        Registered free a m (m.modifyStore (base ++ branch) (·.settle key generation value)) :=
      registered_modifyStore m (base ++ branch) _
    unfold Prog.start
    split
    · exact ih _ hK
    · exact ih _ hK
    · split
      · exact ⟨.refl free a m, .resolving (hK hb) fun r => (hp r).mono hK⟩
      · exact (ih _ (hK.trans ((hsettle _ _).evolves.known a base))).after (hsettle _ _)
      · exact (ih _ (hK.trans ((hsettle _ _).evolves.known a base))).after (hsettle _ _)
  | @settle branch _ _ _ _ hb hp ih =>
    have hwait := (endured_registered free a (base ++ branch)).waitFutures m [] none
    unfold Prog.start
    split
    · next he =>
      rw [he] at hwait
      have hlater := hK.trans (hwait.evolves.known a base)
      exact ⟨hwait, .waiting (hlater hb) fun r => (hp r).mono hlater⟩
    · next he =>
      rw [he] at hwait
      exact (ih _ (hK.trans (hwait.evolves.known a base))).after hwait
  | @all α β n _ Q S parts next _ he hok ihparts ihe ihok =>
    rw [Machine.start_all]
    exact registered_afterSweep (fun i m hK => ihparts i hK) he hok (fun K' hK' e hS m hm => ihe K' hK' e hS hm)
      (fun K' hK' values hS m hm => ihok K' hK' values hS hm) hK

/-- **Taking it on.** -/
theorem Run.Registers.resume {run : Run α} (h : run.Registers free K Q) (hK : K ⊆ m.known a base) :
    RegisteredRun free a base Q m (run.resume base m) := by
  induction h generalizing m with
  | done h => exact ⟨.refl free a m, .done fun K' hK' => h K' (hK.trans hK')⟩
  | asleep hp =>
    unfold Run.resume
    split
    · exact hp.start hK
    · exact ⟨.refl free a m, .asleep (hp.mono hK)⟩
  | @resolving branch _ _ key generation future _ hb hp =>
    have hsettle (value : Option Value) :
        Registered free a m (m.modifyStore (base ++ branch) (·.settle key generation value)) :=
      registered_modifyStore m (base ++ branch) _
    unfold Run.resume
    split
    · exact ⟨.refl free a m, .resolving (hK hb) fun r => (hp r).mono hK⟩
    · exact ((hp _).start (hK.trans ((hsettle _).evolves.known a base))).after (hsettle _)
    · exact ((hp _).start (hK.trans ((hsettle _).evolves.known a base))).after (hsettle _)
  | @waiting branch _ _ wait _ hb hp =>
    have hwait := (endured_registered free a (base ++ branch)).wait m wait
    unfold Run.resume
    split
    · next he =>
      rw [he] at hwait
      have hlater := hK.trans (hwait.evolves.known a base)
      exact ⟨hwait, .waiting (hlater hb) fun r => (hp r).mono hlater⟩
    · next he =>
      rw [he] at hwait
      exact ((hp _).start (hK.trans (hwait.evolves.known a base))).after hwait
  | @joined α β n Q S parts next _ he hok ih =>
    rw [Machine.resume_joined]
    exact registered_afterSweep (fun i m hK => ih i hK) he hok (fun K' hK' e hS m hm => (he K' hK' e hS).start hm)
      (fun K' hK' values hS m hm => (hok K' hK' values hS).start hm) hK

namespace Machine

/-! ## Futures -/

/-- A future that is put back, or ends. -/
theorem registered_keep {f : Future} (hhome : a <+: f.id.home) {run : Run (Except EvalError Value)}
    (hr : run.Registers free (m.known a f.id.home) fun _ _ => True) : Registered free a m (m.keep f run) := by
  have hput : Registered free a m (m.setFuture f.id (.running run)) :=
    registered_setFuture m fun run' heq => by cases heq; exact ⟨hhome, hr⟩
  have hend (m : Machine) (result : Except EvalError Value) (report : Except EvalError Unit) :
      Registered free a m (m.setFuture f.id (.ended result report)) := registered_setFuture m nofun
  cases run with
  | done result =>
    cases result with
    | error e => exact hend m _ _
    | ok v =>
      simp only [keep, complete]
      split
      · exact (registered_modifyStore m _ _).trans (hend _ _ _)
      · exact hend m _ _
  | _ => exact hput

/-- **Taking a future on** that registers what it enters. -/
theorem registered_runFuture {f : Future} (hf : f ∈ m.futures) (hH : H f.id.home) (hm : m.Enrolled free H a)
    (h : m.runFuture f = some m') : Registered free a m m' := by
  obtain ⟨run, hrun, rfl⟩ := running_of_runFuture h
  obtain ⟨hhome, hregisters⟩ := hm f hf hH run hrun
  have hbusy : Registered free a m (m.setFuture f.id .busy) := registered_setFuture m nofun
  obtain ⟨hresume, hrest⟩ := hregisters.resume (hbusy.evolves.known a f.id.home)
  have hkeep := registered_keep (f := f) hhome hrest
  exact ((hbusy.trans hresume).trans hkeep).trans (registered_of_eq rfl rfl)

/-! ## In the midst of others -/

/-- A started program proceeds, with the futures below a branch: it is taken on, or one of these is. -/
inductive Proceeds (a base : Route) : Run α × Machine → Run α × Machine → Prop
  | resume (run : Run α) (m : Machine) : Proceeds a base (run, m) (run.resume base m)
  | future (run : Run α) {m m' : Machine} {f : Future} (hf : f ∈ m.futures) (hhome : a <+: f.id.home)
      (h : m.runFuture f = some m') : Proceeds a base (run, m) (run, m')

/-- The same, in the midst of others that do whatever machines do, but that what they start below the branch registers
what it enters. -/
inductive ProceedsAmid (free : Path → Prop) (a base : Route) : Run α × Machine → Run α × Machine → Prop
  | own {x y : Run α × Machine} (h : Proceeds a base x y) : ProceedsAmid free a base x y
  | others (run : Run α) {m m' : Machine} (h : Evolves m m')
      (hm : m.Enrolled free (a <+: ·) a → m'.Enrolled free (a <+: ·) a) : ProceedsAmid free a base (run, m) (run, m')

variable {r r' : Run α × Machine}

/-- **What proceeds registers what it enters**, and goes on like that. -/
theorem registered_of_proceeds (hr : r.1.Registers free (r.2.known a base) Q) (hm : r.2.Enrolled free (a <+: ·) a)
    (h : Proceeds a base r r') : RegisteredRun free a base Q r.2 r' := by
  cases h with
  | resume run m => exact hr.resume subset_rfl
  | future run hf hhome h =>
    have hregistered := registered_runFuture hf hhome hm h
    exact ⟨hregistered, hr.mono (hregistered.evolves.known a base)⟩

/-- Whatever others do, the run registers what it enters, and so does what runs below the branch. -/
theorem registers_of_amid (hr : r.1.Registers free (r.2.known a base) Q) (hm : r.2.Enrolled free (a <+: ·) a)
    (h : Relation.ReflTransGen (ProceedsAmid free a base) r r') :
    r'.1.Registers free (r'.2.known a base) Q ∧ r'.2.Enrolled free (a <+: ·) a := by
  induction h with
  | refl => exact ⟨hr, hm⟩
  | tail _ h ih =>
    cases h with
    | own h =>
      obtain ⟨hregistered, hregisters⟩ := registered_of_proceeds ih.1 ih.2 h
      exact ⟨hregisters, hregistered.enrolled _ ih.2⟩
    | others run h hm => exact ⟨ih.1.mono (h.known a base), hm ih.2⟩

/-! ## Whole runs -/

/-- The main program registers what it enters, and so does all else that runs, which is below the branch. -/
structure Registering (free : Path → Prop) (a : Route) (Q : Set Route → α → Prop) (run : Run α) (m : Machine) : Prop where
  enrolled : m.Enrolled free (fun _ => True) a
  registers : run.Registers free (m.known a []) Q

theorem Registering.after {run run' : Run α} (h : Registering free a Q run m) (hr : Registered free a m m')
    (hrun : run'.Registers free (m'.known a []) Q) : Registered free a m m' ∧ Registering free a Q run' m' :=
  ⟨hr, hr.enrolled _ h.enrolled, hrun⟩

/-- Every step of a turn keeps to that. -/
theorem maintained_registering (free : Path → Prop) (a : Route) (Q : Set Route → α → Prop) :
    Maintained (Registering free a Q) (Registered free a) where
  refl _ := .refl free a _
  trans := .trans
  idle {run m} h ready clock := by
    have hidle : Registered free a m { m with ready, clock } := registered_of_eq rfl rfl
    exact h.after hidle (h.registers.mono (hidle.evolves.known a []))
  resume h := by
    obtain ⟨hregistered, hregisters⟩ := h.registers.resume subset_rfl
    exact h.after hregistered hregisters
  future {run m m' id f} h hf hm := by
    have hregistered := registered_runFuture (List.mem_of_find?_eq_some hf) trivial h.enrolled hm
    exact h.after hregistered (h.registers.mono (hregistered.evolves.known a []))

/-- **A whole run** registers what it enters, if all else that runs does and is below the branch. -/
theorem registered_run (hm : m.Enrolled free (fun _ => True) a) {p : Prog α} (hp : p.Registers free K Q)
    (hK : K ⊆ m.known a []) : Registered free a m (m.run p).2 := by
  obtain ⟨hstart, hregisters⟩ := hp.start hK
  have hstarted : Registering free a Q (p.start [] m).1 (p.start [] m).2 := ⟨hstart.enrolled _ hm, hregisters⟩
  obtain ⟨-, -, hdriven, -⟩ := (maintained_registering free a Q).drive hstarted
  exact hstart.trans hdriven

end Machine

end MediaQuery
