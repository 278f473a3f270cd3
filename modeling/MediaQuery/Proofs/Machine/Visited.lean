import MediaQuery.Proofs.Machine.Agree
import MediaQuery.Proofs.Machine.Turns
import MediaQuery.Proofs.Program.Visits
import MediaQuery.Proofs.Template.Chain
import MediaQuery.Proofs.Template.Fresh

/-!
# What a visit leaves alone

A visited branch keeps what it holds, its path, its results and the futures that are still to be awaited there, while
forks of it and entries of its log may be new (`Visited`). That is so wherever programs do not use the branch
(`upheld_visited`), and wherever they only visit it: when they start (`Prog.Visits.start`), when they are taken on
(`Run.Visits.resume`), in the midst of whatever others do (`visited_of_advances`, `visits_of_amid`), and, if no future
that still runs uses the branch (`Quiet`), in whole runs (`visited_run`). So a visited branch is left alone, as far as
can be seen from it (`Visited.leftAlone`).
-/

namespace MediaQuery.Machine

variable {a base : Route} {m m' m'' : Machine} {α : Type} {Q : α → Prop}

/-! ## Visited branches -/

/-- No future that still runs is at home on the branch or uses it. -/
def Quiet (a : Route) (m : Machine) : Prop :=
  ∀ f ∈ m.futures, ∀ run, f.state = .running run → f.id.home ≠ a ∧ run.Uses (· ≠ a) f.id.home fun _ => True

/-- So it is where all that still runs is at home neither on the branch nor above it. -/
theorem quiet_of_home (h : ∀ f ∈ m.futures, f.report? = none → ¬ f.id.home <+: a) : m.Quiet a := by
  intro f hf run hrun
  have hoff : ¬ f.id.home <+: a := by
    apply h f hf
    unfold Future.report?
    rw [hrun]
  refine ⟨?_, run.uses_off hoff⟩
  rintro rfl
  exact hoff List.prefix_rfl

/-- A branch has got nothing but new forks and new entries of its log. -/
structure Visited (a : Route) (m m' : Machine) : Prop where
  evolves : Evolves m m'
  retains : Retains a m m'
  unawaited : m'.unawaited a = m.unawaited a
  quiet : m.Quiet a → m'.Quiet a

theorem Visited.refl (a : Route) (m : Machine) : Visited a m m := ⟨.refl m, .refl a m, rfl, id⟩

theorem Visited.trans (h : Visited a m m') (h' : Visited a m' m'') : Visited a m m'' :=
  ⟨h.evolves.trans h'.evolves, h.retains.trans h'.retains, h'.unawaited.trans h.unawaited,
    fun hq => h'.quiet (h.quiet hq)⟩

/-- Where no future is another one, those to be awaited are the same, and a quiet branch stays quiet. -/
theorem visited_of_futures (he : Evolves m m') (hr : Retains a m m') (hf : m'.futures = m.futures) :
    Visited a m m' := by
  refine ⟨he, hr, ?_, fun hq => ?_⟩
  · unfold unawaited
    rw [hf]
  · unfold Quiet
    rwa [hf]

/-- Queue and clock are no matter. -/
theorem visited_of_eq (ht : m'.tree = m.tree) (hf : m'.futures = m.futures) : Visited a m m' := by
  obtain ⟨_, _, _, _⟩ := m
  obtain ⟨_, _, _, _⟩ := m'
  cases ht
  exact visited_of_futures (.refl _) ⟨rfl, rfl, rfl⟩ hf

/-- What changes is about other branches. -/
theorem visited_of_confined (he : Evolves m m') (hc : Confined (· ≠ a) m m') : Visited a m m' := by
  refine ⟨he, hc.retains (not_not_intro rfl), ?_, fun hq f hf run hrun => ?_⟩
  · have hsame := hc.futures (fun x => decide (x = a)) fun x hx => decide_eq_false hx
    have hunawaited (m : Machine) : m.unawaited a =
        ((m.futures.filter fun f => decide (f.id.home = a)).filter fun f => !f.awaited).map Future.id := by
      unfold unawaited
      rw [List.filter_filter]
      simp only [Bool.and_comm]
    rw [hunawaited, hunawaited, hsame]
  · rcases hc.guests f hf run hrun with ⟨g, hg, hid, hgs⟩ | hnew
    · rw [← hid]
      exact hq g hg run hgs
    · exact hnew

/-- **Programs that do not use a branch leave it like a visit.** -/
theorem upheld_visited (a : Route) : Upheld (· ≠ a) (Visited a) where
  refl := .refl a
  trans := .trans
  grows h _ hx := h.evolves.isSome hx
  perform hb hmakes := visited_of_confined (evolves_perform _ _ _) (confined_perform hb hmakes)
  spawn m b hb key p hp :=
    visited_of_confined (evolves_spawn m b key p) (confined_spawn (T := (· ≠ a)) m hb key hp)
  modifyStore m b hb f :=
    visited_of_confined (evolves_modifyStore m b f) (confined_modifyStore (T := (· ≠ a)) m hb f)
  markAwaited m _ hb := visited_of_confined (.refl m) (confined_markAwaited m hb)
  setFuture m _ hb _ hs := visited_of_confined (.refl m) (confined_setFuture m hb hs)

theorem retains_open (m : Machine) (a : Route) (inputs : Inputs) :
    Retains a m (m.addChild a fun _ => .root inputs).2 := by
  cases hn : m.node? a with
  | none =>
    rw [addChild_of_none hn]
    exact .refl _ m
  | some n =>
    have hundisturbed := undisturbed_open hn inputs
    exact ⟨hundisturbed.store, hundisturbed.path, hundisturbed.history⟩

/-- An operation on the branch that writes nothing to it. -/
theorem visited_perform {op : Op α} (hlight : op.Light) : Visited (base ++ op.branch) m (m.perform base op).2 := by
  have hevolves := evolves_perform m base op
  cases op with
  | set branch key value => exact hlight.elim
  | record branch result => exact hlight.elim
  | enter branch path => exact visited_of_futures hevolves (retains_enter m _ _ path) rfl
  | fork branch options => exact visited_of_futures hevolves (retains_fork m _ options) rfl
  | openSession branch inputs => exact visited_of_futures hevolves (retains_open m _ inputs) rfl
  | _ => exact .refl _ m

/-! ## Visits -/

/-- What a program leaves that visits a branch. -/
abbrev VisitedRun (a base : Route) {α : Type} (Q : α → Prop) (m : Machine) (r : Run α × Machine) : Prop :=
  Visited a m r.2 ∧ r.1.Visits a base Q

theorem VisitedRun.after {r : Run α × Machine} (hr : VisitedRun a base Q m' r) (h : Visited a m m') :
    VisitedRun a base Q m r := ⟨h.trans hr.1, hr.2⟩

/-- What is beneath a branch may be changed at will. -/
theorem visited_modifyStore {b : Route} (hb : Beneath a b) (m : Machine) (f : Store → Store) :
    Visited a m (m.modifyStore b f) := (upheld_visited a).modifyStore m hb.ne f

section Sweep

variable {β : Type} {n : Nat} {S : Except ExecutionError β → Prop}
  {advance : Fin n → Machine → Run (Except ExecutionError β) × Machine}

theorem visits_done {v : α} : (Run.done v).Visits a base Q ↔ Q v := by
  refine ⟨fun h => ?_, .done⟩
  cases h with
  | done h => exact h

/-- Side by side, and then on. -/
theorem visited_afterSweep {next : Except ExecutionError (List β) → Prog α}
    (h : ∀ i m, VisitedRun a base S m (advance i m)) (he : ∀ e, S (.error e) → (next (.error e)).Visits a base Q)
    (hok : ∀ values, (∀ v ∈ values, S (.ok v)) → (next (.ok values)).Visits a base Q)
    (hstart : ∀ e, S (.error e) → ∀ m, VisitedRun a base Q m ((next (.error e)).start base m))
    (hstart' : ∀ values, (∀ v ∈ values, S (.ok v)) → ∀ m, VisitedRun a base Q m ((next (.ok values)).start base m))
    (m : Machine) : VisitedRun a base Q m (afterSweep base next (sweep advance (List.finRange n) m)) := by
  obtain ⟨hsweep, hall⟩ := sweep_keeps (I := fun _ => True) (P := fun _ run => run.Visits a base S)
    (fun _ => .refl a _) .trans (fun _ _ => trivial) (fun _ hvisits => hvisits) (List.finRange n)
    (fun i _ m _ => h i m) (m := m) trivial
  refine afterSweep_cases hall (fun e hS => ?_) (fun values hS => ?_) fun runs hvisits _ => ?_
  · exact (hstart e (visits_done.1 hS) _).after hsweep
  · exact (hstart' values (fun v hv => visits_done.1 (hS v hv)) _).after hsweep
  · exact ⟨hsweep, .joined S (fun i => hvisits _ (List.get_mem runs i)) he hok⟩

end Sweep

end Machine

open Machine (Visited VisitedRun Quiet upheld_visited)

variable {a base : Route} {m m' : Machine} {α : Type} {Q : α → Prop}

/-- **Starting a program that visits a branch.** -/
theorem Prog.Visits.start {p : Prog α} (h : p.Visits a base Q) (m : Machine) :
    VisitedRun a base Q m (p.start base m) := by
  induction h generalizing m with
  | done hQ => exact ⟨.refl a m, .done hQ⟩
  | @act _ _ _ op _ hb _ ih =>
    rcases hb with hb | ⟨rfl, hlight⟩
    · have hmakes : op.Makes (Beneath a) base (m.perform base op).1 :=
        (op.makes_beneath base _).mono fun _ hx => hb.below hx.above
      exact (ih _ hmakes _).after ((upheld_visited a).perform hb.ne (hmakes.mono fun _ hx => hx.ne))
    · exact (ih _ (op.makes_beneath base _) _).after (Machine.visited_perform hlight)
  | sleep hp ih =>
    unfold Prog.start
    split
    · exact ih m
    · exact ⟨.refl a m, .asleep hp⟩
  | @spawn branch _ _ key future _ hb _ ih =>
    exact (ih _).after ((upheld_visited a).spawn m hb.ne key (future.uses_off hb.off))
  | @resolve branch _ _ key _ hb hp ih =>
    unfold Prog.start
    split
    · exact ih _ m
    · exact ih _ m
    · split
      · exact ⟨.refl a m, .resolving hb hp⟩
      · exact (ih _ _).after (Machine.visited_modifyStore hb m _)
      · exact (ih _ _).after (Machine.visited_modifyStore hb m _)
  | @settle branch _ _ _ hb hp ih =>
    have hwait := ((upheld_visited a).endured hb.ne).waitFutures m [] none
    unfold Prog.start
    split
    · next he =>
      rw [he] at hwait
      exact ⟨hwait, .waiting hb hp⟩
    · next he =>
      rw [he] at hwait
      exact (ih _ _).after hwait
  | @all α β n Q S parts next _ he hok ihparts ihe ihok =>
    rw [Machine.start_all]
    exact Machine.visited_afterSweep ihparts he hok ihe ihok m

/-- **Taking it on.** -/
theorem Run.Visits.resume {run : Run α} (h : run.Visits a base Q) (m : Machine) :
    VisitedRun a base Q m (run.resume base m) := by
  induction h generalizing m with
  | done hQ => exact ⟨.refl a m, .done hQ⟩
  | asleep hp =>
    unfold Run.resume
    split
    · exact hp.start m
    · exact ⟨.refl a m, .asleep hp⟩
  | @resolving branch _ _ key generation future _ hb hp =>
    unfold Run.resume
    split
    · exact ⟨.refl a m, .resolving hb hp⟩
    · exact ((hp _).start _).after (Machine.visited_modifyStore hb m _)
    · exact ((hp _).start _).after (Machine.visited_modifyStore hb m _)
  | @waiting branch _ _ wait _ hb hp =>
    have hwait := ((upheld_visited a).endured hb.ne).wait m wait
    unfold Run.resume
    split
    · next he =>
      rw [he] at hwait
      exact ⟨hwait, .waiting hb hp⟩
    · next he =>
      rw [he] at hwait
      exact ((hp _).start _).after hwait
  | @joined α β n Q S parts next _ he hok ih =>
    rw [Machine.resume_joined]
    exact Machine.visited_afterSweep ih he hok (fun e hS => (he e hS).start) (fun values hS => (hok values hS).start) m

namespace Machine

/-! ## In the midst of others -/

/-- A run that visits a branch advances, with the futures beneath the branch. -/
abbrev AdvancesBeneath (a base : Route) (r r' : Run α × Machine) : Prop := ∃ i, Advances (a ++ [i]) base r r'

/-- The same, in the midst of others that do whatever machines do. -/
abbrev AmidBeneath (a base : Route) (r r' : Run α × Machine) : Prop := ∃ i, Amid (a ++ [i]) base r r'

theorem visited_takeOn (h : (m.node? a).isSome = true) {f : Future} {run : Run (Except EvalError Value)}
    (ha : f.id.home ≠ a) (hr : run.Uses (· ≠ a) f.id.home fun _ => True) : Visited a m (m.takeOn f run).enqueue :=
  ((upheld_visited a).takeOn (settled_ne h) ha hr).trans (visited_of_eq rfl rfl)

/-- **What advances has visited the branch**, and goes on visiting it. -/
theorem visited_of_advances {r r' : Run α × Machine} (hr : r.1.Visits a base Q) (ha : (r.2.node? a).isSome = true)
    (h : AdvancesBeneath a base r r') : VisitedRun a base Q r.2 r' := by
  obtain ⟨i, h⟩ := h
  cases h with
  | resume run m => exact hr.resume m
  | @future run m m' f hf h =>
    obtain ⟨taken, rfl⟩ := takeOn_of_runFuture h
    have hbeneath : Beneath a f.id.home := ⟨i, hf⟩
    exact ⟨visited_takeOn ha hbeneath.ne (taken.uses_off hbeneath.off), hr⟩

/-- Whatever others do, the run visits the branch, and the branch is there. -/
theorem visits_of_amid {r r' : Run α × Machine} (hr : r.1.Visits a base Q) (ha : (r.2.node? a).isSome = true)
    (h : Relation.ReflTransGen (AmidBeneath a base) r r') :
    r'.1.Visits a base Q ∧ (r'.2.node? a).isSome = true := by
  induction h with
  | refl => exact ⟨hr, ha⟩
  | tail _ h ih =>
    obtain ⟨i, h⟩ := h
    cases h with
    | own h =>
      obtain ⟨hvisited, hvisits⟩ := visited_of_advances ih.1 ih.2 ⟨i, h⟩
      exact ⟨hvisits, hvisited.evolves.isSome ih.2⟩
    | others run h => exact ⟨ih.1, h.isSome ih.2⟩

/-! ## Whole runs -/

/-- The main program visits a branch that is there, and nothing else that runs uses it. -/
structure Visiting (a : Route) (Q : α → Prop) (run : Run α) (m : Machine) : Prop where
  quiet : m.Quiet a
  there : (m.node? a).isSome = true
  visits : run.Visits a [] Q

variable {run : Run α}

theorem Visiting.after (h : Visiting a Q run m) (hv : Visited a m m') {run' : Run α} (hr : run'.Visits a [] Q) :
    Visited a m m' ∧ Visiting a Q run' m' := ⟨hv, hv.quiet h.quiet, hv.evolves.isSome h.there, hr⟩

/-- Every step of a turn has visited the branch. -/
theorem maintained_visiting (a : Route) (Q : α → Prop) : Maintained (Visiting a Q) (Visited a) where
  refl _ := .refl a _
  trans := .trans
  idle {run m} h ready clock := by
    have hidle : Visited a m { m with ready, clock } := visited_of_eq rfl rfl
    exact h.after hidle h.visits
  resume h := by
    obtain ⟨hvisited, hvisits⟩ := h.visits.resume _
    exact h.after hvisited hvisits
  future {run m m' id f} h hf hm := by
    obtain ⟨taken, hrun, rfl⟩ := running_of_runFuture hm
    obtain ⟨hhome, huses⟩ := h.quiet f (List.mem_of_find?_eq_some hf) taken hrun
    exact h.after (visited_takeOn h.there hhome huses) h.visits

/-- **A whole run has visited the branch**, if nothing else that runs uses it. -/
theorem visited_run (hq : m.Quiet a) (ha : (m.node? a).isSome = true) {p : Prog α} (hp : p.Visits a [] Q) :
    Visited a m (m.run p).2 := by
  obtain ⟨hvisited, hvisits⟩ := hp.start m
  have hstarted : Visiting a Q (p.start [] m).1 (p.start [] m).2 :=
    ⟨hvisited.quiet hq, hvisited.evolves.isSome ha, hvisits⟩
  obtain ⟨-, -, hdriven, -⟩ := (maintained_visiting a Q).drive hstarted
  exact hvisited.trans hdriven

/-! ## What is left of the branch -/

/-- Nothing about a branch has become another but that there may be more branches below it and more entries at the end
of its log: what it holds, its path, its results, the futures to be awaited there and the inputs of its query are the
same, and every key reads as before, if none is still to be computed. -/
structure LeftAlone (a : Route) (m m' : Machine) : Prop where
  store : m'.store a = m.store a
  path : m'.path a = m.path a
  history : m'.history a = m.history a
  unawaited : m'.unawaited a = m.unawaited a
  inputs : m'.inputsAt a = m.inputsAt a
  get : (m.store a).pending = [] → ∀ key, m'.get a key = m.get a key
  descendants : (m.descendants a).Sublist (m'.descendants a)
  log : (m.session a).log <+: (m'.session a).log

/-- The descendants of a branch stay. -/
theorem Evolves.descendants (h : Evolves m m') (ha : (m.node? a).isSome = true) :
    (m.descendants a).Sublist (m'.descendants a) := by
  have ha' := h.isSome ha
  rw [← isSome_branch?, Option.isSome_iff_exists] at ha ha'
  obtain ⟨b, hb⟩ := ha
  obtain ⟨b', hb'⟩ := ha'
  rw [descendants_of_branch? hb, descendants_of_branch? hb']
  refine (Branch.descendants_sublist b b' (fun route hroute => ?_) fun route hroute => ?_).map _
  · rw [node?_below hb] at hroute
    rw [node?_below hb']
    exact h.isSome hroute
  · rw [node?_below hb] at hroute
    rw [starts_below hb, starts_below hb']
    exact h.isSome_session? hroute

/-- **A branch that has only been visited is left alone.** -/
theorem Visited.leftAlone (h : Visited a m m') (ha : (m.node? a).isSome = true) : LeftAlone a m m' where
  store := h.retains.store
  path := h.retains.path
  history := h.retains.history
  unawaited := h.unawaited
  inputs := h.evolves.inputsAt ha
  get hpending key := by
    unfold Machine.get
    rw [h.retains.store]
    exact Store.get_of_settled hpending _ _ key
  descendants := h.evolves.descendants ha
  log := h.evolves.log_prefix ha

end Machine

end MediaQuery
