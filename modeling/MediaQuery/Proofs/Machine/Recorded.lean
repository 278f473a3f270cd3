import MediaQuery.Proofs.Machine.Passes
import MediaQuery.Proofs.Machine.Sequence

/-!
# Every run is recorded

What a program does to a machine, and what the futures it starts do later on, are steps of a history: whatever is
run on a machine that has a history, the machine has a longer one afterwards (`steady_run`). So what holds of
every history holds of every run. And a program has got along it as far as it does (`reaches_of_run`), to its answer if
it comes to one (`leads_of_run`).
-/

namespace MediaQuery

namespace Machine

variable {inputs : Inputs} {past past' : List Event} {m m' : Machine} {α : Type}

/-! ## Runs -/

/-- A machine with a history, whose futures have met what they wait for. -/
structure Recorded (inputs : Inputs) (past : List Event) (m : Machine) : Prop where
  history : History inputs past m
  watched : ∀ {id f run}, m.future? id = some f → f.state = .running run → run.Watched past id.home

theorem recorded_start (inputs : Inputs) : Recorded inputs [] (.start inputs) := ⟨.start, nofun⟩

theorem Recorded.acts (h : Recorded inputs past m) (hacts : Acts inputs past m past' m') :
    Recorded inputs past' m' := by
  refine ⟨hacts.history, fun {id g run} hg hstate => ?_⟩
  cases hm : m.future? id with
  | some f =>
    obtain ⟨g', hg', -, hstate'⟩ := hacts.known id f hm
    cases hg.symm.trans hg'
    exact watched_mono (h.watched hm (hstate'.symm.trans hstate)) hacts.subset
  | none =>
    obtain ⟨wake, next, hstate'⟩ := hacts.new id g hm hg
    cases hstate.symm.trans hstate'
    trivial

/-- A step that leaves all futures but one as they are. -/
theorem Recorded.step {e : Event} {id : FutureId} {state : FutureState} (h : Recorded inputs past m)
    (hs : m.Step past e m') (hf : ∀ id', m'.future? id' = (m.setFuture id state).future? id')
    (hw : ∀ run, state = .running run → run.Watched past id.home) : Recorded inputs (e :: past) m' := by
  refine ⟨.step h.history hs, fun {id' g run} hg hstate => watched_mono ?_ (List.subset_cons_self _ _)⟩
  rw [hf, future?_setFuture] at hg
  split at hg
  · next hid =>
    obtain ⟨f, -, rfl⟩ := Option.map_eq_some_iff.1 hg
    exact hid ▸ hw run hstate
  · exact h.watched hg hstate

/-- The run of a future is put back, or the future ends. -/
theorem recorded_keep (h : Recorded inputs past m) {f g : Future} (hg : m.future? f.id = some g)
    (hkey : g.key = f.key) (hstate : g.state = .busy) {run : Run (Except EvalError Value)}
    (hw : run.Watched past f.id.home) :
    ∃ e, m.Step past e (m.keep f run) ∧ Recorded inputs (e :: past) (m.keep f run) := by
  have hid : g.id = f.id := id_of_future? hg
  have hg' : m.future? g.id = some g := by rw [hid, hg]
  have hr : g.result? = none := by
    unfold Future.result?
    rw [hstate]
  have hwork (run : Run (Except EvalError Value)) (hw : run.Watched past f.id.home) :
      ∃ e, m.Step past e (m.setFuture f.id (.running run)) ∧
        Recorded inputs (e :: past) (m.setFuture f.id (.running run)) := by
    have hs : m.Step past .other (m.setFuture g.id (.running run)) := .work _ hg' hr rfl
    rw [hid] at hs
    refine ⟨_, hs, h.step hs (fun _ => rfl) fun run' heq => ?_⟩
    cases heq
    exact hw
  cases run with
  | done result =>
    have hfinish : m.Step past (.ended g.id result) (m.complete f result) :=
      complete_congr hid hkey result ▸ .finish result hg' hr
    obtain ⟨report, hfuture⟩ := exists_report_complete m f result
    exact ⟨_, hfinish, h.step hfinish hfuture fun _ heq => by cases heq⟩
  | asleep wake next => exact hwork _ hw
  | resolving branch key generation future next => exact hwork _ hw
  | waiting branch wait next => exact hwork _ hw
  | joined parts next => exact hwork _ hw

/-- What a run waits for is on the machine. -/
theorem knows_of_watched (h : Roster past m) {run : Run α} {base : Route} (hw : run.Watched past base) :
    run.Knows m := by
  have known {id : FutureId} (hf : ∃ f, m.future? id = some f) : (m.state? id).isSome = true := by
    obtain ⟨f, hf⟩ := hf
    unfold state?
    rw [hf]
    rfl
  induction run with
  | done a => trivial
  | asleep wake next => trivial
  | resolving branch key generation future next => exact known (h.met hw)
  | waiting branch wait next =>
    cases wait with
    | futures front rest failure =>
      obtain ⟨b, key, hspawned⟩ := hw front List.mem_cons_self
      obtain ⟨-, f, hf, -⟩ := h.started hspawned
      exact known ⟨f, hf⟩
    | slots slot rest failure => exact known (h.met (hw slot List.mem_cons_self))
  | joined parts next ih => exact fun i => ih i (hw i)

/-- A machine with a history and a queue in order. -/
structure Steady (inputs : Inputs) (past : List Event) (m : Machine) : Prop extends
  Recorded inputs past m, Orderly m

theorem steady_start (inputs : Inputs) : Steady inputs [] (.start inputs) :=
  ⟨recorded_start inputs, orderly_start inputs⟩

theorem Steady.acts (h : Steady inputs past m) (hacts : Acts inputs past m past' m') : Steady inputs past' m' :=
  ⟨h.toRecorded.acts hacts, hacts.orderly h.toOrderly⟩

theorem recorded_queue (h : Recorded inputs past m) (ready : List FutureId) :
    Recorded inputs (.other :: past) { m with ready } :=
  ⟨.step h.history (.queue ready), fun hf hs => watched_mono (h.watched hf hs) (List.subset_cons_self _ _)⟩

/-- A run that has been taken on is put back, or its future ends. -/
theorem Orderly.keep (h : Orderly m) {f g : Future} (hg : m.future? f.id = some g) (hstate : g.state = .busy)
    {run : Run (Except EvalError Value)} (hk : run.Knows m) : Tidy (m.keep f run) := by
  have hbusy : m.state? f.id = some .busy := by
    unfold state?
    rw [hg, Option.map_some, hstate]
  have hrun : Tidy (m.setFuture f.id (.running run)) := h.put hbusy fun run' heq => by cases heq; exact hk
  have hend (result : Except EvalError Value) (report : Except EvalError Unit) :
      Tidy (m.setFuture f.id (.ended result report)) := h.put hbusy fun run' heq => by cases heq
  cases run with
  | done result =>
    cases result with
    | error error => exact hend _ _
    | ok v =>
      simp only [Machine.keep, complete]
      split
      · next store _ =>
        have hsame : Orderly (m.modifyStore f.id.home fun _ => store) := h.congr rfl (fun _ => rfl) rfl rfl
        exact hsame.put hbusy fun run' heq => by cases heq
      · exact hend _ _
  | asleep wake next => exact hrun
  | resolving branch key generation future next => exact hrun
  | waiting branch wait next => exact hrun
  | joined parts next => exact hrun

/-- To take a future on is to resume its run, and then to put that back. -/
theorem runFuture_eq {f : Future} {run : Run (Except EvalError Value)} (hs : f.state = .running run)
    (hm : m.runFuture f = some m') : m' =
      (((run.resume f.id.home (m.setFuture f.id .busy)).2.keep f
        (run.resume f.id.home (m.setFuture f.id .busy)).1)).enqueue := by
  unfold runFuture at hm
  rw [hs] at hm
  dsimp only at hm
  split at hm
  · exact (Option.some.inj hm).symm
  · cases hm

theorem steady_runFuture (h : Steady inputs past m) {f : Future} {rest : List FutureId} (hr : m.ready = f.id :: rest)
    (hf : m.future? f.id = some f) (hm : { m with ready := rest }.runFuture f = some m') :
    ∃ past', Moment.Before ⟨past, m⟩ ⟨past', m'⟩ ∧ Steady inputs past' m' := by
  obtain ⟨run, hrun, -⟩ := h.live f.id (by rw [hr]; exact List.mem_cons_self)
  have hstate : f.state = .running run := by
    unfold state? at hrun
    rw [hf] at hrun
    exact Option.some.inj hrun
  have hresult : f.result? = none := by
    unfold Future.result?
    rw [hstate]
  have hwork : Step (.other :: past) { m with ready := rest } .other ({ m with ready := rest }.setFuture f.id .busy) :=
    .work .busy hf hresult rfl
  have hbusy : Steady inputs (.other :: .other :: past) ({ m with ready := rest }.setFuture f.id .busy) :=
    ⟨(recorded_queue h.toRecorded rest).step hwork (fun _ => rfl) nofun, h.toOrderly.busy hr⟩
  have hself : ({ m with ready := rest }.setFuture f.id .busy).future? f.id = some { f with state := .busy } := by
    rw [future?_setFuture, if_pos rfl]
    exact congrArg (Option.map _) hf
  obtain ⟨past₁, hacts, hw⟩ := acts_resume run f.id.home hbusy.history
    (watched_mono (h.watched hf hstate) fun x hx => .tail _ (.tail _ hx))
  obtain ⟨g, hg, hkey, hgstate⟩ := hacts.known _ _ hself
  have hkept := hbusy.acts hacts
  obtain ⟨e, hstep, hkeep⟩ := recorded_keep hkept.toRecorded hg hkey hgstate hw
  have htidy := hkept.toOrderly.keep hg hgstate (knows_of_watched (lineage_of_history hkept.history).roster hw)
  rw [runFuture_eq hstate hm]
  refine ⟨.other :: e :: past₁, ?_, recorded_queue hkeep _, htidy.enqueue⟩
  exact (((Moment.before_of_step (.queue rest)).trans (Moment.before_of_step hwork)).trans hacts.steps).trans
    ((Moment.before_of_step hstep).trans (Moment.before_of_step (.queue _)))

/-- What a run reaches from the first moment includes whatever the other one reaches from the second, and what has been
entered before. -/
def GoesOn (run : Run α) (x : Moment) (run' : Run α) (y : Moment) : Prop :=
  ∃ entered, ∀ {N r z}, run'.Reaches [] y N r z → run.Reaches [] x (entered ∪ N) r z

/-- A run that waits goes on from an earlier moment. -/
theorem GoesOn.earlier {run run' : Run α} {x y z : Moment} (h : GoesOn run y run' z) (hrun : run.result? = none)
    (hx : x.Before y) : GoesOn run x run' z := by
  obtain ⟨entered, h⟩ := h
  exact ⟨entered, fun hr => reaches_earlier hrun hx (h hr)⟩

theorem goesOn_refl (run : Run α) (x : Moment) : GoesOn run x run x := by
  refine ⟨∅, fun hr => ?_⟩
  rwa [Set.empty_union]

/-- The main program has been dispatched, or a future in its stead. -/
theorem passes_dispatch {run run' : Run α} (h : Steady inputs past m) (hw : run.Watched past [])
    (hm : dispatch run m = some (run', m')) :
    ∃ past', (Steady inputs past' m' ∧ run'.Watched past' []) ∧
      (run.result? = none → GoesOn run ⟨past, m⟩ run' ⟨past', m'⟩) := by
  unfold dispatch at hm
  cases hr : m.ready with
  | cons id rest =>
    obtain ⟨f, _, m₁, hf, -, -, hrun, hq⟩ := h.runQueue_of_head hr
    obtain rfl := id_of_future? hf
    rw [hq] at hm
    cases hm
    obtain ⟨past', hsteps, hsteady⟩ := steady_runFuture h hr hf hrun
    exact ⟨past', ⟨hsteady, watched_mono hw hsteps.subset⟩, fun hnone => (goesOn_refl run _).earlier hnone hsteps⟩
  | nil =>
    rw [hr] at hm
    simp only [runQueue] at hm
    split at hm
    · obtain ⟨past', hpasses⟩ := passes_resume run [] h.history hw
      rw [Option.some.inj hm] at hpasses
      exact ⟨past', ⟨h.acts hpasses.acts, hpasses.watched⟩, fun _ => hpasses.reaches⟩
    · cases hm

/-- The clock goes on when nothing is ready. -/
theorem Steady.advanceTo (h : Steady inputs past m) {t : Nat} (ht : m.clock ≤ t) :
    Steady inputs (.other :: .other :: past) (m.advanceTo t) := by
  have htick : Recorded inputs (.other :: past) { m with clock := t } :=
    ⟨.step h.history (.tick t), fun hf hs => watched_mono (h.watched hf hs) (List.subset_cons_self _ _)⟩
  exact ⟨recorded_queue htick _, (h.toOrderly.toTidy.tick ht).enqueue⟩

/-- A turn is recorded. -/
theorem passes_turn {run run' : Run α} (h : Steady inputs past m) (hw : run.Watched past [])
    (hm : turn run m = some (run', m')) :
    ∃ past', (Steady inputs past' m' ∧ run'.Watched past' []) ∧
      (run.result? = none → GoesOn run ⟨past, m⟩ run' ⟨past', m'⟩) := by
  unfold turn at hm
  split at hm
  · next next he => exact passes_dispatch h hw (he.trans hm)
  · next he =>
    obtain ⟨t, ht, hm⟩ := Option.bind_eq_some_iff.1 hm
    have hlt := h.toOrderly.clock_lt_nextWake he ht
    have hclock : Moment.Before ⟨past, m⟩ ⟨.other :: .other :: past, m.advanceTo t⟩ :=
      (Moment.before_of_step (.tick t)).trans (Moment.before_of_step (.queue _))
    obtain ⟨past', hsteady, hgoes⟩ := passes_dispatch (h.advanceTo (Nat.le_of_lt hlt))
      (watched_mono hw hclock.subset) hm
    exact ⟨past', hsteady, fun hnone => (hgoes hnone).earlier hnone hclock⟩

theorem steady_turn {run run' : Run α} (h : Steady inputs past m) (hw : run.Watched past [])
    (hm : turn run m = some (run', m')) : ∃ past', Steady inputs past' m' ∧ run'.Watched past' [] := by
  obtain ⟨past', hsteady, -⟩ := passes_turn h hw hm
  exact ⟨past', hsteady⟩

theorem steady_drive (run : Run α) (m : Machine) (h : Steady inputs past m) (hw : run.Watched past []) :
    ∃ past', Steady inputs past' (drive run m).2 := by
  induction run, m using drive.induct generalizing past with
  | case1 run m a hr =>
    rw [drive_of_result hr]
    exact ⟨past, h⟩
  | case2 run m hr run' m' ht ih =>
    rw [drive_of_turn hr ht]
    obtain ⟨past', hsteady, hw'⟩ := steady_turn h hw ht
    exact ih hsteady hw'
  | case3 run m hr ht =>
    rw [drive_of_stuck hr ht]
    exact ⟨past, h⟩

/-- A run that is driven on reaches what it comes to, or the point at which nothing can go on. -/
theorem reaches_of_drive {run : Run α} {r : Option α} (h : Steady inputs past m) (hw : run.Watched past [])
    (hm : drive run m = (r, m')) :
    ∃ past' N, Steady inputs past' m' ∧ run.Reaches [] ⟨past, m⟩ N r ⟨past', m'⟩ := by
  -- along the turns
  induction run, m using drive.induct generalizing past with
  | case1 run m a hr =>
    rw [drive_of_result hr] at hm
    cases hm
    cases run with
    | done b =>
      cases hr
      exact ⟨past, ∅, h, rfl, rfl, rfl⟩
    | _ => cases hr
  | case2 run m hr run' m₁ ht ih =>
    rw [drive_of_turn hr ht] at hm
    obtain ⟨past₁, ⟨hsteady, hw₁⟩, hgoes⟩ := passes_turn h hw ht
    obtain ⟨entered, hgoes⟩ := hgoes hr
    obtain ⟨past', N, hsteady', hrun⟩ := ih hsteady hw₁ hm
    exact ⟨past', entered ∪ N, hsteady', hgoes hrun⟩
  | case3 run m hr ht =>
    rw [drive_of_stuck hr ht] at hm
    cases hm
    exact ⟨past, ∅, h, reaches_waiting hr (.refl _)⟩

/-- **Every run is recorded.** A machine with a history and its queue in order has both after any program has been
run on it, whether the program has come to its end or not. -/
theorem steady_run (p : Prog α) (h : Steady inputs past m) : ∃ past', Steady inputs past' (m.run p).2 := by
  obtain ⟨past', hacts, hw⟩ := acts_start p [] h.history
  exact steady_drive _ _ (h.acts hacts) hw

/-- **A program that has been run has got as far as it does.** -/
theorem reaches_of_run {p : Prog α} {r : Option α} (h : Steady inputs past m) (hm : m.run p = (r, m')) :
    ∃ past' N, Steady inputs past' m' ∧ p.Reaches [] ⟨past, m⟩ N r ⟨past', m'⟩ := by
  obtain ⟨past₁, hpasses⟩ := passes_start p [] h.history
  obtain ⟨past', N, hsteady, hrun⟩ := reaches_of_drive (h.acts hpasses.acts) hpasses.watched hm
  obtain ⟨entered, hreaches⟩ := hpasses.reaches
  exact ⟨past', entered ∪ N, hsteady, hreaches hrun⟩

/-- **A program that has been run has got to its answer as it does.** -/
theorem leads_of_run {p : Prog α} {answer : α} (h : Steady inputs past m) (hm : m.run p = (some answer, m')) :
    ∃ past', Steady inputs past' m' ∧ p.Leads [] ⟨past, m⟩ answer ⟨past', m'⟩ := by
  obtain ⟨past', N, hsteady, hreaches⟩ := reaches_of_run h hm
  exact ⟨past', hsteady, Prog.leads_of_reaches hreaches⟩

end Machine

end MediaQuery
