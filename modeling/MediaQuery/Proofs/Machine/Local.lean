import MediaQuery.Proofs.Machine.Lone
import Mathlib.Tactic.Choose

/-!
# Programs that use what they have been handed

A program is local (`Prog.Local`) if it uses no branches but those that are there and those that are made from them:
whatever branches are taken to be those, as long as they are among them, it keeps to them. Local programs leave only
futures that are local (`Contained`), whatever is run (`local_run`), and what they answer refers to such branches
only.
-/

namespace MediaQuery

open Machine

/-- All branches of a machine are among the given ones. -/
abbrev Machine.Among (m : Machine) (T : Route → Prop) : Prop := ∀ a, (m.node? a).isSome = true → T a

/-- A program uses only branches that are there and those that are made from them, and what it computes is as told
of these. -/
def Prog.Local {α : Type} (m : Machine) (base : Route) (Q : (Route → Prop) → α → Prop) (p : Prog α) : Prop :=
  ∀ T, m.Among T → p.Uses T base (Q T)

/-- The same for a run. -/
def Run.Local {α : Type} (m : Machine) (base : Route) (Q : (Route → Prop) → α → Prop) (run : Run α) : Prop :=
  ∀ T, m.Among T → run.Uses T base (Q T)

section Grows

variable {m m' : Machine} {base : Route} {α : Type} {Q : (Route → Prop) → α → Prop}

theorem Machine.Grows.among {T : Route → Prop} (hg : m.Grows m') (h : m'.Among T) : m.Among T :=
  fun a ha => h a (hg a ha)

/-- A program stays local. -/
theorem Prog.Local.grows {p : Prog α} (h : p.Local m base Q) (hg : m.Grows m') : p.Local m' base Q :=
  fun T hT => h T (hg.among hT)

/-- A run stays local. -/
theorem Run.Local.grows {run : Run α} (h : run.Local m base Q) (hg : m.Grows m') : run.Local m' base Q :=
  fun T hT => h T (hg.among hT)

end Grows

namespace Machine

/-- All futures that run are local. -/
def Contained (m : Machine) : Prop :=
  ∀ f ∈ m.futures, ∀ run, f.state = .running run → run.Local m f.id.home fun _ _ => True

variable {m m' m'' : Machine} {base a : Route} {α : Type} {Q : (Route → Prop) → α → Prop}

theorem contained_start (inputs : Inputs) : Contained (.start inputs) := nofun

/-- What has been done only concerns branches that are there. -/
abbrev Stays (m m' : Machine) : Prop := ∀ T, m'.Among T → Confined T m m'

theorem Stays.grows (h : m.Stays m') : m.Grows m' := (h (fun _ => True) fun _ _ => trivial).grows

theorem Stays.refl (m : Machine) : m.Stays m := fun T _ => .refl T m

theorem Stays.trans (h : m.Stays m') (h' : m'.Stays m'') : m.Stays m'' := fun T hT =>
  (h T (h'.grows.among hT)).trans (h' T hT)

/-- A change that concerns a branch that is there. -/
theorem stays_of_there (ha : (m.node? a).isSome = true) (h : ∀ T : Route → Prop, T a → Confined T m m') : m.Stays m' :=
  fun T hT => h T (hT a ((h (fun _ => True) trivial).grows a ha))

theorem Contained.stays (h : m.Contained) (hs : m.Stays m') : m'.Contained := by
  intro f hf run hrun T hT
  rcases (hs T hT).guests f hf run hrun with ⟨g, hg, hid, hgs⟩ | ⟨-, huses⟩
  · exact hid ▸ h g hg run hgs T (hs.grows.among hT)
  · exact huses

/-- What runs keeps away from branches that are yet to be made. -/
theorem Contained.clear (h : m.Contained) (b : Route) : m.Clear b := by
  intro f hf run hrun i hi
  refine h f hf run hrun _ fun a ha => away_of_there ?_ ha
  rw [← Option.not_isSome_iff_eq_none]
  intro hchild
  obtain ⟨n, hn, hlt⟩ := (Branch.isSome_node?_snoc m.tree b i).1 hchild
  rw [nextChild_of_node? hn] at hi
  omega

/-! ## What local programs use -/

section Uses

variable {β : Type} {n : Nat} {branch : Route} {key : String}

theorem local_act {op : Op β} {next : β → Prog α} (h : (Prog.act op next).Local m base Q) :
    (m.node? (base ++ op.branch)).isSome = true ∧
      ∀ T, m.Among T → ∀ b, op.Makes T base b → (next b).Uses T base (Q T) := by
  constructor
  · cases h _ fun _ ha => ha with
    | act hb _ => exact hb
  · intro T hT
    cases h T hT with
    | act _ hnext => exact hnext

theorem local_sleep {ms : Nat} {next : Prog α} (h : (Prog.sleep ms next).Local m base Q) : next.Local m base Q := by
  intro T hT
  cases h T hT with
  | sleep hnext => exact hnext

theorem local_spawn {future : Prog (Except EvalError Value)} {next : Prog α}
    (h : (Prog.spawn branch key future next).Local m base Q) :
    (m.node? (base ++ branch)).isSome = true ∧ future.Local m (base ++ branch) (fun _ _ => True) ∧
      next.Local m base Q := by
  refine ⟨?_, fun T hT => ?_, fun T hT => ?_⟩
  · cases h _ fun _ ha => ha with
    | spawn hb _ _ => exact hb
  · cases h T hT with
    | spawn _ hfuture _ => exact hfuture
  · cases h T hT with
    | spawn _ _ hnext => exact hnext

theorem local_resolve {next : Except ContextError Value → Prog α} (h : (Prog.resolve branch key next).Local m base Q) :
    (m.node? (base ++ branch)).isSome = true ∧ ∀ r, (next r).Local m base Q := by
  constructor
  · cases h _ fun _ ha => ha with
    | resolve hb _ => exact hb
  · intro r T hT
    cases h T hT with
    | resolve _ hnext => exact hnext r

theorem local_settle {next : Except EvalError Unit → Prog α} (h : (Prog.settle branch next).Local m base Q) :
    (m.node? (base ++ branch)).isSome = true ∧ ∀ r, (next r).Local m base Q := by
  constructor
  · cases h _ fun _ ha => ha with
    | settle hb _ => exact hb
  · intro r T hT
    cases h T hT with
    | settle _ hnext => exact hnext r

/-- What the parts of a program answer depends on the branches, so it is chosen for all of these at once. -/
theorem local_all {parts : Fin n → Prog (Except ExecutionError β)} {next : Except ExecutionError (List β) → Prog α}
    (h : (Prog.all parts next).Local m base Q) : ∃ S : (Route → Prop) → Except ExecutionError β → Prop,
      (∀ i, (parts i).Local m base S) ∧
      (∀ T, m.Among T → ∀ e, S T (.error e) → (next (.error e)).Uses T base (Q T)) ∧
      ∀ T, m.Among T → ∀ values, (∀ v ∈ values, S T (.ok v)) → (next (.ok values)).Uses T base (Q T) := by
  have hinv (T : Route → Prop) (hT : m.Among T) : ∃ S : Except ExecutionError β → Prop,
      (∀ i, (parts i).Uses T base S) ∧ (∀ e, S (.error e) → (next (.error e)).Uses T base (Q T)) ∧
        ∀ values, (∀ v ∈ values, S (.ok v)) → (next (.ok values)).Uses T base (Q T) := by
    cases h T hT with
    | all S hparts he hok => exact ⟨S, hparts, he, hok⟩
  choose! S hparts he hok using hinv
  exact ⟨S, fun i T hT => hparts T hT i, he, hok⟩

theorem local_asleep {wake : Nat} {next : Prog α} (h : (Run.asleep wake next).Local m base Q) :
    next.Local m base Q := by
  intro T hT
  cases h T hT with
  | asleep hnext => exact hnext

theorem local_resolving {generation : Nat} {future : FutureId} {next : Except ContextError Value → Prog α}
    (h : (Run.resolving branch key generation future next).Local m base Q) :
    (m.node? (base ++ branch)).isSome = true ∧ ∀ r, (next r).Local m base Q := by
  constructor
  · cases h _ fun _ ha => ha with
    | resolving hb _ => exact hb
  · intro r T hT
    cases h T hT with
    | resolving _ hnext => exact hnext r

theorem local_waiting {wait : Wait} {next : Except EvalError Unit → Prog α}
    (h : (Run.waiting branch wait next).Local m base Q) :
    (m.node? (base ++ branch)).isSome = true ∧ ∀ r, (next r).Local m base Q := by
  constructor
  · cases h _ fun _ ha => ha with
    | waiting hb _ => exact hb
  · intro r T hT
    cases h T hT with
    | waiting _ hnext => exact hnext r

theorem local_joined {parts : Fin n → Run (Except ExecutionError β)} {next : Except ExecutionError (List β) → Prog α}
    (h : (Run.joined parts next).Local m base Q) : ∃ S : (Route → Prop) → Except ExecutionError β → Prop,
      (∀ i, (parts i).Local m base S) ∧
      (∀ T, m.Among T → ∀ e, S T (.error e) → (next (.error e)).Uses T base (Q T)) ∧
      ∀ T, m.Among T → ∀ values, (∀ v ∈ values, S T (.ok v)) → (next (.ok values)).Uses T base (Q T) := by
  have hinv (T : Route → Prop) (hT : m.Among T) : ∃ S : Except ExecutionError β → Prop,
      (∀ i, (parts i).Uses T base S) ∧ (∀ e, S (.error e) → (next (.error e)).Uses T base (Q T)) ∧
        ∀ values, (∀ v ∈ values, S (.ok v)) → (next (.ok values)).Uses T base (Q T) := by
    cases h T hT with
    | joined S hparts he hok => exact ⟨S, hparts, he, hok⟩
  choose! S hparts he hok using hinv
  exact ⟨S, fun i T hT => hparts T hT i, he, hok⟩

end Uses

/-! ## Starting -/

/-- What a local program leaves: nothing has been done elsewhere, and what is left is local. -/
abbrev LocalRun (base : Route) (Q : (Route → Prop) → α → Prop) (m : Machine) (r : Run α × Machine) : Prop :=
  ∀ T, r.2.Among T → ConfinedRun T base (Q T) m r

theorem LocalRun.stays {r : Run α × Machine} (h : LocalRun base Q m r) : m.Stays r.2 := fun T hT => (h T hT).1

theorem LocalRun.isLocal {r : Run α × Machine} (h : LocalRun base Q m r) : r.1.Local r.2 base Q :=
  fun T hT => (h T hT).2

theorem Stays.andThen {r : Run α × Machine} (h : m.Stays m') (hr : LocalRun base Q m' r) : LocalRun base Q m r :=
  fun T hT => (upheld_confined T).andThen (h T (hr.stays.grows.among hT)) (hr T hT)

/-- What an operation makes is there. -/
theorem makes_of_among {β : Type} {op : Op β} (ha : (m.node? (base ++ op.branch)).isSome = true)
    {T : Route → Prop} (hT : (m.perform base op).2.Among T) : op.Makes T base (m.perform base op).1 := by
  obtain ⟨n, hn⟩ := Option.isSome_iff_exists.1 ha
  cases op with
  | fork branch options =>
    have hn : m.node? (base ++ branch) = some n := hn
    have hposition : (m.perform base (.fork branch options)).1 = n.degree := addChild_position hn
    have hchild := (node?_fork hn options (base ++ branch ++ [n.degree])).trans (by rw [if_neg (by simp), if_pos rfl])
    rw [hposition]
    exact hT _ (Option.isSome_iff_exists.2 ⟨_, hchild⟩)
  | openSession branch inputs =>
    have hn : m.node? (base ++ branch) = some n := hn
    have hposition : (m.perform base (.openSession branch inputs)).1 = n.degree := addChild_position hn
    have hchild := (node?_open hn inputs (base ++ branch ++ [n.degree])).trans (by rw [if_neg (by simp), if_pos rfl])
    rw [hposition]
    exact hT _ (Option.isSome_iff_exists.2 ⟨_, hchild⟩)
  | _ => trivial

theorem makes_all {β : Type} (op : Op β) (base : Route) (b : β) : op.Makes (fun _ => True) base b := by
  cases op <;> trivial

theorem stays_perform {β : Type} {op : Op β} (ha : (m.node? (base ++ op.branch)).isSome = true) :
    m.Stays (m.perform base op).2 := by
  have hall : Confined (fun _ => True) m (m.perform base op).2 := confined_perform trivial (makes_all op base _)
  exact fun T hT => confined_perform (hT _ (hall.grows _ ha)) (makes_of_among ha hT)

section Sweep

variable {β : Type} {n : Nat} {S : (Route → Prop) → Except ExecutionError β → Prop}
  {advance : Fin n → Machine → Run (Except ExecutionError β) × Machine}

theorem local_sweep (h : ∀ i m', m.Grows m' → LocalRun base S m' (advance i m')) (is : List (Fin n)) :
    m.Stays (sweep advance is m).2 ∧ SweepHolds (Run.Local (sweep advance is m).2 base S) (sweep advance is m).1 := by
  refine sweep_keeps (I := m.Grows) (P := fun m' run => run.Local m' base S) (fun _ => .refl _) .trans
    (fun hg hs a ha => hs.grows a (hg a ha)) (fun hs hrun T hT => hrun T (hs.grows.among hT)) is
    (fun i _ m' hg => ?_) fun _ ha => ha
  exact ⟨(h i m' hg).stays, (h i m' hg).isLocal⟩

theorem local_afterSweep {next : Except ExecutionError (List β) → Prog α}
    (h : ∀ i m', m.Grows m' → LocalRun base S m' (advance i m'))
    (he : ∀ T, m.Among T → ∀ e, S T (.error e) → (next (.error e)).Uses T base (Q T))
    (hok : ∀ T, m.Among T → ∀ values, (∀ v ∈ values, S T (.ok v)) → (next (.ok values)).Uses T base (Q T))
    (hstart : ∀ r m', (next r).Local m' base Q → LocalRun base Q m' ((next r).start base m')) :
    LocalRun base Q m (afterSweep base next (sweep advance (List.finRange n) m)) := by
  obtain ⟨hstays, hlocal⟩ := local_sweep h (List.finRange n)
  have hgrows := hstays.grows
  refine afterSweep_cases hlocal (fun e hS => ?_) (fun values hS => ?_) fun runs hlocal _ => ?_
  · exact hstays.andThen (hstart _ _ fun T hT => he T (hgrows.among hT) e (uses_done.1 (hS T hT)))
  · exact hstays.andThen (hstart _ _ fun T hT =>
      hok T (hgrows.among hT) values fun v hv => uses_done.1 (hS v hv T hT))
  · exact fun T hT => ⟨hstays T hT, .joined (S T) (fun i => hlocal _ (List.get_mem runs i) T hT)
      (he T (hgrows.among hT)) (hok T (hgrows.among hT))⟩

end Sweep

/-- A future that is started on a branch that is there. -/
theorem stays_spawn {branch : Route} {future : Prog (Except EvalError Value)}
    (ha : (m.node? (base ++ branch)).isSome = true) (key : String)
    (hf : future.Local m (base ++ branch) fun _ _ => True) : m.Stays (m.spawn (base ++ branch) key future) := by
  have hgrows : m.Grows (m.spawn (base ++ branch) key future) := fun b hb => by
    rw [node?_spawn ha, isSome_node?_modifyStore]
    exact hb
  intro T hT
  have hamong := hgrows.among hT
  exact confined_spawn m (hamong _ ha) key (hf T hamong)

/-- **A local program leaves what is local.** -/
theorem local_start {p : Prog α} (h : p.Local m base Q) : LocalRun base Q m (p.start base m) := by
  induction p generalizing m with
  | done a =>
    intro T hT
    cases h T hT with
    | done hQ => exact ⟨.refl T m, .done hQ⟩
  | act op next ih =>
    obtain ⟨hthere, hnext⟩ := local_act h
    have hstays := stays_perform hthere
    exact hstays.andThen (ih _ fun T hT => hnext T (hstays.grows.among hT) _ (makes_of_among hthere hT))
  | sleep ms next ih =>
    have hnext := local_sleep h
    unfold Prog.start
    split
    · exact ih hnext
    · exact fun T hT => ⟨.refl T m, .asleep (hnext T hT)⟩
  | spawn branch key future next _ ih =>
    obtain ⟨hthere, hfuture, hnext⟩ := local_spawn h
    have hstays := stays_spawn hthere key hfuture
    exact hstays.andThen (ih (hnext.grows hstays.grows))
  | resolve branch key next ih =>
    obtain ⟨hthere, hnext⟩ := local_resolve h
    have hsettle (generation : Nat) (value : Option Value) :=
      stays_of_there hthere fun T ha => confined_modifyStore m ha fun s => s.settle key generation value
    unfold Prog.start
    split
    · exact ih _ (hnext _)
    · exact ih _ (hnext _)
    · split
      · exact fun T hT => ⟨.refl T m, .resolving (hT _ hthere) fun r => hnext r T hT⟩
      · exact (hsettle _ _).andThen (ih _ ((hnext _).grows (hsettle _ _).grows))
      · exact (hsettle _ _).andThen (ih _ ((hnext _).grows (hsettle _ _).grows))
  | settle branch next ih =>
    obtain ⟨hthere, hnext⟩ := local_settle h
    have hwait := stays_of_there hthere fun T ha => confined_waitFutures m ha [] none
    unfold Prog.start
    split
    · next he =>
      rw [he] at hwait
      exact fun T hT => ⟨hwait T hT, .waiting (hT _ (hwait.grows _ hthere)) fun r => (hnext r).grows hwait.grows T hT⟩
    · next he =>
      rw [he] at hwait
      exact hwait.andThen (ih _ ((hnext _).grows hwait.grows))
  | all parts next ihparts ih =>
    obtain ⟨S, hparts, he, hok⟩ := local_all h
    rw [start_all]
    exact local_afterSweep (fun i m' hg => ihparts i ((hparts i).grows hg)) he hok fun r m' hnext => ih r hnext

/-- A local run that is taken on leaves what is local. -/
theorem local_resume {run : Run α} (h : run.Local m base Q) : LocalRun base Q m (run.resume base m) := by
  induction run generalizing m with
  | done a => exact fun T hT => ⟨.refl T m, h T hT⟩
  | asleep wake next =>
    unfold Run.resume
    split
    · exact local_start (local_asleep h)
    · exact fun T hT => ⟨.refl T m, h T hT⟩
  | resolving branch key generation future next =>
    obtain ⟨hthere, hnext⟩ := local_resolving h
    have hsettle (value : Option Value) :=
      stays_of_there hthere fun T ha => confined_modifyStore m ha fun s => s.settle key generation value
    unfold Run.resume
    split
    · exact fun T hT => ⟨.refl T m, h T hT⟩
    · exact (hsettle _).andThen (local_start ((hnext _).grows (hsettle _).grows))
    · exact (hsettle _).andThen (local_start ((hnext _).grows (hsettle _).grows))
  | waiting branch wait next =>
    obtain ⟨hthere, hnext⟩ := local_waiting h
    have hwait := stays_of_there hthere fun T ha => confined_wait m ha wait
    unfold Run.resume
    split
    · next he =>
      rw [he] at hwait
      exact fun T hT => ⟨hwait T hT, .waiting (hT _ (hwait.grows _ hthere)) fun r => (hnext r).grows hwait.grows T hT⟩
    · next he =>
      rw [he] at hwait
      exact hwait.andThen (local_start ((hnext _).grows hwait.grows))
  | joined parts next ih =>
    obtain ⟨S, hparts, he, hok⟩ := local_joined h
    rw [resume_joined]
    exact local_afterSweep (fun i m' hg => ih i ((hparts i).grows hg)) he hok fun r m' hnext => local_start hnext

/-! ## Running -/

variable {inputs : Inputs} {past : List Event}

/-- A local future that is taken on. -/
theorem stays_takeOn {f : Future} {run : Run (Except EvalError Value)} (ha : (m.node? f.id.home).isSome = true)
    (hr : run.Local m f.id.home fun _ _ => True) : m.Stays (m.takeOn f run) := by
  have hbusy : m.Stays (m.setFuture f.id .busy) := stays_of_there ha fun T ha => confined_setFuture m ha nofun
  have hresume := local_resume (Run.Local.grows hr hbusy.grows)
  have hthere := hresume.stays.grows _ (hbusy.grows _ ha)
  refine (hbusy.trans hresume.stays).trans fun T hT => ?_
  have hkeep (T : Route → Prop) (hT : ((run.resume f.id.home (m.setFuture f.id .busy)).2).Among T) :
      Confined T (run.resume f.id.home (m.setFuture f.id .busy)).2 (m.takeOn f run) :=
    confined_keep _ (hT _ hthere) (hresume.isLocal T hT)
  have hgrows := (hkeep (fun _ => True) fun _ _ => trivial).grows
  exact hkeep T (hgrows.among hT)

theorem Contained.runQueue (h : m.Contained) (hs : Steady inputs past m) {id : FutureId} {rest : List FutureId}
    (hr : m.ready = id :: rest) (hm : runQueue m.ready m = some m') : m'.Contained ∧ m.Grows m' := by
  obtain ⟨f, run, m₁, hf, hstate, -, hrun, hq⟩ := hs.toOrderly.runQueue_of_head hr
  cases hm.symm.trans hq
  have hmem := List.mem_of_find?_eq_some hf
  have htail : Contained { m with ready := rest } := h
  have hstays := stays_takeOn (m := { m with ready := rest }) (there_of_mem hs.history hmem) (h f hmem run hstate)
  have hkept := htail.stays hstays
  rw [runFuture_eq hstate hrun]
  exact ⟨hkept, hstays.grows⟩

theorem Contained.dispatch {main main' : Run α} (h : m.Contained) (hs : Steady inputs past m)
    (hl : main.Local m [] Q) (hd : dispatch main m = some (main', m')) : m'.Contained ∧ main'.Local m' [] Q := by
  cases hr : m.ready with
  | cons id rest =>
    obtain ⟨f, run, m₁, -, -, -, -, hq⟩ := hs.toOrderly.runQueue_of_head hr
    unfold Machine.dispatch at hd
    rw [hq] at hd
    cases hd
    obtain ⟨hcontained, hgrows⟩ := h.runQueue hs hr hq
    exact ⟨hcontained, Run.Local.grows hl hgrows⟩
  | nil =>
    rw [dispatch_of_empty hr] at hd
    split at hd
    · have hresume := local_resume hl
      rw [Option.some.inj hd] at hresume
      exact ⟨h.stays hresume.stays, hresume.isLocal⟩
    · cases hd

theorem Contained.turn {main main' : Run α} (h : m.Contained) (hs : Steady inputs past m)
    (hl : main.Local m [] Q) (ht : turn main m = some (main', m')) : m'.Contained ∧ main'.Local m' [] Q := by
  cases hd : Machine.dispatch main m with
  | some next =>
    rw [turn_of_dispatch hd] at ht
    cases ht
    exact h.dispatch hs hl hd
  | none =>
    rw [turn_of_idle hd] at ht
    obtain ⟨t, hw, hd'⟩ := Option.bind_eq_some_iff.1 ht
    have hlt := hs.toOrderly.clock_lt_nextWake hd hw
    have hlater : Contained (m.advanceTo t) := h
    exact hlater.dispatch (hs.advanceTo (Nat.le_of_lt hlt)) hl hd'

theorem Contained.drive {main : Run α} (h : m.Contained) (hs : Steady inputs past m) (hw : main.Watched past [])
    (hl : main.Local m [] Q) : (drive main m).2.Contained ∧
      ∀ a, (Machine.drive main m).1 = some a → ∀ T, (Machine.drive main m).2.Among T → Q T a := by
  induction main, m using Machine.drive.induct generalizing past with
  | case1 main m a hr =>
    rw [drive_of_result hr]
    refine ⟨h, fun a' heq T hT => ?_⟩
    cases heq
    cases main with
    | done a =>
      cases hr
      cases hl T hT with
      | done hQ => exact hQ
    | _ => cases hr
  | case2 main m hr main' m' ht ih =>
    rw [drive_of_turn hr ht]
    obtain ⟨past', hs', hw'⟩ := steady_turn hs hw ht
    obtain ⟨hcontained, hl'⟩ := h.turn hs hl ht
    exact ih hcontained hs' hw' hl'
  | case3 main m hr ht =>
    rw [drive_of_stuck hr ht]
    exact ⟨h, fun a heq => by cases heq⟩

/-- **A local program that is run leaves futures that are local**, and its answer is as told of the branches that are
there afterwards. -/
theorem Contained.run {p : Prog α} (h : m.Contained) (hs : Steady inputs past m) (hp : p.Local m [] Q) :
    (m.run p).2.Contained ∧ ∀ a, (m.run p).1 = some a → ∀ T, (m.run p).2.Among T → Q T a := by
  obtain ⟨past', hacts, hw⟩ := acts_start p [] hs.history
  have hstart := local_start hp
  exact (h.stays hstart.stays).drive (hs.acts hacts) hw hstart.isLocal

end Machine

end MediaQuery
