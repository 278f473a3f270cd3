import MediaQuery.Proofs.Machine.MirrorRun
import MediaQuery.Proofs.Program.Uses

/-!
# Relations that programs uphold

Much of what is known of a machine and a later one is known because every little step keeps it up: an operation, a new
value, a new future. Such a relation is upheld by all programs that use some branches only (`Upheld`), whatever they are
put together from: starting a program (`Upheld.start`), taking one on (`Upheld.resume`) and taking a future on
(`Upheld.takeOn`). Branches above those used may get new children, so that the branches used have to be such that no new
child falls out of them (`Settled`).
-/

namespace MediaQuery.Machine

variable {T : Route → Prop} {R : Machine → Machine → Prop} {m m' m'' : Machine} {a base place : Route}

/-! ## Branches that are there -/

/-- The position of the next child of a branch. -/
def nextChild (m : Machine) (a : Route) : Nat := ((m.branch? a).map fun b => b.children.length).getD 0

theorem nextChild_of_node? {n : Node} (h : m.node? a = some n) : m.nextChild a = n.degree := by
  obtain ⟨c, hc, rfl⟩ := Option.map_eq_some_iff.1 h
  unfold nextChild branch?
  rw [hc]
  rfl

/-- No branch goes away. -/
def Grows (m m' : Machine) : Prop := ∀ a, (m.node? a).isSome = true → (m'.node? a).isSome = true

/-- From now on no new child of some branches falls out of them. -/
def Settled (T : Route → Prop) (m : Machine) : Prop :=
  ∀ m', m.Grows m' → ∀ a, T a → T (a ++ [m'.nextChild a])

theorem Settled.grows (h : m.Settled T) (hg : m.Grows m') : m'.Settled T :=
  fun m'' hg' => h m'' fun a ha => hg' a (hg a ha)

theorem settled_of_closed (h : ∀ x i, T x → T (x ++ [i])) (m : Machine) : m.Settled T := fun _ _ a ha => h a _ ha

theorem settled_below (place : Route) (m : Machine) : m.Settled (place <+: ·) :=
  settled_of_closed (fun _ _ h => h.trans (List.prefix_append _ _)) m

/-- Once a branch is there, no new child of the other branches is that branch. -/
theorem settled_away (h : (m.node? place).isSome = true) : m.Settled fun x => ¬ place <+: x := by
  intro m' hg a ha hchild
  rcases List.prefix_concat_iff.1 hchild with heq | hprefix
  · have hplace := hg _ h
    rw [heq] at hplace
    obtain ⟨n, hn, hlt⟩ := (Branch.isSome_node?_snoc m'.tree a _).1 hplace
    rw [nextChild_of_node? hn] at hlt
    exact Nat.lt_irrefl _ hlt
  · exact ha hprefix

theorem makes_of_settled {α : Type} {op : Op α} (hb : T (base ++ op.branch)) (hT : m.Settled T) :
    op.Makes T base (m.perform base op).1 := by
  cases op with
  | fork branch options => exact hT m (fun _ h => h) _ hb
  | openSession branch inputs => exact hT m (fun _ h => h) _ hb
  | _ => trivial

/-! ## Little steps -/

/-- A relation between a machine and a later one that holds of every little step about some branches. -/
structure Upheld (T : Route → Prop) (R : Machine → Machine → Prop) : Prop where
  refl : ∀ m, R m m
  trans : ∀ {m m' m'' : Machine}, R m m' → R m' m'' → R m m''
  grows : ∀ {m m' : Machine}, R m m' → m.Grows m'
  perform : ∀ {m : Machine} {base : Route} {α : Type} {op : Op α}, T (base ++ op.branch) →
    op.Makes T base (m.perform base op).1 → R m (m.perform base op).2
  spawn : ∀ (m : Machine) {a : Route}, T a → ∀ (key : String) {p : Prog (Except EvalError Value)},
    p.Uses T a (fun _ => True) → R m (m.spawn a key p)
  modifyStore : ∀ (m : Machine) {a : Route}, T a → ∀ f : Store → Store, R m (m.modifyStore a f)
  markAwaited : ∀ (m : Machine) {a : Route}, T a → R m (m.markAwaited a)
  setFuture : ∀ (m : Machine) {id : FutureId}, T id.home → ∀ {state : FutureState},
    (∀ run, state = .running run → run.Uses T id.home fun _ => True) → R m (m.setFuture id state)

/-- Taking a future on, without seeing what else has become ready. -/
abbrev takeOn (m : Machine) (f : Future) (run : Run (Except EvalError Value)) : Machine :=
  (run.resume f.id.home (m.setFuture f.id .busy)).2.keep f (run.resume f.id.home (m.setFuture f.id .busy)).1

/-- What is taken on is a future that runs. -/
theorem running_of_runFuture {f : Future} (h : m.runFuture f = some m') :
    ∃ run, f.state = .running run ∧ m' = (m.takeOn f run).enqueue := by
  unfold runFuture at h
  split at h
  · next run hrun =>
    dsimp only at h
    split at h
    · exact ⟨run, hrun, (Option.some.inj h).symm⟩
    · cases h
  · cases h

theorem takeOn_of_runFuture {f : Future} (h : m.runFuture f = some m') : ∃ run, m' = (m.takeOn f run).enqueue := by
  obtain ⟨run, -, hm'⟩ := running_of_runFuture h
  exact ⟨run, hm'⟩

/-- What a program leaves that uses some branches only, where a relation is upheld. -/
abbrev Left (R : Machine → Machine → Prop) (T : Route → Prop) (base : Route) {α : Type} (Q : α → Prop) (m : Machine)
    (r : Run α × Machine) : Prop := R m r.2 ∧ r.1.Uses T base Q

theorem uses_done {α : Type} {Q : α → Prop} {v : α} : (Run.done v).Uses T base Q ↔ Q v := by
  refine ⟨fun h => ?_, .done⟩
  cases h with
  | done h => exact h

namespace Upheld

variable (h : Upheld T R)
include h

theorem andThen {α : Type} {Q : α → Prop} {r : Run α × Machine} (hm : R m m') (hr : Left R T base Q m' r) :
    Left R T base Q m r := ⟨h.trans hm hr.1, hr.2⟩

/-- Waiting for one of the branches. -/
theorem endured (ha : T a) : Endured a R where
  refl := h.refl
  trans := h.trans
  modifyStore m := h.modifyStore m ha
  markAwaited m := h.markAwaited m ha

/-! ## Programs side by side -/

section Sweep

variable {β : Type} {n : Nat} {S : Except ExecutionError β → Prop}
  {advance : Fin n → Machine → Run (Except ExecutionError β) × Machine}

theorem sweep (is : List (Fin n)) (hadvance : ∀ i ∈ is, ∀ m, m.Settled T → Left R T base S m (advance i m))
    (hT : m.Settled T) : R m (sweep advance is m).2 ∧ SweepHolds (Run.Uses T base S) (sweep advance is m).1 :=
  sweep_keeps (P := fun _ => Run.Uses T base S) (fun _ => h.refl _) h.trans (fun hT hm => hT.grows (h.grows hm))
    (fun _ huses => huses) is hadvance hT

theorem afterSweep {α : Type} {Q : α → Prop} {next : Except ExecutionError (List β) → Prog α}
    (hadvance : ∀ i m, m.Settled T → Left R T base S m (advance i m))
    (he : ∀ e, S (.error e) → (next (.error e)).Uses T base Q)
    (hok : ∀ values, (∀ v ∈ values, S (.ok v)) → (next (.ok values)).Uses T base Q)
    (hstart : ∀ e, S (.error e) → ∀ m, m.Settled T → Left R T base Q m ((next (.error e)).start base m))
    (hstart' : ∀ values, (∀ v ∈ values, S (.ok v)) → ∀ m, m.Settled T →
      Left R T base Q m ((next (.ok values)).start base m))
    (hT : m.Settled T) :
    Left R T base Q m (afterSweep base next (MediaQuery.sweep advance (List.finRange n) m)) := by
  obtain ⟨hsweep, huses⟩ := h.sweep (List.finRange n) (fun i _ => hadvance i) hT
  have hT' := hT.grows (h.grows hsweep)
  refine afterSweep_cases huses (fun e hS => ?_) (fun values hS => ?_) fun runs huses _ => ?_
  · exact h.andThen hsweep (hstart e (uses_done.1 hS) _ hT')
  · exact h.andThen hsweep (hstart' values (fun v hv => uses_done.1 (hS v hv)) _ hT')
  · exact ⟨hsweep, .joined S (fun i => huses _ (List.get_mem runs i)) he hok⟩

end Sweep

/-! ## Programs -/

variable {α : Type} {Q : α → Prop}

/-- **Starting a program that uses some branches only.** -/
theorem start {p : Prog α} (hp : p.Uses T base Q) (hT : m.Settled T) : Left R T base Q m (p.start base m) := by
  induction hp generalizing m with
  | done hQ => exact ⟨h.refl m, .done hQ⟩
  | @act base α β Q op next hb _ ih =>
    have hmakes := makes_of_settled hb hT
    have hop := h.perform hb hmakes
    exact h.andThen hop (ih _ hmakes (hT.grows (h.grows hop)))
  | sleep hp ih =>
    unfold Prog.start
    split
    · exact ih hT
    · exact ⟨h.refl m, .asleep hp⟩
  | @spawn base branch α Q key future next hb hfuture _ _ ih =>
    have hspawn := h.spawn m hb key hfuture
    exact h.andThen hspawn (ih (hT.grows (h.grows hspawn)))
  | @resolve base branch α Q key next hb hp ih =>
    have hsettle (generation : Nat) (value : Option Value) :=
      h.modifyStore m hb fun s => s.settle key generation value
    unfold Prog.start
    split
    · exact ih _ hT
    · exact ih _ hT
    · split
      · exact ⟨h.refl m, .resolving hb hp⟩
      · exact h.andThen (hsettle _ _) (ih _ (hT.grows (h.grows (hsettle _ _))))
      · exact h.andThen (hsettle _ _) (ih _ (hT.grows (h.grows (hsettle _ _))))
  | @settle base branch α Q next hb hp ih =>
    have hwait := (h.endured hb).waitFutures m [] none
    unfold Prog.start
    split
    · next he =>
      rw [he] at hwait
      exact ⟨hwait, .waiting hb hp⟩
    · next he =>
      rw [he] at hwait
      exact h.andThen hwait (ih _ (hT.grows (h.grows hwait)))
  | @all base α β n Q S parts next _ he hok ihparts ihe ihok =>
    rw [start_all]
    exact h.afterSweep (fun i m hT => ihparts i hT) he hok (fun e hS m hT => ihe e hS hT)
      (fun values hS m hT => ihok values hS hT) hT

/-- **Taking on a run that uses some branches only.** -/
theorem resume {run : Run α} (hr : run.Uses T base Q) (hT : m.Settled T) : Left R T base Q m (run.resume base m) := by
  induction hr generalizing m with
  | done hQ => exact ⟨h.refl m, .done hQ⟩
  | asleep hp =>
    unfold Run.resume
    split
    · exact h.start hp hT
    · exact ⟨h.refl m, .asleep hp⟩
  | @resolving branch α Q key generation future next hb hp =>
    have hsettle (value : Option Value) := h.modifyStore m hb fun s => s.settle key generation value
    unfold Run.resume
    split
    · exact ⟨h.refl m, .resolving hb hp⟩
    · exact h.andThen (hsettle _) (h.start (hp _) (hT.grows (h.grows (hsettle _))))
    · exact h.andThen (hsettle _) (h.start (hp _) (hT.grows (h.grows (hsettle _))))
  | @waiting branch α Q wait next hb hp =>
    have hwait := (h.endured hb).wait m wait
    unfold Run.resume
    split
    · next he =>
      rw [he] at hwait
      exact ⟨hwait, .waiting hb hp⟩
    · next he =>
      rw [he] at hwait
      exact h.andThen hwait (h.start (hp _) (hT.grows (h.grows hwait)))
  | @joined α β n Q S parts next _ he hok ih =>
    rw [resume_joined]
    exact h.afterSweep (fun i m hT => ih i hT) he hok (fun e hS m hT => h.start (he e hS) hT)
      (fun values hS m hT => h.start (hok values hS) hT) hT

/-! ## Futures -/

/-- A future that is put back, or ends. -/
theorem keep (m : Machine) {f : Future} (ha : T f.id.home) {run : Run (Except EvalError Value)}
    (hr : run.Uses T f.id.home fun _ => True) : R m (m.keep f run) := by
  have hput : R m (m.setFuture f.id (.running run)) := h.setFuture m ha fun run' heq => by cases heq; exact hr
  have hend (m : Machine) (result : Except EvalError Value) (report : Except EvalError Unit) :
      R m (m.setFuture f.id (.ended result report)) := h.setFuture m ha nofun
  cases run with
  | done result =>
    cases result with
    | error e => exact hend m _ _
    | ok v =>
      simp only [Machine.keep, complete]
      split
      · exact h.trans (h.modifyStore m ha _) (hend _ _ _)
      · exact hend m _ _
  | _ => exact hput

/-- **Taking a future on**, without seeing what else has become ready. -/
theorem takeOn {f : Future} {run : Run (Except EvalError Value)} (hT : m.Settled T) (ha : T f.id.home)
    (hr : run.Uses T f.id.home fun _ => True) : R m (m.takeOn f run) := by
  have hbusy : R m (m.setFuture f.id .busy) := h.setFuture m ha nofun
  obtain ⟨hresume, huses⟩ := h.resume hr (hT.grows (h.grows hbusy))
  exact h.trans (h.trans hbusy hresume) (h.keep _ ha huses)

end Upheld

end MediaQuery.Machine
