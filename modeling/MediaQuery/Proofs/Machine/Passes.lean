import MediaQuery.Proofs.Machine.Acts
import MediaQuery.Proofs.Machine.Reached

/-!
# What is carried out at once

A program that is started, and a run that is taken on, act until they have to wait (`Passes`). What they reach from then
on, they reach (`passes_start`, `passes_resume`). A sweep leaves runs that go on with its parts, or the failure of one of
them (`SweepLeaves`).
-/

namespace MediaQuery

namespace Machine

variable {inputs : Inputs} {past past' : List Event} {m m' : Machine} {α : Type}

/-! ## Programs -/

/-- A reference that has been met gives way to its outcome. -/
theorem acts_settled (h : History inputs past m) {a : Route} {key : String} {generation : Nat} {id : FutureId}
    (hmet : .met a (key, generation, id) ∈ past) (hr : (m.outcome id).isRunning = false) :
    Acts inputs past m (.settled a (key, generation, id) :: past)
      (m.modifyStore a (·.settle key generation (m.outcome id).value?)) :=
  .quiet h (.settle hmet hr) rfl rfl rfl

/-- A program or a run has been taken as far as it goes, and has acted. What it is said to reach includes whatever
the run reaches that is left, and what has been entered before. -/
structure Passes (inputs : Inputs) (base : Route) (past : List Event) (m : Machine)
    (reaches : Set Note → Option α → Moment → Prop) (result : Run α × Machine) (past' : List Event) : Prop where
  acts : Acts inputs past m past' result.2
  watched : result.1.Watched past' base
  reaches : ∃ entered, ∀ {N r y}, result.1.Reaches base ⟨past', result.2⟩ N r y → reaches (entered ∪ N) r y

/-- What is left as it is. -/
theorem passes_self {run : Run α} {base : Route} {reaches : Set Note → Option α → Moment → Prop}
    (hacts : Acts inputs past m past' m') (hw : run.Watched past' base)
    (hreaches : ∀ {N r y}, run.Reaches base ⟨past', m'⟩ N r y → reaches N r y) :
    ∃ past', Passes inputs base past m reaches (run, m') past' := by
  refine ⟨past', hacts, hw, ∅, fun {N r y} hrun => ?_⟩
  rw [Set.empty_union]
  exact hreaches hrun

section Sweep

variable {β : Type} {n : Nat} {base : Route} {past₁ : List Event} {m₁ : Machine}
  {reaches reaches' : Set Note → Option α → Moment → Prop}

/-- What comes after something that enters some of it comes after all that was before it. -/
theorem Acts.passesOn {result : Run α × Machine} (h : Acts inputs past m past₁ m₁)
    (hnext : ∃ past', Passes inputs base past₁ m₁ reaches result past') (entered : Set Note)
    (hreaches : ∀ {N r y}, reaches N r y → reaches' (entered ∪ N) r y) :
    ∃ past', Passes inputs base past m reaches' result past' := by
  obtain ⟨past', hpasses⟩ := hnext
  obtain ⟨entered', hpassed⟩ := hpasses.reaches
  refine ⟨past', h.trans hpasses.acts, hpasses.watched, entered ∪ entered', fun hrun => ?_⟩
  rw [Set.union_assoc]
  exact hreaches (hpassed hrun)

/-- What comes after something that enters nothing. -/
theorem Acts.passes {result : Run α × Machine} (h : Acts inputs past m past₁ m₁)
    (hnext : ∃ past', Passes inputs base past₁ m₁ reaches result past')
    (hreaches : ∀ {N r y}, reaches N r y → reaches' N r y) :
    ∃ past', Passes inputs base past m reaches' result past' := by
  refine h.passesOn hnext ∅ fun hr => ?_
  rw [Set.empty_union]
  exact hreaches hr

variable {part : Fin n → Stretch (Except ExecutionError β)}

/-- What a sweep leaves at the second moment that has begun at the first: runs that go on with its parts, or the failure
of one of them, and how far the others have got by then. -/
def SweepLeaves (base : Route) (part : Fin n → Stretch (Except ExecutionError β)) (is : List (Fin n)) (x y : Moment) :
    Except ExecutionError (List (Run (Except ExecutionError β))) → Prop
  | .ok runs => List.Forall₂ (fun i run => run.Watched y.past base ∧ ∃ entered, ∀ N r z,
      (y.Meanwhile z fun x y => run.Reaches base x N r y) → x.Meanwhile z fun x y => part i x (entered ∪ N) r y) is runs
  | .error e => (∀ i ∈ is, ∃ N r, x.Meanwhile y fun x y => part i x N r y) ∧
      ∃ i ∈ is, ∃ N, x.Meanwhile y fun x y => part i x N (some (.error e)) y

theorem passes_sweep (part : Fin n → Stretch (Except ExecutionError β))
    {advance : Fin n → Machine → Run (Except ExecutionError β) × Machine} {P : Fin n → List Event → Prop}
    (hmono : ∀ {i past past'}, P i past → past ⊆ past' → P i past')
    (hadvance : ∀ {i past m}, History inputs past m → P i past →
      ∃ past', Passes inputs base past m (part i ⟨past, m⟩) (advance i m) past')
    (hpart : ∀ {i} {x y : Moment}, x.Before y → ∃ r, x.Meanwhile y fun x y => part i x ∅ r y)
    (is : List (Fin n)) (h : History inputs past m) (hP : ∀ i ∈ is, P i past) :
    ∃ past', Acts inputs past m past' (sweep advance is m).2 ∧
      SweepLeaves base part is ⟨past, m⟩ ⟨past', (sweep advance is m).2⟩ (sweep advance is m).1 := by
  induction is generalizing past m with
  | nil => exact ⟨past, .refl h, .nil⟩
  | cons i rest ih =>
    obtain ⟨past₁, hpasses⟩ := hadvance h (hP i List.mem_cons_self)
    obtain ⟨entered, hreaches⟩ := hpasses.reaches
    by_cases hi : ∃ e, (advance i m).1 = .done (.error e)
    · obtain ⟨e, he⟩ := hi
      rw [sweep_of_error he]
      have hfailed : Moment.Meanwhile ⟨past, m⟩ ⟨past₁, (advance i m).2⟩ fun x y =>
          part i x (entered ∪ ∅) (some (.error e)) y := by
        refine ⟨_, _, .refl _, hreaches ?_, .refl _⟩
        rw [he]
        exact ⟨rfl, rfl, rfl⟩
      refine ⟨past₁, hpasses.acts, List.forall_mem_cons.2 ⟨⟨_, _, hfailed⟩, fun j _ => ⟨∅, hpart hpasses.acts.steps⟩⟩,
        i, List.mem_cons_self, _, hfailed⟩
    · rw [not_exists] at hi
      obtain ⟨past₂, hacts, hswept⟩ := ih hpasses.acts.history fun j hj =>
        hmono (hP j (List.mem_cons_of_mem _ hj)) hpasses.acts.subset
      have hfirst {N : Set Note} {r : Option (Except ExecutionError β)} {z : Moment}
          (hrun : Moment.Meanwhile ⟨past₂, (sweep advance rest (advance i m).2).2⟩ z fun x y =>
            (advance i m).1.Reaches base x N r y) :
          Moment.Meanwhile ⟨past, m⟩ z fun x y => part i x (entered ∪ N) r y := by
        obtain ⟨y, hrun, hafter⟩ := reaches_of_meanwhile hacts.steps hrun
        exact ⟨_, y, .refl _, hreaches hrun, hafter⟩
      rw [sweep_of_ne_error hi]
      refine ⟨past₂, hpasses.acts.trans hacts, ?_⟩
      cases hs : (sweep advance rest (advance i m).2).1 with
      | error e =>
        rw [hs] at hswept
        obtain ⟨hall, j, hj, N, hfailed⟩ := hswept
        obtain ⟨r, hrun⟩ : ∃ r, Moment.Meanwhile ⟨past₂, (sweep advance rest (advance i m).2).2⟩ _ fun x y =>
            (advance i m).1.Reaches base x ∅ r y := exists_reaches (advance i m).1 (.refl _)
        exact ⟨List.forall_mem_cons.2 ⟨⟨_, r, hfirst hrun⟩, fun k hk =>
            (hall k hk).imp fun _ => Exists.imp fun _ hk => hk.earlier hpasses.acts.steps⟩,
          j, List.mem_cons_of_mem _ hj, N, hfailed.earlier hpasses.acts.steps⟩
      | ok runs =>
        rw [hs] at hswept
        refine .cons ⟨watched_mono hpasses.watched hacts.subset, entered, fun N r z => hfirst⟩ (hswept.imp ?_)
        rintro j run ⟨hw, entered', hj⟩
        exact ⟨hw, entered', fun N r z hmeanwhile => (hj N r z hmeanwhile).earlier hpasses.acts.steps⟩

/-- What has been entered before by the parts of which a sweep has left runs. -/
theorem exists_entered {x y : Moment} {runs : List (Run (Except ExecutionError β))}
    (hswept : SweepLeaves base part (List.finRange n) x y (.ok runs)) : ∃ (hsize : runs.length = n)
      (entered : Fin n → Set Note), ∀ i N r z,
        (y.Meanwhile z fun x y => (runs.get (i.cast hsize.symm)).Reaches base x N r y) →
          x.Meanwhile z fun x y => part i x (entered i ∪ N) r y := by
  have hsize : runs.length = n := hswept.length_eq.symm.trans List.length_finRange
  have hpart (i : Fin n) : ∃ entered, ∀ N r z,
      (y.Meanwhile z fun x y => (runs.get (i.cast hsize.symm)).Reaches base x N r y) →
        x.Meanwhile z fun x y => part i x (entered ∪ N) r y := by
    have hrun := hswept.get (i := i) (by simp) (by simp [hsize])
    simp only [List.get_eq_getElem, List.getElem_finRange] at hrun
    exact hrun.2
  choose entered hentered using hpart
  exact ⟨hsize, entered, hentered⟩

/-- How far programs side by side have got, and what comes after them. -/
def ReachesAll (base : Route) (part : Fin n → Stretch (Except ExecutionError β))
    (next : Except ExecutionError (List β) → Prog α) (x : Moment) (N : Set Note) (r : Option α) (y : Moment) : Prop :=
  ∃ (Ns : Fin n → Set Note) (rs : Fin n → Option (Except ExecutionError β)) (x₁ : Moment) (N' : Set Note),
    x.Before x₁ ∧ (∀ i, x.Meanwhile x₁ fun x y => part i x (Ns i) (rs i) y) ∧
    (Unbegun x₁ N' r y ∨ ∃ result, Joint (fun i r => rs i = some r) result ∧ (next result).Reaches base x₁ N' r y) ∧
    N = (⋃ i, Ns i) ∪ N'

/-- After a sweep its parts go on waiting, or what comes next is carried out. -/
theorem passes_afterSweep {next : Except ExecutionError (List β) → Prog α}
    (hnext : ∀ r {past m}, History inputs past m →
      ∃ past', Passes inputs base past m ((next r).Reaches base ⟨past, m⟩) ((next r).start base m) past')
    {swept : Except ExecutionError (List (Run (Except ExecutionError β)))} (h : Acts inputs past m past₁ m₁)
    (hswept : SweepLeaves base part (List.finRange n) ⟨past, m⟩ ⟨past₁, m₁⟩ swept) :
    ∃ past', Passes inputs base past m (ReachesAll base part next ⟨past, m⟩) (afterSweep base next (swept, m₁))
      past' := by
  classical
  cases swept with
  | error e =>
    obtain ⟨hall, i, -, N, hfailed⟩ := hswept
    choose Ns rs hparts using fun i => hall i (List.mem_finRange i)
    refine h.passesOn (hnext _ h.history) (⋃ j, Function.update Ns i N j) fun hreaches =>
      ⟨Function.update Ns i N, Function.update rs i (some (.error e)), _, _, h.steps, fun j => ?_,
        .inr ⟨.error e, .error (Function.update_self ..), hreaches⟩, rfl⟩
    by_cases hj : j = i
    · subst hj
      rw [Function.update_self, Function.update_self]
      exact hfailed
    · rw [Function.update_of_ne hj, Function.update_of_ne hj]
      exact hparts j
  | ok runs =>
    obtain ⟨rfl, entered, hentered⟩ := exists_entered hswept
    cases hg : gather? runs with
    | none =>
      simp only [afterSweep, hg]
      refine ⟨past₁, h, ?_, ⋃ i, entered i, ?_⟩
      · rintro ⟨i, hi⟩
        exact (hswept.get (by rw [hswept.length_eq]; exact hi) hi).1
      · rintro _ r y ⟨Ns, rs, x₁, N', hsteps, hparts, hrest, rfl⟩
        refine ⟨fun i => entered i ∪ Ns i, rs, x₁, N', h.steps.trans hsteps, fun i => hentered i _ _ _ (hparts i), hrest,
          ?_⟩
        rw [Set.iUnion_union_distrib, Set.union_assoc]
    | some values =>
      simp only [afterSweep, hg]
      obtain rfl := gather?_eq_some.1 hg
      refine h.passesOn (hnext _ h.history) (⋃ i, entered i) fun hreaches =>
        ⟨entered, fun i => some (.ok (values.get (i.cast (List.length_map _)))), _, _, h.steps, fun i => ?_,
          .inr ⟨.ok values, .ok (List.length_map _).symm fun i hi => rfl, hreaches⟩, rfl⟩
      rw [← Set.union_empty (entered i)]
      refine hentered i _ _ _ ⟨_, _, .refl _, ?_, .refl _⟩
      simp only [List.get_eq_getElem, List.getElem_map]
      exact ⟨rfl, rfl, rfl⟩

end Sweep

/-- A program that is started passes on to what it reaches. -/
theorem passes_start (p : Prog α) (base : Route) (h : History inputs past m) :
    ∃ past', Passes inputs base past m (p.Reaches base ⟨past, m⟩) (p.start base m) past' := by
  induction p generalizing past m with
  | done a => exact passes_self (.refl h) trivial id
  | act op next ih =>
    obtain ⟨past₁, hacts⟩ := acts_perform h base op
    exact hacts.passesOn (ih _ hacts.history) (op.notes m base) fun hnext => ⟨_, _, hacts.steps, rfl, hnext, rfl⟩
  | sleep ms next ih =>
    unfold Prog.start
    split
    · exact (Acts.refl h).passes (ih h) fun hnext => .inr ⟨_, .refl _, hnext⟩
    · exact passes_self (.refl h) trivial id
  | spawn branch key future next _ ih =>
    obtain ⟨past₁, hacts⟩ := acts_spawn h (base ++ branch) key future
    exact hacts.passes (ih hacts.history) fun hnext => ⟨_, hacts.steps, rfl, hnext⟩
  | resolve branch key next ih =>
    unfold Prog.start
    split
    · exact (Acts.refl h).passes (ih _ h) fun hnext => .inr ⟨_, _, .refl _, hnext⟩
    · exact (Acts.refl h).passes (ih _ h) fun hnext => .inr ⟨_, _, .refl _, hnext⟩
    · next generation future hentry =>
      have hmeet := Acts.quiet h (.meet hentry) rfl rfl rfl
      have hsettle (hr : (m.outcome future).isRunning = false) :=
        hmeet.trans (acts_settled hmeet.history List.mem_cons_self hr)
      split
      · exact passes_self hmeet List.mem_cons_self fun hrun =>
          Machine.reaches_earlier (show Run.result? (.resolving branch key generation future next) = none from rfl)
            hmeet.steps hrun
      · next value ho =>
        rw [ho] at hsettle
        exact (hsettle rfl).passes (ih _ (hsettle rfl).history) fun hnext => .inr ⟨_, _, (hsettle rfl).steps, hnext⟩
      · next ho =>
        rw [ho] at hsettle
        exact (hsettle rfl).passes (ih _ (hsettle rfl).history) fun hnext => .inr ⟨_, _, (hsettle rfl).steps, hnext⟩
  | settle branch next ih =>
    obtain ⟨past₁, hacts, hmet⟩ := acts_waitFutures (base ++ branch) [] none h (by simp)
    have hwaits {r : Except EvalError Unit} {y : Moment}
        (hheld : Moment.Held (base ++ branch) (waitFutures (base ++ branch) [] none m).1
          ⟨past₁, (waitFutures (base ++ branch) [] none m).2⟩ r y) : Moment.Waits (base ++ branch) ⟨past, m⟩ r y :=
      ⟨_, hacts.steps, rfl, hheld⟩
    unfold Prog.start
    split
    · next wait m₁ he =>
      rw [he] at hacts hmet hwaits
      refine passes_self hacts hmet ?_
      rintro N _ _ (⟨hN, hr, hxy⟩ | ⟨r, y, hheld, hnext⟩)
      · exact .inl ⟨hN, hr, hacts.steps.trans hxy⟩
      · exact .inr ⟨r, y, hwaits hheld, hnext⟩
    · next result m₁ he =>
      rw [he] at hacts hwaits
      exact hacts.passes (ih _ hacts.history) fun hnext => .inr ⟨result, _, hwaits (.finished _ _), hnext⟩
  | all parts next ihp ih =>
    obtain ⟨past₁, hacts, hswept⟩ := passes_sweep (P := fun _ _ => True)
      (fun i x N r y => Unbegun x N r y ∨ (parts i).Reaches base x N r y) (fun _ _ => trivial)
      (fun {i _ _} h _ => (Acts.refl h).passes (ihp i h) .inr)
      (fun hxy => ⟨none, _, _, .refl _, .inl ⟨rfl, rfl, hxy⟩, .refl _⟩) (List.finRange _) h fun _ _ => trivial
    rw [start_all]
    exact passes_afterSweep (fun r _ _ => ih r) hacts hswept

/-- A run that is taken on passes on to what it reaches. -/
theorem passes_resume (run : Run α) (base : Route) (h : History inputs past m) (hw : run.Watched past base) :
    ∃ past', Passes inputs base past m (run.Reaches base ⟨past, m⟩) (run.resume base m) past' := by
  induction run generalizing past m with
  | done a => exact passes_self (.refl h) trivial id
  | asleep wake next =>
    unfold Run.resume
    split
    · exact (Acts.refl h).passes (passes_start next base h) fun hnext => .inr ⟨_, .refl _, hnext⟩
    · exact passes_self (.refl h) trivial id
  | resolving branch key generation future next =>
    have hsettle (hr : (m.outcome future).isRunning = false) := acts_settled h hw hr
    unfold Run.resume
    split
    · exact passes_self (.refl h) hw id
    · next value ho =>
      rw [ho] at hsettle
      exact (hsettle rfl).passes (passes_start _ base (hsettle rfl).history) fun hnext =>
        .inr ⟨_, _, (hsettle rfl).steps, hnext⟩
    · next ho =>
      rw [ho] at hsettle
      exact (hsettle rfl).passes (passes_start _ base (hsettle rfl).history) fun hnext =>
        .inr ⟨_, _, (hsettle rfl).steps, hnext⟩
  | waiting branch wait next =>
    have hwait : ∃ past', Acts inputs past m past' (Machine.wait (base ++ branch) wait m).2 ∧
        WaitKnown past' (base ++ branch) (Machine.wait (base ++ branch) wait m).1 := by
      cases wait with
      | futures front rest failure => exact acts_waitFutures _ _ failure h hw
      | slots front rest failure => exact acts_waitSlots _ _ failure h hw
    obtain ⟨past₁, hacts, hmet⟩ := hwait
    have hheld {r : Except EvalError Unit} {y : Moment} :=
      Moment.Held.on (y := y) (r := r) (.refl ⟨past, m⟩) hacts.steps rfl
    unfold Run.resume
    split
    · next wait' m₁ he =>
      rw [he] at hacts hmet hheld
      refine passes_self hacts hmet ?_
      rintro N _ _ (⟨hN, hr, hxy⟩ | ⟨r, y, hrest, hnext⟩)
      · exact .inl ⟨hN, hr, hacts.steps.trans hxy⟩
      · exact .inr ⟨r, y, hheld hrest, hnext⟩
    · next result m₁ he =>
      rw [he] at hacts hheld
      exact hacts.passes (passes_start _ base hacts.history) fun hnext =>
        .inr ⟨result, _, hheld (.finished _ _), hnext⟩
  | joined parts next ih =>
    obtain ⟨past₁, hacts, hswept⟩ := passes_sweep (P := fun i past => (parts i).Watched past base)
      (fun i => (parts i).Reaches base) (fun h hsub => watched_mono h hsub) (fun {i _ _} h hi => ih i h hi)
      (fun {i _ _} hxy => exists_reaches (parts i) hxy) (List.finRange _) h fun i _ => hw i
    rw [resume_joined]
    exact passes_afterSweep (fun r _ _ => passes_start (next r) base) hacts hswept

theorem acts_start (p : Prog α) (base : Route) (h : History inputs past m) :
    ∃ past', Acts inputs past m past' (p.start base m).2 ∧ (p.start base m).1.Watched past' base := by
  obtain ⟨past', hpasses⟩ := passes_start p base h
  exact ⟨past', hpasses.acts, hpasses.watched⟩

theorem acts_resume (run : Run α) (base : Route) (h : History inputs past m) (hw : run.Watched past base) :
    ∃ past', Acts inputs past m past' (run.resume base m).2 ∧ (run.resume base m).1.Watched past' base := by
  obtain ⟨past', hpasses⟩ := passes_resume run base h hw
  exact ⟨past', hpasses.acts, hpasses.watched⟩

end Machine

end MediaQuery
