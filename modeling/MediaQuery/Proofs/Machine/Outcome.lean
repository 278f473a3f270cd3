import MediaQuery.Proofs.Machine.Evolves
import MediaQuery.Proofs.Machine.Sequence
import MediaQuery.Proofs.Machine.Sweep

/-!
# What programs come to

What a program comes to depends on what others do while it waits. `Prog.ComesTo` says what it may come to, and on what
machine, where nothing is known of the others but that the machine evolves; of programs side by side each is one of the
others for the rest (`Joint`). It can be read along the program (`comesTo_bind`, `comesTo_parallel`), and whatever a run
of the program comes to is among it (`comesTo_of_run`), as is what a part of another program comes to within that.
-/

namespace MediaQuery

namespace Machine

variable {α β : Type} {n : Nat} {base : Route} {m m' m'' : Machine} {e : ExecutionError}
  {advance : Fin n → Machine → Run (Except ExecutionError β) × Machine} {is : List (Fin n)}
  {runs : List (Run (Except ExecutionError β))}

/-! ## Machines evolve -/

theorem evolves_sweep (hadvance : ∀ i m, Evolves m (advance i m).2) (is : List (Fin n)) (m : Machine) :
    Evolves m (sweep advance is m).2 := by
  have hleft : ∀ i ∈ is, ∀ m, m.Settled ([] <+: ·) → Left Evolves ([] <+: ·) [] (fun _ => True) m (advance i m) :=
    fun i _ m _ => ⟨hadvance i m, Run.uses_below _ List.nil_prefix⟩
  exact (upheld_evolves.sweep is hleft (settled_below [] m)).1

/-- Starting a program. -/
theorem evolves_start (p : Prog α) (base : Route) (m : Machine) : Evolves m (p.start base m).2 :=
  (upheld_evolves.start (p.uses_below List.nil_prefix) (settled_below [] m)).1

/-- Taking a run on. -/
theorem evolves_resume (run : Run α) (base : Route) (m : Machine) : Evolves m (run.resume base m).2 :=
  (upheld_evolves.resume (run.uses_below List.nil_prefix) (settled_below [] m)).1

theorem evolves_runFuture {f : Future} (h : m.runFuture f = some m') : Evolves m m' := by
  obtain ⟨run, rfl⟩ := takeOn_of_runFuture h
  exact upheld_evolves.takeOn (settled_below [] m) List.nil_prefix (run.uses_below List.nil_prefix)

theorem evolves_runQueue {queue : List FutureId} (h : m.runQueue queue = some m') : Evolves m m' := by
  induction queue with
  | nil => cases h
  | cons id rest ih =>
    unfold runQueue at h
    split at h
    · next m₁ he =>
      cases h
      obtain ⟨f, -, hrun⟩ := Option.bind_eq_some_iff.1 he
      exact evolves_runFuture (m := { m with ready := rest }) hrun
    · exact ih h

/-! ## Sweeps -/

/-- A sweep that has not failed has taken every part on, on a machine that it has come by. -/
theorem reached_of_sweep (hadvance : ∀ i m, Evolves m (advance i m).2) (h : (sweep advance is m).1 = .ok runs) :
    List.Forall₂ (fun i run => ∃ m₁, Evolves m m₁ ∧ (advance i m₁).1 = run ∧
      Evolves (advance i m₁).2 (sweep advance is m).2) is runs := by
  induction is generalizing m runs with
  | nil =>
    cases h
    exact .nil
  | cons i rest ih =>
    obtain ⟨runs', rfl, hi, hs⟩ := sweep_cons_of_ok h
    have hrest := ih hs
    rw [sweep_of_ne_error hi]
    refine .cons ⟨m, .refl m, rfl, evolves_sweep hadvance rest _⟩ (hrest.imp fun j run hj => ?_)
    obtain ⟨m₁, hg, hrun, hafter⟩ := hj
    exact ⟨m₁, (hadvance i m).trans hg, hrun, hafter⟩

/-- A sweep that has failed has done so with a part, on a machine that it has come by. -/
theorem failed_of_sweep (hadvance : ∀ i m, Evolves m (advance i m).2) (h : (sweep advance is m).1 = .error e) :
    ∃ i m₁, Evolves m m₁ ∧ advance i m₁ = (.done (.error e), (sweep advance is m).2) := by
  induction is generalizing m with
  | nil => cases h
  | cons i rest ih =>
    by_cases hi : ∃ e, (advance i m).1 = .done (.error e)
    · obtain ⟨e', he⟩ := hi
      rw [sweep_of_error he] at h ⊢
      cases h
      exact ⟨i, m, .refl m, Prod.ext he rfl⟩
    · rw [not_exists] at hi
      rw [sweep_of_ne_error hi] at h ⊢
      cases hs : (sweep advance rest (advance i m).2).1 with
      | ok runs =>
        rw [hs] at h
        cases h
      | error e' =>
        rw [hs] at h
        cases h
        obtain ⟨j, m₁, hg, hj⟩ := ih hs
        exact ⟨j, m₁, (hadvance i m).trans hg, hj⟩

/-- Something has been done from its beginning to its end while a machine has become another one. -/
def Meanwhile (m m' : Machine) (done : Machine → Machine → Prop) : Prop :=
  ∃ m₁ m₂, Evolves m m₁ ∧ done m₁ m₂ ∧ Evolves m₂ m'

theorem Meanwhile.imp {done done' : Machine → Machine → Prop} (h : m.Meanwhile m' done)
    (hdone : ∀ m₁ m₂, Evolves m m₁ → done m₁ m₂ → done' m₁ m₂) : m.Meanwhile m' done' := by
  obtain ⟨m₁, m₂, hbefore, hd, hafter⟩ := h
  exact ⟨m₁, m₂, hbefore, hdone m₁ m₂ hbefore hd, hafter⟩

theorem Meanwhile.earlier {done : Machine → Machine → Prop} (h : m'.Meanwhile m'' done) (hg : Evolves m m') :
    m.Meanwhile m'' done := by
  obtain ⟨m₁, m₂, hbefore, hd, hafter⟩ := h
  exact ⟨m₁, m₂, hg.trans hbefore, hd, hafter⟩

end Machine

/-! ## Programs -/

/-- What programs side by side come to, where `part` says it of each: the values of all, or the failure of one. -/
inductive Joint {n : Nat} {β : Type} (part : Fin n → Except ExecutionError β → Prop) :
    Except ExecutionError (List β) → Prop
  | ok {values : List β} (hn : values.length = n) (h : ∀ i (hi : i < n), part ⟨i, hi⟩ (.ok values[i])) :
      Joint part (.ok values)
  | error {i : Fin n} {e : ExecutionError} (h : part i (.error e)) : Joint part (.error e)

theorem Joint.imp {n : Nat} {β : Type} {part part' : Fin n → Except ExecutionError β → Prop}
    {r : Except ExecutionError (List β)} (h : Joint part r) (hpart : ∀ i r, part i r → part' i r) : Joint part' r := by
  cases h with
  | ok hn h => exact .ok hn fun i hi => hpart _ _ (h i hi)
  | error h => exact .error (hpart _ _ h)

/-- A program on the branch at the base, started on a machine, may come to the answer on another machine. -/
def Prog.ComesTo : {α : Type} → Prog α → Route → Machine → α → Machine → Prop
  | _, .done a, _, m, answer, m' => answer = a ∧ m' = m
  | _, .act op next, base, m, answer, m' =>
    (next (m.perform base op).1).ComesTo base (m.perform base op).2 answer m'
  | _, .sleep _ next, base, m, answer, m' => ∃ m₁, m.Evolves m₁ ∧ next.ComesTo base m₁ answer m'
  | _, .spawn branch key future next, base, m, answer, m' =>
    next.ComesTo base (m.spawn (base ++ branch) key future) answer m'
  | _, .resolve _ _ next, base, m, answer, m' => ∃ r m₁, m.Evolves m₁ ∧ (next r).ComesTo base m₁ answer m'
  | _, .settle _ next, base, m, answer, m' => ∃ r m₁, m.Evolves m₁ ∧ (next r).ComesTo base m₁ answer m'
  | _, .all parts next, base, m, answer, m' => ∃ r m₁, m.Evolves m₁ ∧
    Joint (fun i r => m.Meanwhile m₁ fun m m' => (parts i).ComesTo base m r m') r ∧ (next r).ComesTo base m₁ answer m'

/-- The same for a program that has been started. -/
def Run.ComesTo : {α : Type} → Run α → Route → Machine → α → Machine → Prop
  | _, .done a, _, m, answer, m' => answer = a ∧ m' = m
  | _, .asleep _ next, base, m, answer, m' => ∃ m₁, m.Evolves m₁ ∧ next.ComesTo base m₁ answer m'
  | _, .resolving _ _ _ _ next, base, m, answer, m' => ∃ r m₁, m.Evolves m₁ ∧ (next r).ComesTo base m₁ answer m'
  | _, .waiting _ _ next, base, m, answer, m' => ∃ r m₁, m.Evolves m₁ ∧ (next r).ComesTo base m₁ answer m'
  | _, .joined parts next, base, m, answer, m' => ∃ r m₁, m.Evolves m₁ ∧
    Joint (fun i r => m.Meanwhile m₁ fun m m' => (parts i).ComesTo base m r m') r ∧ (next r).ComesTo base m₁ answer m'

namespace Prog

variable {α β : Type} {base : Route} {m m' : Machine} {answer : α}

/-- The machine has evolved in the end. -/
theorem ComesTo.evolves {p : Prog α} (h : p.ComesTo base m answer m') : m.Evolves m' := by
  induction p generalizing m with
  | done a => exact h.2 ▸ .refl m
  | act op next ih => exact (Machine.evolves_perform m base op).trans (ih _ h)
  | sleep ms next ih =>
    obtain ⟨m₁, hg, hnext⟩ := h
    exact hg.trans (ih hnext)
  | spawn branch key future next _ ih => exact (Machine.evolves_spawn m (base ++ branch) key future).trans (ih h)
  | resolve branch key next ih =>
    obtain ⟨r, m₁, hg, hnext⟩ := h
    exact hg.trans (ih r hnext)
  | settle branch next ih =>
    obtain ⟨r, m₁, hg, hnext⟩ := h
    exact hg.trans (ih r hnext)
  | all parts next _ ih =>
    obtain ⟨r, m₁, hg, -, hnext⟩ := h
    exact hg.trans (ih r hnext)

/-- **One program after another.** -/
theorem comesTo_bind {p : Prog α} {k : α → Prog β} {b : β} :
    (p.bind k).ComesTo base m b m' ↔ ∃ a m₁, p.ComesTo base m a m₁ ∧ (k a).ComesTo base m₁ b m' := by
  induction p generalizing m with
  | done a =>
    refine ⟨fun h => ⟨a, m, ⟨rfl, rfl⟩, h⟩, ?_⟩
    rintro ⟨_, _, ⟨rfl, rfl⟩, h⟩
    exact h
  | act op next ih => exact ih _
  | sleep ms next ih =>
    simp only [Prog.bind, ComesTo, ih]
    constructor
    · rintro ⟨m₁, hg, a, m₂, hp, hk⟩
      exact ⟨a, m₂, ⟨m₁, hg, hp⟩, hk⟩
    · rintro ⟨a, m₂, ⟨m₁, hg, hp⟩, hk⟩
      exact ⟨m₁, hg, a, m₂, hp, hk⟩
  | spawn branch key future next _ ih => exact ih
  | resolve branch key next ih =>
    simp only [Prog.bind, ComesTo, ih]
    constructor
    · rintro ⟨r, m₁, hg, a, m₂, hp, hk⟩
      exact ⟨a, m₂, ⟨r, m₁, hg, hp⟩, hk⟩
    · rintro ⟨a, m₂, ⟨r, m₁, hg, hp⟩, hk⟩
      exact ⟨r, m₁, hg, a, m₂, hp, hk⟩
  | settle branch next ih =>
    simp only [Prog.bind, ComesTo, ih]
    constructor
    · rintro ⟨r, m₁, hg, a, m₂, hp, hk⟩
      exact ⟨a, m₂, ⟨r, m₁, hg, hp⟩, hk⟩
    · rintro ⟨a, m₂, ⟨r, m₁, hg, hp⟩, hk⟩
      exact ⟨r, m₁, hg, a, m₂, hp, hk⟩
  | all parts next _ ih =>
    simp only [Prog.bind, ComesTo, ih]
    constructor
    · rintro ⟨r, m₁, hg, hparts, a, m₂, hp, hk⟩
      exact ⟨a, m₂, ⟨r, m₁, hg, hparts, hp⟩, hk⟩
    · rintro ⟨a, m₂, ⟨r, m₁, hg, hparts, hp⟩, hk⟩
      exact ⟨r, m₁, hg, hparts, a, m₂, hp, hk⟩

section Failing

variable {ε : Type} {b : β}

/-- A program that may fail and what comes after it have come to a value: so has the program, and then the rest. -/
theorem comesTo_andThen {p : Prog (Except ε α)} {f : α → Prog (Except ε β)} :
    (ExceptT.run (ExceptT.mk p >>= fun a => ExceptT.mk (f a))).ComesTo base m (.ok b) m' ↔
      ∃ a m₁, p.ComesTo base m (.ok a) m₁ ∧ (f a).ComesTo base m₁ (.ok b) m' := by
  refine comesTo_bind.trans ⟨?_, ?_⟩
  · rintro ⟨r, m₁, hp, hf⟩
    cases r with
    | ok a => exact ⟨a, m₁, hp, hf⟩
    | error e => cases hf.1
  · rintro ⟨a, m₁, hp, hf⟩
    exact ⟨.ok a, m₁, hp, hf⟩

/-- A program that cannot fail, and what comes after it. -/
theorem comesTo_andThenLift {p : Prog α} {f : α → Prog (Except ε β)} {r : Except ε β} :
    (ExceptT.run (ExceptT.lift p >>= fun a => ExceptT.mk (f a))).ComesTo base m r m' ↔
      ∃ a m₁, p.ComesTo base m a m₁ ∧ (f a).ComesTo base m₁ r m' := by
  have heq : ExceptT.run (ExceptT.lift p >>= fun a => ExceptT.mk (f a)) = p.bind f := bind_assoc p _ _
  rw [heq]
  exact comesTo_bind

/-- A program that may fail, and a change of its answer. -/
theorem comesTo_map {p : Prog (Except ε α)} {f : α → β} :
    (p.bind fun r => .done (r.map f)).ComesTo base m (.ok b) m' ↔ ∃ a, p.ComesTo base m (.ok a) m' ∧ b = f a := by
  refine comesTo_bind.trans ⟨?_, ?_⟩
  · rintro ⟨r, m₁, hp, hb, rfl⟩
    cases r with
    | ok a => exact ⟨a, hp, Except.ok.inj hb⟩
    | error e => cases hb
  · rintro ⟨a, hp, rfl⟩
    exact ⟨.ok a, m', hp, rfl, rfl⟩

end Failing

/-- **Programs side by side.** Each has come to its value in the course of it. -/
theorem values_of_parallel {parts : List (Prog (Except ExecutionError β))} {values : List β}
    (h : (parallel parts).ComesTo base m (.ok values) m') :
    List.Forall₂ (fun p v => m.Meanwhile m' fun m m' => p.ComesTo base m (.ok v) m') parts values := by
  obtain ⟨r, m₁, -, hparts, rfl, rfl⟩ := h
  cases hparts with
  | ok hn hparts => exact List.forall₂_iff_get.2 ⟨hn.symm, fun i hi _ => hparts i hi⟩

end Prog

/-! ## Runs -/

namespace Machine

variable {α β : Type} {n : Nat} {base : Route} {m m' m'' : Machine} {answer : α}

/-- What a run comes to that waits, it also comes to from an earlier machine. -/
theorem comesTo_earlier {run : Run α} (hrun : run.result? = none) (hg : Evolves m m')
    (h : run.ComesTo base m' answer m'') : run.ComesTo base m answer m'' := by
  cases run with
  | done a => cases hrun
  | asleep wake next =>
    obtain ⟨m₁, hg', hnext⟩ := h
    exact ⟨m₁, hg.trans hg', hnext⟩
  | resolving branch key generation future next =>
    obtain ⟨r, m₁, hg', hnext⟩ := h
    exact ⟨r, m₁, hg.trans hg', hnext⟩
  | waiting branch wait next =>
    obtain ⟨r, m₁, hg', hnext⟩ := h
    exact ⟨r, m₁, hg.trans hg', hnext⟩
  | joined parts next =>
    obtain ⟨r, m₁, hg', hparts, hnext⟩ := h
    exact ⟨r, m₁, hg.trans hg', hparts.imp fun _ _ hpart => hpart.earlier hg, hnext⟩

/-- A run that has come to its end meanwhile has done so from an earlier machine as well. -/
theorem comesTo_of_meanwhile {run : Run α} (hg : Evolves m m')
    (h : m'.Meanwhile m'' fun m m' => run.ComesTo base m answer m') :
    ∃ m₁, run.ComesTo base m answer m₁ ∧ Evolves m₁ m'' := by
  obtain ⟨m₁, m₂, hbefore, hrun, hafter⟩ := h
  cases hr : run.result? with
  | none => exact ⟨m₂, comesTo_earlier hr (hg.trans hbefore) hrun, hafter⟩
  | some a =>
    cases run with
    | done b =>
      obtain ⟨rfl, rfl⟩ := hrun
      exact ⟨m, ⟨rfl, rfl⟩, (hg.trans hbefore).trans hafter⟩
    | _ => cases hr

section Sweep

variable {advance : Fin n → Machine → Run (Except ExecutionError β) × Machine}
  {part : Fin n → Machine → Except ExecutionError β → Machine → Prop}
  {next : Except ExecutionError (List β) → Prog α} (hevolves : ∀ i m, Evolves m (advance i m).2)
  (hadvance : ∀ i m r m', (advance i m).1.ComesTo base (advance i m).2 r m' → part i m r m')
include hevolves hadvance

/-- What a run comes to that a sweep has left, its part comes to. -/
theorem part_of_run {runs : List (Run (Except ExecutionError β))} {r : Except ExecutionError β}
    (hs : (sweep advance (List.finRange n) m).1 = .ok runs) {i : Nat} (hi : i < runs.length)
    (h : (sweep advance (List.finRange n) m).2.Meanwhile m' fun m m' => runs[i].ComesTo base m r m') :
    ∃ hi : i < n, m.Meanwhile m' fun m m' => part ⟨i, hi⟩ m r m' := by
  have hreached := reached_of_sweep hevolves hs
  have hi' : i < (List.finRange n).length := length_sweep hs ▸ hi
  obtain ⟨m₁, hbefore, hrun, hbehind⟩ := hreached.get hi' hi
  rw [List.get_eq_getElem, List.getElem_finRange] at hrun hbehind
  obtain ⟨m₂, hcomes, hafter⟩ := comesTo_of_meanwhile hbehind h
  rw [List.get_eq_getElem] at hrun
  rw [← hrun] at hcomes
  rw [List.length_finRange] at hi'
  exact ⟨hi', m₁, m₂, hbefore, hadvance _ _ _ _ hcomes, hafter⟩

/-- What runs come to side by side that a sweep has left, its parts come to. -/
theorem joint_of_runs {runs : List (Run (Except ExecutionError β))} {r : Except ExecutionError (List β)}
    (hs : (sweep advance (List.finRange n) m).1 = .ok runs)
    (h : Joint (fun i r => (sweep advance (List.finRange n) m).2.Meanwhile m' fun m m' =>
      (runs.get i).ComesTo base m r m') r) : Joint (fun i r => m.Meanwhile m' fun m m' => part i m r m') r := by
  have hsize : runs.length = n := (length_sweep hs).trans List.length_finRange
  cases h with
  | ok hn h =>
    exact .ok (hn.trans hsize) fun i hi =>
      (part_of_run hevolves hadvance hs (hsize ▸ hi) (h i (hsize ▸ hi))).2
  | @error i e h => exact .error (part_of_run hevolves hadvance hs i.isLt h).2

/-- What a sweep leaves comes to what its parts come to, and what follows. -/
theorem comesTo_of_afterSweep
    (hnext : ∀ r m, ((next r).start base m).1.ComesTo base ((next r).start base m).2 answer m' →
      (next r).ComesTo base m answer m')
    (h : (afterSweep base next (sweep advance (List.finRange n) m)).1.ComesTo base
      (afterSweep base next (sweep advance (List.finRange n) m)).2 answer m') :
    ∃ r m₁, Evolves m m₁ ∧ Joint (fun i r => m.Meanwhile m₁ fun m m' => part i m r m') r ∧
      (next r).ComesTo base m₁ answer m' := by
  have hsweep := evolves_sweep hevolves (List.finRange n) m
  cases hs : (sweep advance (List.finRange n) m).1 with
  | error e =>
    obtain ⟨i, m₁, hbefore, hi⟩ := failed_of_sweep hevolves hs
    have hpart : part i m₁ (.error e) (sweep advance (List.finRange n) m).2 := by
      refine hadvance i m₁ _ _ ?_
      rw [hi]
      exact ⟨rfl, rfl⟩
    rw [Prod.ext (y := (_, _)) hs rfl] at h
    exact ⟨.error e, _, hsweep, .error ⟨m₁, _, hbefore, hpart, .refl _⟩, hnext _ _ h⟩
  | ok runs =>
    rw [Prod.ext (y := (_, _)) hs rfl] at h
    cases hg : gather? runs with
    | none =>
      simp only [afterSweep, hg] at h
      obtain ⟨r, m₁, hbehind, hruns, hlater⟩ := h
      exact ⟨r, m₁, hsweep.trans hbehind, joint_of_runs hevolves hadvance hs hruns, hlater⟩
    | some values =>
      simp only [afterSweep, hg] at h
      obtain rfl := gather?_eq_some.1 hg
      refine ⟨.ok values, _, hsweep, joint_of_runs hevolves hadvance hs
        (.ok (List.length_map _).symm fun i hi => ?_), hnext _ _ h⟩
      refine ⟨_, (sweep advance (List.finRange n) m).2, .refl _, ?_, .refl _⟩
      rw [List.get_eq_getElem, List.getElem_map]
      exact ⟨rfl, rfl⟩

end Sweep

/-- What a program comes to once it has been started. -/
theorem comesTo_of_start {p : Prog α} (h : (p.start base m).1.ComesTo base (p.start base m).2 answer m') :
    p.ComesTo base m answer m' := by
  induction p generalizing m m' with
  | done a => exact h
  | act op next ih => exact ih _ h
  | sleep ms next ih =>
    unfold Prog.start at h
    split at h
    · exact ⟨m, .refl m, ih h⟩
    · exact h
  | spawn branch key future next _ ih => exact ih h
  | resolve branch key next ih =>
    unfold Prog.start at h
    split at h
    · exact ⟨_, m, .refl m, ih _ h⟩
    · exact ⟨_, m, .refl m, ih _ h⟩
    · split at h
      · exact h
      · exact ⟨_, _, evolves_modifyStore m (base ++ branch) _, ih _ h⟩
      · exact ⟨_, _, evolves_modifyStore m (base ++ branch) _, ih _ h⟩
  | settle branch next ih =>
    have hwait := (endured_evolves (base ++ branch)).waitFutures m [] none
    unfold Prog.start at h
    split at h
    · next wait m₁ he =>
      rw [he] at hwait
      obtain ⟨r, m₂, hg, hnext⟩ := h
      exact ⟨r, m₂, hwait.trans hg, hnext⟩
    · next r m₁ he =>
      rw [he] at hwait
      exact ⟨r, m₁, hwait, ih r h⟩
  | all parts next ihparts ih =>
    rw [start_all] at h
    exact comesTo_of_afterSweep (fun i m => evolves_start (parts i) base m) (fun i m r m' => ihparts i) (fun r m => ih r) h

/-- What a run comes to once it has been taken on. -/
theorem comesTo_of_resume {run : Run α} (h : (run.resume base m).1.ComesTo base (run.resume base m).2 answer m') :
    run.ComesTo base m answer m' := by
  induction run generalizing m m' with
  | done a => exact h
  | asleep wake next =>
    unfold Run.resume at h
    split at h
    · exact ⟨m, .refl m, comesTo_of_start h⟩
    · exact h
  | resolving branch key generation future next =>
    unfold Run.resume at h
    split at h
    · exact h
    · exact ⟨_, _, evolves_modifyStore m (base ++ branch) _, comesTo_of_start h⟩
    · exact ⟨_, _, evolves_modifyStore m (base ++ branch) _, comesTo_of_start h⟩
  | waiting branch wait next =>
    have hwait : Evolves m (Machine.wait (base ++ branch) wait m).2 := (endured_evolves _).wait m wait
    unfold Run.resume at h
    split at h
    · next wait' m₁ he =>
      rw [he] at hwait
      obtain ⟨r, m₂, hg, hnext⟩ := h
      exact ⟨r, m₂, hwait.trans hg, hnext⟩
    · next r m₁ he =>
      rw [he] at hwait
      exact ⟨r, m₁, hwait, comesTo_of_start h⟩
  | joined parts next ih =>
    rw [resume_joined] at h
    exact comesTo_of_afterSweep (fun i m => evolves_resume (parts i) base m) (fun i m r m' => ih i)
      (fun r m => comesTo_of_start) h

/-- What a main program comes to once it has been dispatched. -/
theorem comesTo_of_dispatch {run run' : Run α} (hrun : run.result? = none) (hd : dispatch run m = some (run', m'))
    (h : run'.ComesTo [] m' answer m'') : run.ComesTo [] m answer m'' := by
  unfold dispatch at hd
  split at hd
  · next he =>
    cases hd
    exact comesTo_earlier hrun (evolves_runQueue he) h
  · split at hd
    · have hnext := Option.some.inj hd
      refine comesTo_of_resume ?_
      rwa [hnext]
    · cases hd

theorem comesTo_of_turn {run run' : Run α} (hrun : run.result? = none) (ht : turn run m = some (run', m'))
    (h : run'.ComesTo [] m' answer m'') : run.ComesTo [] m answer m'' := by
  unfold turn at ht
  split at ht
  · next he =>
    cases ht
    exact comesTo_of_dispatch hrun he h
  · obtain ⟨t, -, hd⟩ := Option.bind_eq_some_iff.1 ht
    have hwaked : Evolves m (m.advanceTo t) := .refl m
    exact comesTo_earlier hrun hwaked (comesTo_of_dispatch hrun hd h)

theorem comesTo_of_drive {run : Run α} (h : drive run m = (some answer, m')) : run.ComesTo [] m answer m' := by
  -- along the turns
  induction run, m using drive.induct with
  | case1 run m a hrun =>
    rw [drive_of_result hrun] at h
    cases h
    cases run with
    | done b =>
      cases hrun
      exact ⟨rfl, rfl⟩
    | _ => cases hrun
  | case2 run m hrun run' m₁ ht ih =>
    rw [drive_of_turn hrun ht] at h
    exact comesTo_of_turn hrun ht (ih h)
  | case3 run m hrun ht =>
    rw [drive_of_stuck hrun ht] at h
    cases h

/-- **Whatever a run of a program comes to, the program comes to.** -/
theorem comesTo_of_run {p : Prog α} (h : m.run p = (some answer, m')) : p.ComesTo [] m answer m' :=
  comesTo_of_start (comesTo_of_drive h)

end Machine

end MediaQuery
