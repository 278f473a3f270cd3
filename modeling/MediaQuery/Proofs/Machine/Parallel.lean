import MediaQuery.Proofs.Machine.Guests
import Mathlib.Data.List.FinRange

/-!
# Programs side by side on forks of one branch

Calm programs that run side by side, each a value or on a fork of its own (`Lodged`), do what each of them does on a
machine of its own. Their story is made of the stories of all of them, in the order of instants and, at the same
instant, of the programs, up to the first failure; and they succeed exactly if each of them does, with the values of
all of them in the order of the programs (`run_parallel`).
-/

namespace MediaQuery

open Machine Guest

variable {β : Type} {b s : Route} {n : Node} {m₀ m m' : Machine} {t k : Nat}

namespace Machine

/-- What programs side by side come to, where it is known what each of them comes to. -/
inductive Comes (b s : Route) (m₀ : Machine) (k : Nat) (answers : List (Option (Except ExecutionError β))) :
    Except ExecutionError (List β) → Machine → Prop
  | succeeded {values : List β} {m' : Machine} (h : answers = values.map fun v => some (.ok v))
      (hs : Spared b s k m₀ m') : Comes b s m₀ k answers (.ok values) m'
  | failed {e e' : ExecutionError} {m' : Machine} {k' : Nat} (h : some (.error e') ∈ answers) (he : e.SameBare e')
      (hs : Spared b s k' m₀ m') : Comes b s m₀ k answers (.error e) m'

theorem Comes.spared {answers : List (Option (Except ExecutionError β))} {r : Except ExecutionError (List β)}
    (h : Comes b s m₀ k answers r m') : ∃ k', Spared b s k' m₀ m' := by
  cases h with
  | succeeded _ hs => exact ⟨_, hs⟩
  | failed _ _ hs => exact ⟨_, hs⟩

/-- A run of parts side by side tells what their guests tell, and comes to what they come to. -/
def Concludes (b s : Route) (m₀ : Machine) (k : Nat) (guests : List (Guest β))
    (main : Run (Except ExecutionError (List β))) (m : Machine) : Prop :=
  ∃ r m', drive main m = (some r, m') ∧
    chronicle s main m = upToFailure (chronology (guests.flatMap fun g => chronicle [] g.run g.machine)) ∧
    Comes b s m₀ k (guests.map Guest.answer?) r m'

/-- Parts that wait side by side, with their guests. -/
structure Stage (b s : Route) (n : Node) (m₀ : Machine) (k : Nat) (runs : List (Run (Except ExecutionError β)))
    (guests : List (Guest β)) (m : Machine) : Prop where
  vacant : m.Vacant
  spared : Spared b s k m₀ m
  kept : List.Forall₂ (Kept b s n m₀ m.clock m) runs guests
  apart : guests.Pairwise Apart
  settled : newcomers guests = 0
  unfinished : Unfinished runs.get

/-! ## After a sweep -/

variable {guests guests' : List (Guest β)} {runs : List (Run (Except ExecutionError β))}

/-- Lists made from related elements are the same. -/
theorem map_eq_of_forall₂ {α γ δ : Type*} {R : α → γ → Prop} {xs : List α} {ys : List γ} {f : α → δ} {f' : γ → δ}
    (h : List.Forall₂ R xs ys) (hf : ∀ x y, R x y → f x = f' y) : xs.map f = ys.map f' := by
  induction h with
  | nil => rfl
  | cons hxy _ ih => rw [List.map_cons, List.map_cons, hf _ _ hxy, ih]

/-- What all guests tell and come to that have been taken on. -/
theorem Passed.after_eq (h : Passed b s n m₀ k m guests runs m' guests') :
    guests'.flatMap (fun g => chronicle [] g.run g.machine) = guests.flatMap later ∧
      guests'.map Guest.answer? = guests.map fun g => (drive g.after.1 g.after.2).1 := by
  have hquiet : ∀ g ∈ guests, ∀ x ∈ g.moment, x.2.isFailure = false := by
    intro g hg x hx
    have hmem : x ∈ guests.flatMap moment := List.mem_flatMap.2 ⟨g, hg, hx⟩
    exact (of_mem_entries (h.news ▸ hmem)).2
  have hafter : guests.map (fun g => chronicle [] g.after.1 g.after.2) =
      guests'.map fun g => chronicle [] g.run g.machine :=
    map_eq_of_forall₂ h.next fun g g' ⟨seat, _, hg'⟩ => by rw [hg']
  refine ⟨?_, (map_eq_of_forall₂ h.next fun g g' ⟨seat, _, hg'⟩ => by rw [hg']; rfl).symm⟩
  rw [List.flatMap_def, ← hafter, ← List.flatMap_def]
  exact List.flatMap_congr fun g hg => (later_of_quiet (hquiet g hg)).symm

/-- What has been taken on has its fork. -/
theorem Passed.newcomers_eq (h : Passed b s n m₀ k m guests runs m' guests') : newcomers guests' = 0 := by
  refine List.countP_eq_zero.2 fun g' hg' => ?_
  obtain ⟨g, -, seat, hseat, rfl⟩ := exists_of_mem_right h.next hg'
  simpa using hseat

/-- Parts that have all succeeded. -/
theorem answers_of_gathered {values : List β} (h : List.Forall₂ (Kept b s n m₀ t m) runs guests)
    (hg : gather? runs = some values) : guests.map Guest.answer? = values.map (fun v => some (.ok v)) ∧
      guests.flatMap (fun g => chronicle [] g.run g.machine) = [] := by
  rw [gather?_eq_some.1 hg, List.forall₂_map_left_iff] at h
  have hrun (v : β) (g : Guest β) (hkept : Kept b s n m₀ t m (.done (.ok v)) g) : g.run = .done (.ok v) :=
    hkept.succeeded
  refine ⟨(map_eq_of_forall₂ h fun v g hkept => ?_).symm, List.flatMap_eq_nil_iff.2 fun g hg => ?_⟩
  · unfold Guest.answer?
    rw [hrun v g hkept, drive_of_result rfl]
  · obtain ⟨v, -, hkept⟩ := exists_of_mem_right h hg
    rw [hrun v g hkept, chronicle_done]
    rfl

/-- What a run tells that goes on after a sweep of the guests on the given machine, and what it comes to. -/
def ConcludesAfter (b s : Route) (m₀ : Machine) (k : Nat) (m : Machine) (guests : List (Guest β))
    (x : Run (Except ExecutionError (List β)) × Machine) : Prop :=
  ∃ r m', drive x.1 x.2 = (some r, m') ∧
    entries m.clock (news s m x.2) ++ chronicle s x.1 x.2 =
      upToFailure (chronology (guests.flatMap fun g => g.moment ++ g.later)) ∧
    Comes b s m₀ k (guests.map fun g => (drive g.after.1 g.after.2).1) r m'

/-- After a sweep that has met a failure, the run fails. -/
theorem Broken.concludes {e : ExecutionError} (h : Broken b s m₀ m guests e m')
    (hmoment : ∀ g ∈ guests, ∀ y ∈ g.moment, y.1 = m.clock) (hlater : ∀ g ∈ guests, ∀ y ∈ g.later, m.clock < y.1) :
    ConcludesAfter b s m₀ k m guests (.done (.error e), m') := by
  obtain ⟨g, hg, e', hfailed, hbare⟩ := h.failure
  have hmem : (g.machine.clock, Incident.failed e'.bare) ∈ guests.flatMap moment := by
    refine List.mem_flatMap.2 ⟨g, hg, List.mem_append_right _ ?_⟩
    unfold ending
    rw [hfailed]
    exact List.mem_singleton_self _
  obtain ⟨k', hspared⟩ := h.spared
  have hanswer : some (.error e') ∈ guests.map fun g => (drive g.after.1 g.after.2).1 :=
    List.mem_map.2 ⟨g, hg, by rw [hfailed, drive_of_result rfl]⟩
  refine ⟨.error e, m', drive_of_result rfl m', ?_, .failed hanswer hbare hspared⟩
  rw [chronicle_done, Story.upToFailure_moments_of_failure hmoment hlater hmem rfl, ← h.news, h.clock]
  rfl

/-- After a sweep that has met no failure, the run succeeds if all parts have values, and goes on with them otherwise. -/
theorem Passed.concludes (hm : m.Vacant) (h : Passed b s n m₀ k m guests runs m' guests')
    (hmoment : ∀ g ∈ guests, ∀ y ∈ g.moment, y.1 = m.clock) (hlater : ∀ g ∈ guests, ∀ y ∈ g.later, m.clock < y.1)
    (hnext : afterSweep [] .done (Except.ok runs, m') = (.joined runs.get .done, m') →
      Stage b s n m₀ (k + newcomers guests) runs guests' m' →
      Concludes b s m₀ (k + newcomers guests) guests' (.joined runs.get .done) m') :
    ConcludesAfter b s m₀ (k + newcomers guests) m guests (afterSweep [] .done (Except.ok runs, m')) := by
  obtain ⟨htold, hanswers⟩ := h.after_eq
  have hquiet : ∀ y ∈ guests.flatMap moment, y.2.isFailure = false := fun y hy =>
    (of_mem_entries (h.news ▸ hy)).2
  unfold ConcludesAfter
  rw [Story.upToFailure_moments hmoment hlater hquiet, ← h.news, ← htold, ← hanswers]
  cases hgather : gather? runs with
  | some values =>
    have hafter : afterSweep [] .done (Except.ok runs, m') =
        ((.done (.ok values) : Run (Except ExecutionError (List β))), m') := by
      unfold afterSweep
      simp only [hgather]
      rfl
    obtain ⟨hvalues, hsilent⟩ := answers_of_gathered h.kept hgather
    refine ⟨.ok values, m', ?_, ?_, .succeeded hvalues h.spared⟩
    · rw [hafter, drive_of_result rfl]
    · rw [hafter, chronicle_done, hsilent, Story.chronology_nil]
      rfl
  | none =>
    have hafter : afterSweep [] .done (Except.ok runs, m') =
        (.joined runs.get (.done : Except ExecutionError (List β) → _), m') := by
      unfold afterSweep
      simp only [hgather]
    have hunfinished : Unfinished runs.get := unfinished_of_gather hgather h.unfailed
    obtain ⟨r, m'', hdrive, hchronicle, hcomes⟩ := hnext hafter
      ⟨hm.rested h.rested, h.spared, h.clock ▸ h.kept, h.apart, h.newcomers_eq, hunfinished⟩
    rw [hafter]
    exact ⟨r, m'', hdrive, by rw [hchronicle], hcomes⟩

/-- What a run tells that goes on after a sweep, and what it comes to, if this is known of the parts that go on. -/
theorem Swept.concludes {x : Except ExecutionError (List (Run (Except ExecutionError β))) × Machine}
    (hm : m.Vacant) (hx : Swept b s n m₀ k m guests x)
    (hmoment : ∀ g ∈ guests, ∀ y ∈ g.moment, y.1 = m.clock) (hlater : ∀ g ∈ guests, ∀ y ∈ g.later, m.clock < y.1)
    (hnext : ∀ runs guests' m', afterSweep [] .done x = (.joined runs.get .done, m') →
      Stage b s n m₀ (k + newcomers guests) runs guests' m' →
      Concludes b s m₀ (k + newcomers guests) guests' (.joined runs.get .done) m') :
    ConcludesAfter b s m₀ (k + newcomers guests) m guests (afterSweep [] .done x) := by
  cases hx with
  | broken h => exact h.concludes hmoment hlater
  | passed guests' h => exact h.concludes hm hmoment hlater (hnext _ guests' _)

/-! ## Turns -/

variable {part : Run (Except ExecutionError β)} {g : Guest β}

theorem Kept.wake_eq (h : Kept b s n m₀ t m part g) : part.wake? = g.run.wake? := by
  cases h with
  | value v hl hclock => rfl
  | waiting hp hcalm hq => rfl
  | housed h hnew hpart hrun => exact wake?_alike h.alike

theorem Kept.unfailed (h : Kept b s n m₀ t m part g) (hne : ∀ e, part ≠ .done (.error e)) (e : ExecutionError) :
    g.run ≠ .done (.error e) := by
  intro he
  cases hr : part.result? with
  | none =>
    have hwaits := h.waits hr
    rw [he] at hwaits
    cases hwaits
  | some r =>
    cases part with
    | done r' =>
      cases r' with
      | ok v => cases he.symm.trans h.succeeded
      | error e' => exact hne e' rfl
    | _ => cases hr

/-- Guests for whom time passes. -/
abbrev tickGuest (t : Nat) (g : Guest β) : Guest β := { g with machine := { g.machine with clock := t } }

theorem Kept.tick (h : Kept b s n m₀ t m part g) (t' : Nat) :
    Kept b s n m₀ t { m with clock := t' } part (tickGuest t' g) := by
  cases h with
  | value v hl hclock => exact .value v ⟨hl.ended, hl.idle⟩ rfl
  | waiting hp hcalm hq => exact .waiting hp hcalm hq
  | housed h hnew hpart hrun => exact .housed (h.tick t') hnew hpart hrun

/-- A guest that sleeps may be taken on before its next sleep ends. -/
theorem Kept.chronicle_eq (h : Kept b s n m₀ m.clock m part g) (hseat : g.seat ≠ .waiting)
    (hne : ∀ e, part ≠ .done (.error e)) {w : Nat} (hw : ∀ w', part.wake? = some w' → w ≤ w') :
    chronicle [] g.run g.machine = (tickGuest w g).moment ++ (tickGuest w g).later ∧
      g.answer? = (drive (tickGuest w g).after.1 (tickGuest w g).after.2).1 := by
  have hcalm : g.run.Calm g.machine.clock ∧ g.paths = [] := by
    cases h with
    | value v hl hclock => exact ⟨trivial, rfl⟩
    | waiting hp hcalm hq => exact absurd rfl hseat
    | housed h hnew hpart hrun => exact ⟨h.clock_eq ▸ hrun, rfl⟩
  obtain ⟨htold, hanswer⟩ := chronicle_resume (s := []) h.rest hcalm.1 (h.unfailed hne)
    fun w' hw' => hw w' (h.wake_eq.trans hw')
  refine ⟨?_, hanswer⟩
  rw [htold, (h.tick w).moment_append_later, hcalm.2]
  rfl

theorem newcomers_tick (t : Nat) (guests : List (Guest β)) :
    newcomers (guests.map (tickGuest t)) = newcomers guests := List.countP_map

theorem kept_indexed (h : List.Forall₂ (Kept b s n m₀ t m) runs guests) :
    List.Forall₂ (fun i => Kept b s n m₀ t m (runs.get i)) (List.finRange runs.length) guests := by
  rwa [← List.forall₂_map_left_iff, List.map_get_finRange]

/-- What guests tell and come to that sleep, before their next sleep ends. -/
theorem Stage.tick_eq (h : Stage b s n m₀ k runs guests m) {w : Nat}
    (hw : (Run.joined runs.get (.done : Except ExecutionError (List β) → _)).wake? = some w) :
    (guests.map (tickGuest w)).flatMap (fun g => g.moment ++ g.later) =
        guests.flatMap (fun g => chronicle [] g.run g.machine) ∧
      (guests.map (tickGuest w)).map (fun g => (drive g.after.1 g.after.2).1) = guests.map Guest.answer? := by
  have hall : ∀ g ∈ guests, chronicle [] g.run g.machine = (tickGuest w g).moment ++ (tickGuest w g).later ∧
      g.answer? = (drive (tickGuest w g).after.1 (tickGuest w g).after.2).1 := by
    intro g hgmem
    obtain ⟨i, -, hkept⟩ := exists_of_mem_right (kept_indexed h.kept) hgmem
    have hseat : g.seat ≠ .waiting := by simpa using List.countP_eq_zero.1 h.settled g hgmem
    refine hkept.chronicle_eq hseat (h.unfinished.unfailed i) fun w' hw' => ?_
    have hmem : w' ∈ (List.finRange runs.length).filterMap fun i => (runs.get i).wake? :=
      List.mem_filterMap.2 ⟨i, List.mem_finRange i, hw'⟩
    obtain ⟨least, hleast, hle⟩ := exists_min?_le hmem
    cases hw.symm.trans hleast
    exact hle
  refine ⟨?_, ?_⟩
  · rw [List.flatMap_map]
    exact List.flatMap_congr fun g hg => (hall g hg).1.symm
  · rw [List.map_map]
    exact List.map_congr_left fun g hg => (hall g hg).2.symm

/-- **Parts that wait side by side tell what their guests tell, and come to what they come to.** -/
theorem concludes_of_stage (hg : Grounds b s n m₀) (main : Run (Except ExecutionError (List β))) (m : Machine)
    (hm : m.Resting) (hmain : main.Calm m.clock) : ∀ k runs guests, main = .joined runs.get .done →
      Stage b s n m₀ k runs guests m → Concludes b s m₀ k guests main m := by
  refine calm_induction (fun r m hm => nofun)
    (fun main m w hm hr hres hw hlt hturn hcalm ih => ?_) main m hm hmain
  rintro k runs guests rfl hstage
  have hticked : List.Forall₂ (Kept b s n m₀ m.clock { m with clock := w }) runs (guests.map (tickGuest w)) :=
    List.forall₂_map_right_iff.2 (hstage.kept.imp fun _ _ h => h.tick w)
  have hvacant : { m with clock := w }.Vacant := hstage.vacant.rested (hm.advance (Nat.le_of_lt hlt))
  have hswept := swept_guests hg hvacant
    ⟨hstage.spared.node, hstage.spared.trunk, hstage.spared.inputs, hstage.spared.futures, hstage.spared.heads,
      hstage.spared.logs⟩ (kept_indexed hticked) (List.pairwise_map.2 hstage.apart)
  obtain ⟨htold, hanswers⟩ := hstage.tick_eq hw
  have hresume := resume_joined runs.get (.done : Except ExecutionError (List β) → _) [] { m with clock := w }
  rw [hresume] at ih
  obtain ⟨r, m', hdrive, hchronicle, hcomes⟩ := hswept.concludes hvacant
    (fun g hgmem => by
      obtain ⟨part, -, hkept⟩ := exists_of_mem_right hticked hgmem
      exact hkept.moment_eq)
    (fun g hgmem => by
      obtain ⟨part, -, hkept⟩ := exists_of_mem_right hticked hgmem
      exact hkept.later_lt)
    fun runs' guests' m' hafter hstage' => by
      rw [hafter] at ih
      exact ih _ runs' guests' rfl hstage'
  rw [← hresume] at hdrive hchronicle
  rw [htold] at hchronicle
  rw [hanswers, newcomers_tick, hstage.settled, Nat.add_zero] at hcomes
  refine ⟨r, m', (drive_of_turn hres hturn).trans hdrive, ?_, hcomes⟩
  rw [chronicle_of_turn hres hturn, hcalm.clock]
  exact hchronicle

end Machine

/-! ## From the start -/

/-- A program that is to run on a fork of a branch, with the paths that it enters before. -/
structure Tenant (β : Type) : Type 1 where
  /-- The fork, unless the program is a value. -/
  options? : Option ForkOptions
  paths : List Path
  program : Prog (Except ExecutionError β)

namespace Tenant

/-- The machine that a program runs on. -/
def home (inputs : Inputs) (n : Node) (clock : Nat) (tenant : Tenant β) : Machine :=
  lone inputs (forkNode n (tenant.options?.getD .plain)) clock

/-- What it tells, with the paths that it enters before. -/
def story (inputs : Inputs) (n : Node) (clock : Nat) (tenant : Tenant β) : Story :=
  entries clock tenant.paths ++ Machine.story [] tenant.program (tenant.home inputs n clock)

/-- What it comes to. -/
def answer? (inputs : Inputs) (n : Node) (clock : Nat) (tenant : Tenant β) : Option (Except ExecutionError β) :=
  ((tenant.home inputs n clock).run tenant.program).1

/-- The tenant whose program does something more with its value. -/
def map {γ : Type} (f : β → γ) (tenant : Tenant β) : Tenant γ :=
  ⟨tenant.options?, tenant.paths, tenant.program.bind fun r => .done (r.map f)⟩

/-- How many forks there will be. -/
def forks (tenants : List (Tenant β)) : Nat := tenants.countP fun tenant => tenant.options?.isSome

end Tenant

/-- A program is a value, or runs on a fork of its own as another one does on its own branch. -/
inductive Lodged (b : Route) : Tenant β → Prog (Except ExecutionError β) → Prop
  | value (v : β) : Lodged b ⟨none, [], .done (.ok v)⟩ (.done (.ok v))
  | fork {options : ForkOptions} {paths : List Path} {p q : Prog (Except ExecutionError β)}
      (hp : Lodges (fun _ => Eq) b options q paths p) : Lodged b ⟨some options, paths, q⟩ p

variable {tenants : List (Tenant β)} {parts : List (Prog (Except ExecutionError β))}

/-- The run of a program that is yet to start. -/
def Prog.arriving : Prog (Except ExecutionError β) → Run (Except ExecutionError β)
  | .done r => .done r
  | p => .asleep 0 p

theorem Prog.resume_arriving (p : Prog (Except ExecutionError β)) (base : Route) (m : Machine) :
    p.arriving.resume base m = p.start base m := by
  cases p with
  | done r => rfl
  | _ => exact if_pos (Nat.zero_le _)

/-- The guest that is yet to start. -/
def Tenant.guest (inputs : Inputs) (n : Node) (clock : Nat) (tenant : Tenant β) : Guest β :=
  match tenant.options? with
  | none => ⟨.none, tenant.paths, tenant.program.arriving, tenant.home inputs n clock⟩
  | some _ => ⟨.waiting, tenant.paths, .asleep 0 tenant.program, tenant.home inputs n clock⟩

namespace Tenant

variable {inputs : Inputs} {clock : Nat} (tenant : Tenant β)

theorem after_guest : (tenant.guest inputs n clock).after = tenant.program.start [] (tenant.home inputs n clock) := by
  unfold guest
  cases tenant.options? with
  | none => exact tenant.program.resume_arriving [] _
  | some options => exact if_pos (Nat.zero_le _)

theorem paths_guest : (tenant.guest inputs n clock).paths = tenant.paths := by
  unfold guest
  cases tenant.options? <;> rfl

theorem machine_guest : (tenant.guest inputs n clock).machine = tenant.home inputs n clock := by
  unfold guest
  cases tenant.options? <;> rfl

theorem seat_guest :
    (tenant.guest inputs n clock).seat = if tenant.options?.isSome then Seat.waiting else Seat.none := by
  unfold guest
  cases tenant.options? <;> rfl

theorem newcomers_guests (tenants : List (Tenant β)) :
    newcomers (tenants.map (guest inputs n clock)) = forks tenants := by
  unfold newcomers forks
  rw [List.countP_map]
  refine List.countP_congr fun tenant _ => ?_
  rw [Function.comp_apply, seat_guest]
  cases tenant.options?.isSome <;> simp

end Tenant

/-- A program that is yet to start, and its guest. -/
theorem Lodged.kept {tenant : Tenant β} {p : Prog (Except ExecutionError β)} (h : Lodged b tenant p) (hcalm : p.Calm)
    (hq : tenant.program.Calm) (s : Route) :
    Kept b s n m 0 m p.arriving (tenant.guest (m.inputsAt b) n m.clock) := by
  cases h with
  | value v => exact .value v (vacant_lone _ _ _).rest rfl
  | @fork options paths p q hp =>
    have harriving : p.arriving = .asleep 0 p := by
      cases hp <;> rfl
    rw [harriving]
    exact .waiting hp hcalm hq

/-- The guests of programs that are yet to start. -/
theorem kept_arriving (h : List.Forall₂ (Lodged b) tenants parts) (hparts : ∀ p ∈ parts, p.Calm)
    (hhomes : ∀ tenant ∈ tenants, tenant.program.Calm) (s : Route) :
    List.Forall₂ (Kept b s n m 0 m) (parts.map Prog.arriving)
      (tenants.map (Tenant.guest (m.inputsAt b) n m.clock)) :=
  List.forall₂_map_left_iff.2 (List.forall₂_map_right_iff.2 (forall₂_of_mem h.flip fun p tenant hp ht h =>
    h.kept (hparts p hp) (hhomes tenant ht) s))

/-- Those that are yet to start share no fork. -/
theorem Tenant.apart_guests (inputs : Inputs) (n : Node) (clock : Nat) (tenants : List (Tenant β)) :
    (tenants.map (guest inputs n clock)).Pairwise Apart := by
  refine List.pairwise_of_forall_mem_list fun g hg g' hg' i hi => ?_
  obtain ⟨tenant, -, rfl⟩ := List.mem_map.1 hg
  rw [seat_guest] at hi
  split at hi <;> cases hi

/-- What the guests of programs that are yet to start tell, and what they come to. -/
theorem Tenant.guests_eq (h : List.Forall₂ (Lodged b) tenants parts) (hparts : ∀ p ∈ parts, p.Calm)
    (hhomes : ∀ tenant ∈ tenants, tenant.program.Calm) :
    (tenants.map (guest (m.inputsAt b) n m.clock)).flatMap (fun g => g.moment ++ g.later) =
        tenants.flatMap (story (m.inputsAt b) n m.clock) ∧
      (tenants.map (guest (m.inputsAt b) n m.clock)).map (fun g => (drive g.after.1 g.after.2).1) =
        tenants.map (answer? (m.inputsAt b) n m.clock) := by
  have hkept := kept_arriving (n := n) (m := m) h hparts hhomes []
  constructor
  · rw [List.flatMap_map]
    refine List.flatMap_congr fun tenant htenant => ?_
    obtain ⟨part, -, hpart⟩ := exists_of_mem_right hkept (List.mem_map_of_mem htenant)
    rw [hpart.moment_append_later, after_guest, paths_guest, machine_guest, entries_append, List.append_assoc]
    rfl
  · rw [List.map_map]
    refine List.map_congr_left fun tenant _ => ?_
    rw [Function.comp_apply, after_guest]
    rfl

/-- **Programs side by side do what each of them does on a machine of its own.** They tell what all of them tell, in the
order of instants and, at the same instant, of the programs, up to the first failure, and succeed exactly if all of them
do, with the values of all of them. -/
theorem run_parallel (hm : m.Vacant) (hn : m.node? b = some n) (hpending : n.store.pending = [])
    (h : List.Forall₂ (Lodged b) tenants parts) (hparts : ∀ p ∈ parts, p.Calm)
    (hhomes : ∀ tenant ∈ tenants, tenant.program.Calm) :
    ∃ r m', m.run (Prog.parallel parts) = (some r, m') ∧
      Machine.story (m.tree.sessionRoute b) (Prog.parallel parts) m =
        upToFailure (chronology (tenants.flatMap (Tenant.story (m.inputsAt b) n m.clock))) ∧
      Comes b (m.tree.sessionRoute b) m (Tenant.forks tenants)
        (tenants.map (Tenant.answer? (m.inputsAt b) n m.clock)) r m' := by
  have hg : Grounds b (m.tree.sessionRoute b) n m := ⟨hm, hn, hpending, rfl⟩
  have hkept := kept_arriving (n := n) (m := m) h hparts hhomes (m.tree.sessionRoute b)
  have hmap : (List.finRange parts.length).map (fun i => (parts.get i).arriving) = parts.map Prog.arriving :=
    List.map_map.symm.trans (congrArg (List.map Prog.arriving) (List.map_get_finRange parts))
  have hswept := swept_guests hg hm (.refl b _ m) (List.forall₂_map_left_iff.1 (hmap ▸ hkept))
    (Tenant.apart_guests _ n m.clock tenants)
  have hcalm : (Prog.parallel parts).Calm := Prog.calm_parallel hparts
  have hstarted : CalmRun m ((Prog.parallel parts).start [] m) := calm_start hcalm hm.rest
  have hstart : (Prog.parallel parts).start [] m =
      afterSweep [] .done (sweep (fun i m => (parts.get i).arriving.resume [] m) (List.finRange parts.length) m) := by
    simp only [Prog.resume_arriving, start_parallel]
  obtain ⟨r, m', hdrive, hchronicle, hcomes⟩ := hswept.concludes hm
    (fun g hgmem => by
      obtain ⟨part, -, hpart⟩ := exists_of_mem_right hkept hgmem
      exact hpart.moment_eq)
    (fun g hgmem => by
      obtain ⟨part, -, hpart⟩ := exists_of_mem_right hkept hgmem
      exact hpart.later_lt)
    fun runs guests' m'' hafter hstage => by
      rw [hstart, hafter] at hstarted
      exact concludes_of_stage hg _ _ hstarted.rested.rest
        (by rw [hstarted.clock]; exact hstarted.calm) _ runs guests' rfl hstage
  obtain ⟨htold, hanswers⟩ := Tenant.guests_eq (n := n) (m := m) h hparts hhomes
  rw [← hstart] at hdrive hchronicle
  rw [htold] at hchronicle
  rw [Nat.zero_add, Tenant.newcomers_guests, hanswers] at hcomes
  exact ⟨r, m', hdrive, hchronicle, hcomes⟩

end MediaQuery
