import MediaQuery.Proofs.Machine.Future
import Mathlib.Data.List.Nodup

/-!
# The queue of a machine

Between turns the queue of a machine holds exactly the futures that are ready (`Orderly`), each of them once. So the
queue is never searched: its head runs (`runQueue_of_head`), and the main program has its turn when the queue is
empty. What makes this an invariant is that every future that a run waits for is on the machine (`Run.Knows`), so
that a run which is ready stays so.
-/

namespace MediaQuery

open Machine

namespace Machine

/-- The state of the future of a name. -/
def state? (m : Machine) (id : FutureId) : Option FutureState := (m.future? id).map Future.state

/-- Whether a future has ended. -/
def isOver (m : Machine) (id : FutureId) : Bool := ((m.future? id).bind Future.report?).isSome

/-- The future that a wait is held up by. -/
def heldBy : Wait → FutureId
  | .futures front _ _ => front
  | .slots slot _ _ => slot.2.2

end Machine

/-- What a run waits for is on the machine. -/
def Run.Knows (m : Machine) : {α : Type} → Run α → Prop
  | _, .resolving _ _ _ future _ => (m.state? future).isSome = true
  | _, .waiting _ wait _ => (m.state? (heldBy wait)).isSome = true
  | _, .joined parts _ => ∀ i, (parts i).Knows m
  | _, _ => True

namespace Machine

variable {m m' : Machine} {α : Type} {id : FutureId}

/-! ## States -/

theorem state?_setFuture (m : Machine) (id id' : FutureId) (state : FutureState) :
    (m.setFuture id state).state? id' =
      if id' = id then (m.state? id).map fun _ => state else m.state? id' := by
  unfold state?
  rw [future?_setFuture]
  split
  · simp [Function.comp_def]
  · rfl

theorem state?_spawn {a : Route} (h : (m.branch? a).isSome = true) (key : String)
    (p : Prog (Except EvalError Value)) (id : FutureId) :
    (m.spawn a key p).state? id =
      (m.state? id).or (if id = m.nextFuture a then some (.running (.asleep m.clock p)) else none) := by
  unfold state?
  rw [future?_spawn h]
  cases m.future? id with
  | some f => rfl
  | none =>
    rw [Option.none_or, Option.map_none, Option.none_or]
    split <;> rfl

/-- Whether a future has ended is a matter of its state. -/
theorem isOver_eq (m : Machine) (id : FutureId) :
    m.isOver id = match m.state? id with
      | some (.ended _ _) => true
      | _ => false := by
  unfold isOver state?
  cases m.future? id with
  | none => rfl
  | some f =>
    simp only [Option.bind_some, Option.map_some, Future.report?]
    cases f.state <;> rfl

theorem isOver_congr (h : m'.state? id = m.state? id) : m'.isOver id = m.isOver id := by
  rw [isOver_eq, isOver_eq, h]

/-- Only a future that is there can have ended. -/
theorem isSome_of_isOver (h : m.isOver id = true) : (m.state? id).isSome = true := by
  rw [isOver_eq] at h
  cases hs : m.state? id with
  | none => simp [hs] at h
  | some state => rfl

theorem isRunning_outcome (h : (m.state? id).isSome = true) : (m.outcome id).isRunning = !m.isOver id := by
  unfold state? at h
  rw [Option.isSome_map] at h
  obtain ⟨f, hf⟩ := Option.isSome_iff_exists.1 h
  have hout : f.outcome.isRunning = !f.report?.isSome := by
    unfold Future.outcome Future.report?
    rcases f.state with _ | _ | ⟨_ | _, _⟩ <;> rfl
  unfold outcome isOver
  rw [hf]
  exact hout

theorem waitIsReady_eq {wait : Wait} (h : (m.state? (heldBy wait)).isSome = true) :
    m.waitIsReady wait = m.isOver (heldBy wait) := by
  cases wait with
  | futures front rest failure => rfl
  | slots slot rest failure =>
    have hrun := isRunning_outcome h
    simp only [heldBy] at hrun
    simp only [waitIsReady, heldBy, hrun, Bool.not_not]

/-! ## Readiness -/

/-- A later state of a machine: time goes on, and what has ended has ended. -/
structure Later (m m' : Machine) : Prop where
  clock : m.clock ≤ m'.clock
  known : ∀ id, (m.state? id).isSome = true → (m'.state? id).isSome = true
  ended : ∀ id, m.isOver id = true → m'.isOver id = true

/-- Where all futures are in the same state it is no later but for the time. -/
theorem later_of_states (hc : m.clock ≤ m'.clock) (hs : ∀ id, m'.state? id = m.state? id) : Later m m' :=
  ⟨hc, fun id h => by rw [hs, h], fun id h => by rw [isOver_congr (hs id), h]⟩

theorem knows_later {run : Run α} (hk : run.Knows m) (h : Later m m') : run.Knows m' := by
  induction run with
  | done a => trivial
  | asleep wake next => trivial
  | resolving branch key generation future next => exact h.known _ hk
  | waiting branch wait next => exact h.known _ hk
  | joined parts next ih => exact fun i => ih i (hk i)

/-- A run that is ready stays so. -/
theorem isReady_of_later {run : Run α} (hk : run.Knows m) (h : Later m m') (hr : run.isReady m = true) :
    run.isReady m' = true := by
  induction run with
  | done a => cases hr
  | asleep wake next => exact decide_eq_true (Nat.le_trans (of_decide_eq_true hr) h.clock)
  | resolving branch key generation future next =>
    unfold Run.isReady at hr ⊢
    rw [isRunning_outcome hk, Bool.not_not] at hr
    rw [isRunning_outcome (h.known _ hk), Bool.not_not]
    exact h.ended _ hr
  | waiting branch wait next =>
    unfold Run.isReady at hr ⊢
    rw [waitIsReady_eq hk] at hr
    rw [waitIsReady_eq (h.known _ hk)]
    exact h.ended _ hr
  | joined parts next ih =>
    obtain ⟨i, hi, hready⟩ := List.any_eq_true.1 hr
    exact List.any_eq_true.2 ⟨i, hi, ih i (hk i) hready⟩

/-- Where no time passes and nothing ends, nothing becomes ready. -/
theorem isReady_of_same {run : Run α} (hk : run.Knows m) (h : Later m m') (hc : m'.clock = m.clock)
    (ho : ∀ id, (m.state? id).isSome = true → m'.isOver id = m.isOver id) :
    run.isReady m' = run.isReady m := by
  induction run with
  | done a => rfl
  | asleep wake next =>
    unfold Run.isReady
    rw [hc]
  | resolving branch key generation future next =>
    unfold Run.isReady
    rw [isRunning_outcome hk, isRunning_outcome (h.known _ hk), ho _ hk]
  | waiting branch wait next =>
    unfold Run.isReady
    rw [waitIsReady_eq hk, waitIsReady_eq (h.known _ hk), ho _ hk]
  | joined parts next ih =>
    unfold Run.isReady
    exact congrArg (List.any _) (funext fun i => ih i (hk i))

/-- A run whose sleep is over is ready. -/
theorem isReady_of_wake {run : Run α} {t : Nat} (hw : run.wake? = some t) (ht : t ≤ m.clock) :
    run.isReady m = true := by
  induction run generalizing t with
  | asleep wake next =>
    cases hw
    exact decide_eq_true ht
  | joined parts next ih =>
    have hmem := List.min?_mem hw
    obtain ⟨i, hi, hwi⟩ := List.mem_filterMap.1 hmem
    exact List.any_eq_true.2 ⟨i, hi, ih i hwi ht⟩
  | _ => cases hw

/-! ## The invariant -/

/-- Each future has a name of its own, knows what it waits for, and is in the queue at most once and only if it is
ready. -/
structure Tidy (m : Machine) : Prop where
  distinct : (m.futures.map Future.id).Nodup
  nodup : m.ready.Nodup
  live : ∀ id ∈ m.ready, ∃ run, m.state? id = some (.running run) ∧ run.isReady m = true
  knows : ∀ id run, m.state? id = some (.running run) → run.Knows m

/-- And every future that is ready is in the queue. -/
structure Orderly (m : Machine) : Prop extends Tidy m where
  queued : ∀ id run, m.state? id = some (.running run) → run.isReady m = true → id ∈ m.ready

/-- A machine that has just been started has no futures. -/
theorem orderly_start (inputs : Inputs) : Orderly (start inputs) :=
  ⟨⟨.nil, .nil, nofun, nofun⟩, nofun⟩

/-- Where names are distinct a future is found under its name. -/
theorem find?_of_mem {futures : List Future} (hd : (futures.map Future.id).Nodup) {f : Future} (hf : f ∈ futures) :
    futures.find? (·.id = f.id) = some f := by
  induction futures with
  | nil => cases hf
  | cons g rest ih =>
    rw [List.map_cons, List.nodup_cons] at hd
    rcases List.mem_cons.1 hf with rfl | hf
    · simp
    · have hne : g.id ≠ f.id := fun heq => hd.1 (heq ▸ List.mem_map_of_mem hf)
      simpa [hne] using ih hd.2 hf

theorem Tidy.future?_of_mem (h : Tidy m) {f : Future} (hf : f ∈ m.futures) : m.future? f.id = some f :=
  find?_of_mem h.distinct hf

/-- What a step has to show to leave a machine tidy. -/
theorem Tidy.later (h : Tidy m) (hl : Later m m') (hd : (m'.futures.map Future.id).Nodup) (hn : m'.ready.Nodup)
    (hlive : ∀ id ∈ m'.ready, (id ∈ m.ready ∧ m'.state? id = m.state? id) ∨
      ∃ run, m'.state? id = some (.running run) ∧ run.isReady m' = true)
    (hknows : ∀ id run, m'.state? id = some (.running run) →
      m.state? id = some (.running run) ∨ run.Knows m') : Tidy m' := by
  refine ⟨hd, hn, fun id hid => ?_, fun id run hrun => ?_⟩
  · rcases hlive id hid with ⟨hold, hs⟩ | hnew
    · obtain ⟨run, hrun, hready⟩ := h.live id hold
      exact ⟨run, hs.trans hrun, isReady_of_later (h.knows id run hrun) hl hready⟩
    · exact hnew
  · rcases hknows id run hrun with hold | hk
    · exact knows_later (h.knows id run hold) hl
    · exact hk

/-- What a step during which nothing ends has to show to leave a machine orderly. -/
theorem Orderly.later (h : Orderly m) (ht : Tidy m') (hl : Later m m') (hc : m'.clock = m.clock)
    (ho : ∀ id, (m.state? id).isSome = true → m'.isOver id = m.isOver id)
    (hqueued : ∀ id run, m'.state? id = some (.running run) →
      (m.state? id = some (.running run) ∧ (id ∈ m.ready → id ∈ m'.ready)) ∨ id ∈ m'.ready) : Orderly m' := by
  refine ⟨ht, fun id run hrun hready => ?_⟩
  rcases hqueued id run hrun with ⟨hold, hmem⟩ | hmem
  · rw [isReady_of_same (h.knows id run hold) hl hc ho] at hready
    exact hmem (h.queued id run hold hready)
  · exact hmem

/-! ## Steps -/

/-- What leaves all futures in their states, and the queue, leaves a machine orderly. -/
theorem Orderly.congr (h : Orderly m) (hids : m'.futures.map Future.id = m.futures.map Future.id)
    (hs : ∀ id, m'.state? id = m.state? id) (hr : m'.ready = m.ready) (hc : m'.clock = m.clock) : Orderly m' := by
  have hl := later_of_states (Nat.le_of_eq hc.symm) hs
  refine h.later (h.toTidy.later hl (hids ▸ h.distinct) (hr ▸ h.nodup) (fun id hid => ?_) fun id run hrun => ?_) hl hc
    (fun id _ => isOver_congr (hs id)) fun id run hrun => ?_
  · exact .inl ⟨hr ▸ hid, hs id⟩
  · exact .inl (hs id ▸ hrun)
  · exact .inl ⟨hs id ▸ hrun, fun hid => hr ▸ hid⟩

/-! ### A new future -/

section Spawn

variable {a : Route} (key : String) (p : Prog (Except EvalError Value))

theorem state?_eq_none (h : m.future? id = none) : m.state? id = none := by
  unfold state?
  rw [h]
  rfl

theorem state?_spawn_of_ne (ha : (m.branch? a).isSome = true) (hid : id ≠ m.nextFuture a) :
    (m.spawn a key p).state? id = m.state? id := by
  rw [state?_spawn ha, if_neg hid, Option.or_none]

theorem state?_spawn_self (ha : (m.branch? a).isSome = true) (hnew : m.future? (m.nextFuture a) = none) :
    (m.spawn a key p).state? (m.nextFuture a) = some (.running (.asleep m.clock p)) := by
  rw [state?_spawn ha, state?_eq_none hnew, if_pos rfl]
  rfl

/-- What was there before is as it was. -/
theorem state?_spawn_of_isSome (ha : (m.branch? a).isSome = true) (hnew : m.future? (m.nextFuture a) = none)
    (hid : (m.state? id).isSome = true) : (m.spawn a key p).state? id = m.state? id := by
  refine state?_spawn_of_ne key p ha ?_
  rintro rfl
  rw [state?_eq_none hnew] at hid
  cases hid

/-- What runs has run before, or is what has been started. -/
theorem running_spawn {run : Run (Except EvalError Value)} (ha : (m.branch? a).isSome = true)
    (hnew : m.future? (m.nextFuture a) = none) (hrun : (m.spawn a key p).state? id = some (.running run)) :
    m.state? id = some (.running run) ∨ id = m.nextFuture a ∧ run = .asleep m.clock p := by
  by_cases hid : id = m.nextFuture a
  · subst hid
    rw [state?_spawn_self key p ha hnew] at hrun
    cases hrun
    exact .inr ⟨rfl, rfl⟩
  · exact .inl (state?_spawn_of_ne key p ha hid ▸ hrun)

theorem later_spawn (ha : (m.branch? a).isSome = true) (hnew : m.future? (m.nextFuture a) = none) :
    Later m (m.spawn a key p) := by
  have hsame (id : FutureId) (hid : (m.state? id).isSome = true) : (m.spawn a key p).state? id = m.state? id :=
    state?_spawn_of_isSome key p ha hnew hid
  refine ⟨Nat.le_of_eq (clock_spawn m a key p).symm, fun id hid => by rw [hsame id hid, hid], fun id hid => ?_⟩
  rw [isOver_congr (hsame id (isSome_of_isOver hid)), hid]

/-- A new future is ready and in the queue. -/
theorem Orderly.spawn (h : Orderly m) (ha : (m.branch? a).isSome = true)
    (hnew : m.future? (m.nextFuture a) = none) : Orderly (m.spawn a key p) := by
  have hready : (m.spawn a key p).ready = m.ready ++ [m.nextFuture a] :=
    congrArg Machine.ready (spawn_of_there ha key p)
  have hids : (m.spawn a key p).futures.map Future.id = m.futures.map Future.id ++ [m.nextFuture a] := by
    rw [spawn_of_there ha, List.map_append, List.map_singleton]
  have hclock := clock_spawn m a key p
  have hsame (id : FutureId) (hid : (m.state? id).isSome = true) : (m.spawn a key p).state? id = m.state? id :=
    state?_spawn_of_isSome key p ha hnew hid
  have hl := later_spawn key p ha hnew
  have hnotin : m.nextFuture a ∉ m.futures.map Future.id := by
    intro hmem
    obtain ⟨f, hf, hid⟩ := List.mem_map.1 hmem
    cases (hid ▸ h.future?_of_mem hf).symm.trans hnew
  have hnotready : m.nextFuture a ∉ m.ready := by
    intro hmem
    obtain ⟨run, hrun, -⟩ := h.live _ hmem
    cases (state?_eq_none hnew).symm.trans hrun
  refine h.later (h.toTidy.later hl ?_ ?_ (fun id hid => ?_) fun id run hrun => ?_) hl hclock
    (fun id hid => isOver_congr (hsame id hid)) fun id run hrun => ?_
  · rw [hids]
    exact List.nodup_append_comm.1 (List.nodup_cons.2 ⟨hnotin, h.distinct⟩)
  · rw [hready]
    exact List.nodup_append_comm.1 (List.nodup_cons.2 ⟨hnotready, h.nodup⟩)
  · rw [hready] at hid
    rcases List.mem_append.1 hid with hid | hid
    · obtain ⟨run, hrun, -⟩ := h.live id hid
      exact .inl ⟨hid, hsame id (by rw [hrun]; rfl)⟩
    · rw [List.mem_singleton] at hid
      subst hid
      exact .inr ⟨_, state?_spawn_self key p ha hnew, decide_eq_true (Nat.le_of_eq hclock.symm)⟩
  · rcases running_spawn key p ha hnew hrun with hrun | ⟨-, rfl⟩
    · exact .inl hrun
    · exact .inr trivial
  · rw [hready]
    rcases running_spawn key p ha hnew hrun with hrun | ⟨rfl, -⟩
    · exact .inl ⟨hrun, fun hid => List.mem_append_left _ hid⟩
    · exact .inr (List.mem_append_right _ (List.mem_singleton_self _))

end Spawn

/-! ### A future that changes its state -/

/-- What is known about a machine one of whose futures, which has not ended, changes its state. -/
theorem later_setFuture {state old : FutureState} (hs : m.state? id = some old) (ho : m.isOver id = false) :
    Later m (m.setFuture id state) := by
  refine ⟨Nat.le_refl _, fun id' hid => ?_, fun id' hid => ?_⟩
  · rw [state?_setFuture]
    split
    · rw [hs]
      rfl
    · exact hid
  · have hne : id' ≠ id := by
      rintro rfl
      rw [ho] at hid
      cases hid
    exact (isOver_congr (by rw [state?_setFuture, if_neg hne])).trans hid

/-- A future changes its state in its place. -/
theorem ids_setFuture (m : Machine) (id : FutureId) (state : FutureState) :
    (m.setFuture id state).futures.map Future.id = m.futures.map Future.id := by
  unfold setFuture
  induction m.futures with
  | nil => rfl
  | cons f rest ih =>
    simp only [Future.setState]
    split
    · rfl
    · rw [List.map_cons, ih, List.map_cons]

/-- To take a future on is no more than that. -/
theorem later_busy {run : Run (Except EvalError Value)} (hs : m.state? id = some (.running run))
    (rest : List FutureId) : Later m ({ m with ready := rest }.setFuture id .busy) := by
  have hself : { m with ready := rest }.state? id = some (.running run) := hs
  have hlate : { m with ready := rest }.isOver id = false := by rw [isOver_eq, hself]
  obtain ⟨hclock, hknown, hover⟩ := later_setFuture hself hlate
  exact ⟨hclock, hknown, hover⟩

/-- The future at the head of the queue is taken on. -/
theorem Orderly.busy (h : Orderly m) {rest : List FutureId} (hr : m.ready = id :: rest) :
    Orderly ({ m with ready := rest }.setFuture id .busy) := by
  have hnodup := h.nodup
  rw [hr, List.nodup_cons] at hnodup
  obtain ⟨run₀, hrun₀, -⟩ := h.live id (by rw [hr]; exact List.mem_cons_self)
  have hself : { m with ready := rest }.state? id = some (.running run₀) := hrun₀
  have hlate : m.isOver id = false := by rw [isOver_eq, hrun₀]
  have hstate (id' : FutureId) : ({ m with ready := rest }.setFuture id .busy).state? id' =
      if id' = id then some .busy else m.state? id' := by
    rw [state?_setFuture, hself]
    rfl
  have hover (id' : FutureId) : ({ m with ready := rest }.setFuture id .busy).isOver id' = m.isOver id' := by
    by_cases hid : id' = id
    · rw [isOver_eq, hstate, if_pos hid, hid, hlate]
    · exact isOver_congr (by rw [hstate, if_neg hid])
  have hl := later_busy hrun₀ rest
  have hrunning (id' : FutureId) (run : Run (Except EvalError Value))
      (hrun : ({ m with ready := rest }.setFuture id .busy).state? id' = some (.running run)) :
      id' ≠ id ∧ m.state? id' = some (.running run) := by
    rw [hstate] at hrun
    split at hrun
    · cases hrun
    · next hne => exact ⟨hne, hrun⟩
  refine h.later (h.toTidy.later hl ?_ hnodup.2 (fun id' hid => ?_) fun id' run hrun => ?_) hl rfl
    (fun id' _ => hover id') fun id' run hrun => ?_
  · rw [ids_setFuture]
    exact h.distinct
  · have hne : id' ≠ id := fun heq => hnodup.1 (heq ▸ hid)
    exact .inl ⟨hr ▸ List.mem_cons_of_mem _ hid, by rw [hstate, if_neg hne]⟩
  · exact .inl (hrunning id' run hrun).2
  · obtain ⟨hne, hold⟩ := hrunning id' run hrun
    exact .inl ⟨hold, fun hid => (List.mem_cons.1 (hr ▸ hid)).resolve_left hne⟩

/-- A future that has been taken on goes back to waiting, or ends. -/
theorem Orderly.put (h : Orderly m) {state : FutureState} (hs : m.state? id = some .busy)
    (hk : ∀ run, state = .running run → run.Knows m) : Tidy (m.setFuture id state) := by
  have hl : Later m (m.setFuture id state) := later_setFuture hs (by rw [isOver_eq, hs])
  refine h.toTidy.later hl ?_ h.nodup (fun id' hid => ?_) fun id' run hrun => ?_
  · rw [ids_setFuture]
    exact h.distinct
  · have hne : id' ≠ id := by
      rintro rfl
      obtain ⟨run, hrun, -⟩ := h.live _ hid
      cases hs.symm.trans hrun
    exact .inl ⟨hid, by rw [state?_setFuture, if_neg hne]⟩
  · rw [state?_setFuture] at hrun
    split at hrun
    · rw [hs] at hrun
      exact .inr (knows_later (hk run (Option.some.inj hrun)) hl)
    · exact .inl hrun

/-- Readiness is a matter of the futures and the time. -/
theorem isReady_enqueue (m : Machine) (run : Run α) : run.isReady m.enqueue = run.isReady m := by
  induction run with
  | joined parts next ih =>
    unfold Run.isReady
    exact congrArg (List.any _) (funext ih)
  | waiting branch wait next => cases wait <;> rfl
  | _ => rfl

theorem future_isReady_iff {f : Future} :
    f.isReady m = true ↔ ∃ run, f.state = .running run ∧ run.isReady m = true := by
  unfold Future.isReady
  split
  · next run hs =>
    rw [hs]
    exact ⟨fun h => ⟨run, rfl, h⟩, fun ⟨run', heq, h⟩ => by cases heq; exact h⟩
  · next hs => exact ⟨nofun, fun ⟨run, heq, _⟩ => absurd heq (hs run)⟩

/-- All that is ready goes into the queue. -/
theorem Tidy.mem_enqueue (h : Tidy m) : id ∈ m.enqueue.ready ↔
    ∃ run, m.state? id = some (.running run) ∧ run.isReady m = true := by
  have hready : m.enqueue.ready =
      m.ready ++ (m.futures.filter fun f => f.isReady m && f.id ∉ m.ready).map Future.id := rfl
  rw [hready, List.mem_append, List.mem_map]
  constructor
  · rintro (hid | ⟨f, hf, rfl⟩)
    · exact h.live id hid
    · obtain ⟨hmem, hcond⟩ := List.mem_filter.1 hf
      rw [Bool.and_eq_true] at hcond
      obtain ⟨run, hs, hr⟩ := future_isReady_iff.1 hcond.1
      refine ⟨run, ?_, hr⟩
      unfold state?
      rw [h.future?_of_mem hmem, Option.map_some, hs]
  · rintro ⟨run, hs, hr⟩
    by_cases hid : id ∈ m.ready
    · exact .inl hid
    · obtain ⟨f, hf, hfs⟩ := Option.map_eq_some_iff.1 hs
      obtain rfl := id_of_future? hf
      refine .inr ⟨f, List.mem_filter.2 ⟨List.mem_of_find?_eq_some hf, ?_⟩, rfl⟩
      rw [future_isReady_iff.2 ⟨run, hfs, hr⟩]
      simpa using hid

theorem Tidy.enqueue (h : Tidy m) : Orderly m.enqueue := by
  refine ⟨⟨h.distinct, ?_, fun id hid => ?_, fun id run hrun => ?_⟩, fun id run hrun hr => ?_⟩
  · refine List.nodup_append.2 ⟨h.nodup, ?_, fun id hid id' hid' heq => ?_⟩
    · exact h.distinct.sublist (List.filter_sublist.map Future.id)
    · obtain ⟨f, hf, rfl⟩ := List.mem_map.1 hid'
      have hcond := (List.mem_filter.1 hf).2
      rw [← heq] at hcond
      simp [hid] at hcond
  · obtain ⟨run, hrun, hr⟩ := h.mem_enqueue.1 hid
    exact ⟨run, hrun, isReady_enqueue m run ▸ hr⟩
  · exact knows_later (h.knows id run hrun) (later_of_states (Nat.le_refl _) fun _ => rfl)
  · exact h.mem_enqueue.2 ⟨run, hrun, isReady_enqueue m run ▸ hr⟩

/-- As time goes on what is ready stays so. -/
theorem Tidy.tick (h : Tidy m) {t : Nat} (ht : m.clock ≤ t) : Tidy { m with clock := t } := by
  have hl : Later m { m with clock := t } := later_of_states ht fun _ => rfl
  exact h.later hl h.distinct h.nodup (fun id hid => .inl ⟨hid, rfl⟩) fun id run hrun => .inl hrun

/-! ## Turns -/

/-- The head of the queue runs. -/
theorem Orderly.runQueue_of_head (h : Orderly m) {rest : List FutureId} (hr : m.ready = id :: rest) :
    ∃ f run m', m.future? id = some f ∧ f.state = .running run ∧ run.isReady m = true ∧
      { m with ready := rest }.runFuture f = some m' ∧ runQueue m.ready m = some m' := by
  obtain ⟨run, hrun, hready⟩ := h.live id (by rw [hr]; exact List.mem_cons_self)
  obtain ⟨f, hf, hs⟩ := Option.map_eq_some_iff.1 hrun
  have hready' : run.isReady ({ m with ready := rest }.setFuture f.id .busy) = true := by
    rw [id_of_future? hf]
    exact isReady_of_later (h.knows id run hrun) (later_busy hrun rest) hready
  obtain ⟨m', hm'⟩ : ∃ m', { m with ready := rest }.runFuture f = some m' := by
    unfold runFuture
    rw [hs]
    dsimp only
    rw [if_pos hready']
    exact ⟨_, rfl⟩
  refine ⟨f, run, m', hf, hs, hready, hm', ?_⟩
  rw [hr]
  unfold runQueue
  rw [hf, Option.bind_some, hm']

/-- Where the queue is empty nothing is ready. -/
theorem Orderly.not_ready (h : Orderly m) (hr : m.ready = []) {run : Run (Except EvalError Value)}
    (hrun : m.state? id = some (.running run)) : run.isReady m = false := by
  cases hready : run.isReady m with
  | false => rfl
  | true => exact absurd (h.queued id run hrun hready) (by simp [hr])

/-- If there is nothing to dispatch, the queue is empty and the main program is not ready. -/
theorem Orderly.dispatch_eq_none (h : Orderly m) {main : Run α} (hd : dispatch main m = none) :
    m.ready = [] ∧ main.isReady m = false := by
  unfold dispatch at hd
  cases hr : m.ready with
  | cons id rest =>
    obtain ⟨f, run, m', -, -, -, -, hq⟩ := h.runQueue_of_head hr
    rw [hq] at hd
    cases hd
  | nil =>
    rw [hr] at hd
    refine ⟨rfl, ?_⟩
    cases hready : main.isReady m with
    | false => rfl
    | true => simp [runQueue, hready] at hd

/-- Where the next sleep to end comes from. -/
theorem nextWake?_mem {main : Run α} {t : Nat} (h : nextWake? main m = some t) :
    main.wake? = some t ∨ ∃ f ∈ m.futures, ∃ run, f.state = .running run ∧ run.wake? = some t := by
  rcases List.mem_append.1 (List.min?_mem h) with hmain | hfuture
  · exact .inl (Option.mem_toList.1 hmain)
  · obtain ⟨f, hf, hw⟩ := List.mem_filterMap.1 hfuture
    unfold Future.wake? at hw
    split at hw
    · next run hs => exact .inr ⟨f, hf, run, hs, hw⟩
    · cases hw

/-- Where nothing is ready the next sleep ends later. -/
theorem Orderly.clock_lt_nextWake (h : Orderly m) {main : Run α} {t : Nat} (hd : dispatch main m = none)
    (ht : nextWake? main m = some t) : m.clock < t := by
  obtain ⟨hready, hmain⟩ := h.dispatch_eq_none hd
  refine Nat.lt_of_not_le fun hle => ?_
  rcases nextWake?_mem ht with hw | ⟨f, hf, run, hs, hw⟩
  · cases (isReady_of_wake hw hle).symm.trans hmain
  · have hstate : m.state? f.id = some (.running run) := by
      unfold state?
      rw [h.future?_of_mem hf, Option.map_some, hs]
    cases (isReady_of_wake hw hle).symm.trans (h.not_ready hready hstate)

/-- When the next sleep ends there is something to dispatch. -/
theorem Orderly.dispatch_advanceTo (h : Orderly m) {main : Run α} {t : Nat} (hd : dispatch main m = none)
    (ht : nextWake? main m = some t) : (dispatch main (m.advanceTo t)).isSome = true := by
  have hlt := h.clock_lt_nextWake hd ht
  have ho : Orderly (m.advanceTo t) := (h.toTidy.tick (Nat.le_of_lt hlt)).enqueue
  cases hdisp : dispatch main (m.advanceTo t) with
  | some next => rfl
  | none =>
    obtain ⟨hready, hmain⟩ := ho.dispatch_eq_none hdisp
    rcases nextWake?_mem ht with hw | ⟨f, hf, run, hs, hw⟩
    · cases (isReady_of_wake (m := m.advanceTo t) hw (Nat.le_refl t)).symm.trans hmain
    · have hstate : (m.advanceTo t).state? f.id = some (.running run) := by
        unfold state?
        rw [ho.future?_of_mem hf, Option.map_some, hs]
      cases (isReady_of_wake (m := m.advanceTo t) hw (Nat.le_refl t)).symm.trans (ho.not_ready hready hstate)

end Machine

end MediaQuery
