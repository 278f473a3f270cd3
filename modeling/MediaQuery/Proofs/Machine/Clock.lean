import MediaQuery.Proofs.Machine.Queue
import MediaQuery.Proofs.Machine.Sequence

/-!
# Time that passes

Where nothing can go on, it does not matter whether the clock is moved on, as long as it is not moved past the next
sleep to end: what a main program comes to is the same (`drive_advanceTo`).
-/

namespace MediaQuery.Machine

variable {α : Type} {main : Run α} {m : Machine} {t : Nat}

/-! ## The next sleep -/

/-- The least of some times is no later than any of them. -/
theorem exists_min?_le {times : List Nat} {w : Nat} (h : w ∈ times) : ∃ least, times.min? = some least ∧ least ≤ w := by
  cases hmin : times.min? with
  | none =>
    rw [List.min?_eq_none_iff] at hmin
    rw [hmin] at h
    cases h
  | some least => exact ⟨least, rfl, (List.min?_eq_some_iff.1 hmin).2 w h⟩

/-- No sleep ends before the next one. -/
theorem nextWake?_le_main {w : Nat} (h : main.wake? = some w) : ∃ least, nextWake? main m = some least ∧ least ≤ w :=
  exists_min?_le (List.mem_append_left _ (Option.mem_toList.2 h))

theorem nextWake?_le_future (main : Run α) {f : Future} (hf : f ∈ m.futures) {run : Run (Except EvalError Value)}
    (hs : f.state = .running run) {w : Nat} (h : run.wake? = some w) :
    ∃ least, nextWake? main m = some least ∧ least ≤ w := by
  have hw : f.wake? = some w := by
    unfold Future.wake?
    rw [hs]
    exact h
  exact exists_min?_le (List.mem_append_right _ (List.mem_filterMap.2 ⟨f, hf, hw⟩))

/-- What cannot go on cannot go on before its next sleep ends. -/
theorem isReady_tick {run : Run α} (hr : run.isReady m = false) (hw : ∀ w, run.wake? = some w → t < w) :
    run.isReady { m with clock := t } = false := by
  induction run with
  | done a => rfl
  | asleep wake next => exact decide_eq_false (Nat.not_le_of_lt (hw wake rfl))
  | resolving branch key generation future next => exact hr
  | waiting branch wait next =>
    cases wait with
    | futures front rest failure => exact hr
    | slots front rest failure => exact hr
  | joined parts next ih =>
    have hidle := List.any_eq_false.1 hr
    refine List.any_eq_false.2 fun i hi => ?_
    have hpart := ih i (Bool.eq_false_iff.2 (hidle i hi)) fun w hwi => ?_
    · exact Bool.eq_false_iff.1 hpart
    · have hmem : w ∈ (List.finRange _).filterMap fun i => (parts i).wake? := List.mem_filterMap.2 ⟨i, hi, hwi⟩
      obtain ⟨least, hleast, hle⟩ := exists_min?_le hmem
      exact Nat.lt_of_lt_of_le (hw least hleast) hle

/-! ## Moving the clock -/

/-- All that is ready is in the queue already. -/
theorem Orderly.enqueue_eq (h : Orderly m) : m.enqueue = m := by
  have hnew : (m.futures.filter fun f => f.isReady m && f.id ∉ m.ready) = [] := by
    refine List.filter_eq_nil_iff.2 fun f hf hcond => ?_
    rw [Bool.and_eq_true] at hcond
    obtain ⟨run, hs, hr⟩ := future_isReady_iff.1 hcond.1
    have hstate : m.state? f.id = some (.running run) := by
      unfold state?
      rw [h.future?_of_mem hf, Option.map_some, hs]
    exact of_decide_eq_true hcond.2 (h.queued _ run hstate hr)
  unfold enqueue
  rw [hnew, List.map_nil, List.append_nil]

/-- Before the next sleep ends nothing becomes ready. -/
theorem Orderly.tick (h : Orderly m) (hd : dispatch main m = none) (hc : m.clock ≤ t)
    (ht : ∀ w, nextWake? main m = some w → t < w) : Orderly { m with clock := t } := by
  refine ⟨h.toTidy.tick hc, fun id run hrun hr => ?_⟩
  have hidle : run.isReady { m with clock := t } = false := by
    refine isReady_tick (h.not_ready (h.dispatch_eq_none hd).1 hrun) fun w hw => ?_
    obtain ⟨f, hf, hs⟩ := Option.map_eq_some_iff.1 hrun
    obtain ⟨least, hleast, hle⟩ := nextWake?_le_future main (List.mem_of_find?_eq_some hf) hs hw
    exact Nat.lt_of_lt_of_le (ht least hleast) hle
  rw [hidle] at hr
  cases hr

/-- Where the queue is empty the main program has its turn. -/
theorem dispatch_of_empty (h : m.ready = []) :
    dispatch main m = if main.isReady m then some (main.resume [] m) else none := by
  unfold dispatch
  rw [h]
  rfl

/-- And there is nothing to dispatch. -/
theorem Orderly.dispatch_tick (h : Orderly m) (hd : dispatch main m = none)
    (ht : ∀ w, nextWake? main m = some w → t < w) : dispatch main { m with clock := t } = none := by
  obtain ⟨hready, hmain⟩ := h.dispatch_eq_none hd
  have hidle : main.isReady { m with clock := t } = false := by
    refine isReady_tick hmain fun w hw => ?_
    obtain ⟨least, hleast, hle⟩ := nextWake?_le_main (m := m) hw
    exact Nat.lt_of_lt_of_le (ht least hleast) hle
  rw [dispatch_of_empty (show { m with clock := t }.ready = [] from hready), hidle]
  rfl

/-! ## Turns -/

theorem turn_of_dispatch {next : Run α × Machine} (h : dispatch main m = some next) : turn main m = some next := by
  unfold turn
  rw [h]

theorem turn_of_idle (h : dispatch main m = none) :
    turn main m = (nextWake? main m).bind fun t => dispatch main (m.advanceTo t) := by
  unfold turn
  rw [h]

/-- What a main program comes to depends on its next turn. -/
theorem drive_congr {m' : Machine} (h : turn main m' = turn main m) : (drive main m').1 = (drive main m).1 := by
  cases hr : main.result? with
  | some a => rw [drive_of_result hr, drive_of_result hr]
  | none =>
    cases ht : turn main m with
    | none => rw [drive_of_stuck hr ht, drive_of_stuck hr (h.trans ht)]
    | some next => rw [drive_of_turn hr ht, drive_of_turn hr (h.trans ht)]

/-- What a main program comes to is no matter of the futures that run before it. -/
theorem drive_runQueue {m' : Machine} (h : runQueue m.ready m = some m') : (drive main m').1 = (drive main m).1 := by
  cases hr : main.result? with
  | some a => rw [drive_of_result hr, drive_of_result hr]
  | none =>
    have hd : dispatch main m = some (main, m') := by
      unfold dispatch
      rw [h]
    rw [drive_of_turn hr (turn_of_dispatch hd)]

/-- The next turn is the same when the clock has been moved on, but not past the next sleep to end. -/
theorem Orderly.turn_advanceTo (h : Orderly m) (hd : dispatch main m = none) (hc : m.clock ≤ t)
    (ht : ∀ w, nextWake? main m = some w → t ≤ w) : turn main (m.advanceTo t) = turn main m := by
  rw [turn_of_idle hd]
  by_cases hw : nextWake? main m = some t
  · rw [hw, Option.bind_some]
    obtain ⟨next, hnext⟩ := Option.isSome_iff_exists.1 (h.dispatch_advanceTo hd hw)
    rw [turn_of_dispatch hnext, hnext]
  · have hlate : ∀ w, nextWake? main m = some w → t < w := fun w heq =>
      Nat.lt_of_le_of_ne (ht w heq) fun hwt => hw (hwt ▸ heq)
    have hsame : m.advanceTo t = { m with clock := t } := (h.tick hd hc hlate).enqueue_eq
    rw [hsame, turn_of_idle (h.dispatch_tick hd hlate)]
    rfl

/-- **The clock may be moved on, as far as the next sleep to end.** -/
theorem Orderly.drive_advanceTo (h : Orderly m) (hd : dispatch main m = none) (hc : m.clock ≤ t)
    (ht : ∀ w, nextWake? main m = some w → t ≤ w) : (drive main (m.advanceTo t)).1 = (drive main m).1 :=
  drive_congr (h.turn_advanceTo hd hc ht)

end MediaQuery.Machine
