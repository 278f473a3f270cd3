import MediaQuery.Proofs.Machine.Waiting

/-!
# What a wait leaves

When a wait for a branch is over to which nothing has been written meanwhile, all of its futures that nobody has waited
for before have ended, no key refers to a future any more, and each key holds what has been written last
(`Machine.afterWait_of_waitForPending`). Whatever the order in which the futures have ended, the failure that the wait
answers is that of the first one started. A failure is answered once (`Machine.ok_after_failure`).
-/

namespace MediaQuery

namespace Machine

variable {inputs : Inputs} {x y : Moment} {a base branch : Route} {key : String} {r : Except EvalError Unit}

/-- A future has ended, and this is its report. -/
def Moment.Reports (y : Moment) (id : FutureId) (report : Except EvalError Unit) : Prop :=
  ∃ f, y.machine.future? id = some f ∧ f.report? = some report ∧ Ended y.past f report

/-- What a wait for a branch leaves that has begun at the first moment and is over at the second, with the result. -/
structure AfterWait (x : Moment) (a : Route) (r : Except EvalError Unit) (y : Moment) : Prop where
  /-- The futures of the branch that nobody has waited for before have ended. -/
  ended : ∀ id ∈ x.machine.unawaited a, ∃ report, y.Reports id report
  /-- All is well if none of them has failed and none is stale. -/
  ok : r = .ok () ↔ ∀ id ∈ x.machine.unawaited a, y.Reports id (.ok ())
  /-- Otherwise the failure is that of the first one started. -/
  error : ∀ e, r = .error e → ∃ id ∈ x.machine.unawaited a, y.Reports id (.error e) ∧
    ∀ earlier ∈ x.machine.unawaited a, earlier.generation < id.generation → y.Reports earlier (.ok ())
  /-- No key refers to a future. -/
  pending : (y.machine.store a).pending = []
  /-- A key that has not been written is unset. -/
  unset : ∀ key, lastWrite y.past a key = none → (y.machine.store a).find? key = none
  /-- A key that has been set holds the value. -/
  value : ∀ key v, lastWrite y.past a key = some (.value v) →
    ∃ generation, (y.machine.store a).find? key = some ⟨generation, .ready v⟩
  /-- A key that a future has been stored under, here or where the branch has it from, holds what has become of it. -/
  future : ∀ key id, lastWrite y.past a key = some (.future id) → ∃ result, endOf y.past id = some result ∧
    (y.machine.store a).find? key = result.toOption.map fun v => ⟨id.generation, .ready v⟩

/-! ## Reports -/

theorem reports_iff (hy : History inputs y.past y.machine) {id : FutureId} {report : Except EvalError Unit} :
    y.Reports id report ↔ y.machine.report? id = some report := by
  constructor
  · rintro ⟨f, hf, hreport, -⟩
    rw [report?, hf]
    exact hreport
  · intro hreport
    obtain ⟨f, hf, hended⟩ := ended_of_report hy hreport
    rw [report?, hf] at hreport
    exact ⟨f, hf, hreport, hended⟩

theorem failureOf_eq_none {m : Machine} {id : FutureId} {report : Except EvalError Unit}
    (h : m.report? id = some report) : m.failureOf id = none ↔ m.report? id = some (.ok ()) := by
  rw [failureOf, h]
  cases report <;> simp [failure?]

theorem failureOf_eq_some {m : Machine} {id : FutureId} {e : EvalError} (h : m.failureOf id = some e) :
    m.report? id = some (.error e) := by
  obtain ⟨report, hr, he⟩ := Option.bind_eq_some_iff.1 h
  cases report with
  | ok _ => cases he
  | error e' =>
    cases he
    exact hr

/-- All is well if all reports are. -/
theorem Collected.none_iff {m : Machine} {ids : List FutureId} {failure : Option EvalError}
    (h : m.Collected ids failure) : failure = none ↔ ∀ id ∈ ids, m.report? id = some (.ok ()) := by
  rw [h.first, List.findSome?_eq_none_iff]
  refine forall₂_congr fun id hid => ?_
  obtain ⟨report, hr⟩ := h.reported id hid
  exact failureOf_eq_none hr

/-- The failure that has been kept is that of a future before which all is well. -/
theorem Collected.exists_first {m : Machine} {ids : List FutureId} {e : EvalError} (h : m.Collected ids (some e))
    (hsorted : ids.Pairwise fun id id' => id.generation < id'.generation) :
    ∃ id ∈ ids, m.report? id = some (.error e) ∧
      ∀ earlier ∈ ids, earlier.generation < id.generation → m.report? earlier = some (.ok ()) := by
  obtain ⟨before, id, after, rfl, hid, hbefore⟩ := List.findSome?_eq_some_iff.1 h.first.symm
  refine ⟨id, by simp, failureOf_eq_some hid, fun earlier hmem hlt => ?_⟩
  obtain ⟨report, hr⟩ := h.reported earlier hmem
  refine (failureOf_eq_none hr).1 (hbefore earlier ?_)
  -- what comes behind has been started later
  obtain ⟨-, hafter, -⟩ := List.pairwise_append.1 hsorted
  rcases List.mem_append.1 hmem with hmem | hmem
  · exact hmem
  · rcases List.mem_cons.1 hmem with rfl | hmem
    · exact absurd hlt (Nat.lt_irrefl _)
    · exact absurd hlt (Nat.lt_asymm (List.rel_of_pairwise_cons hafter hmem))

/-! ## Entries -/

section Entries

variable {ends : FutureId → Option (Except EvalError Value)} {entry : Option Entry}

theorem EntryFits.eq_none (h : EntryFits ends none entry) : entry = none := by
  cases h
  rfl

theorem EntryFits.exists_ready {v : Value} (h : EntryFits ends (some (.value v)) entry) :
    ∃ generation, entry = some ⟨generation, .ready v⟩ := by
  cases h
  exact ⟨_, rfl⟩

/-- Where there is no reference any more there is what has become of the future. -/
theorem EntryFits.exists_result {id : FutureId} (h : EntryFits ends (some (.future id)) entry)
    (hready : ∀ generation id, entry ≠ some ⟨generation, .pending id⟩) :
    ∃ result, ends id = some result ∧ entry = result.toOption.map fun v => ⟨id.generation, .ready v⟩ := by
  cases h with
  | pending => exact absurd rfl (hready _ _)
  | landed hend => exact ⟨_, hend, rfl⟩
  | dropped hend => exact ⟨_, hend, rfl⟩

end Entries

/-! ## Waits -/

/-- **What a wait leaves** if nothing is written to the branch meanwhile. -/
theorem afterWait_of_waits (h : Moment.Waits a x r y) (hx : History inputs x.past x.machine)
    (ha : (x.machine.node? a).isSome = true) (hw : x.Without y fun e => ∃ key, e.Writes a key) :
    AfterWait x a r y := by
  have hy := h.before.history hx
  have hready (key : String) := Moment.ready_of_waits h ha (hw.imp fun e he => ⟨key, he⟩)
  have hfits (key : String) := (lineage_of_history hy).values.fits a key
  obtain ⟨failure, hr, hcollected⟩ := Moment.collected_of_waits h hw
  refine ⟨fun id hid => ?_, ?_, fun e he => ?_, ?_, fun key hlast => ?_, fun key v hlast => ?_, fun key id hlast => ?_⟩
  · obtain ⟨report, hreport⟩ := hcollected.reported id hid
    exact ⟨report, (reports_iff hy).2 hreport⟩
  · simp only [reports_iff hy, ← hcollected.none_iff, hr]
    cases failure <;> simp [waitResult]
  · simp only [reports_iff hy]
    cases failure with
    | none => cases hr.symm.trans he
    | some e' =>
      cases hr.symm.trans he
      exact hcollected.exists_first (sorted_unawaited hx a)
  · refine List.eq_nil_iff_forall_not_mem.2 fun ⟨key, generation, id⟩ hmem => ?_
    exact hready key generation id ((sorted_of_history hy a).find?_of_pending hmem)
  · exact (hlast ▸ hfits key).eq_none
  · exact (hlast ▸ hfits key).exists_ready
  · exact (hlast ▸ hfits key).exists_result (hready key)

/-- **Waiting for all values of a branch.** Whatever else goes on, and in whatever order the futures end, this is what
it leaves and what it answers, unless something is written to the branch meanwhile. -/
theorem afterWait_of_waitForPending (hx : History inputs x.past x.machine)
    (ha : (x.machine.node? (base ++ branch)).isSome = true) (h : (Prog.waitForPending branch).Leads base x r y)
    (hw : x.Without y fun e => ∃ key, e.Writes (base ++ branch) key) :
    ∃ own, r = own.mapError (·.under branch) ∧ AfterWait x (base ++ branch) own y := by
  obtain ⟨own, x₁, hwaits, rfl, rfl⟩ := h
  exact ⟨own, rfl, afterWait_of_waits hwaits hx ha hw⟩

/-! ## Failures in another order -/

/-- Two futures that fail, of which the first takes longer, and one that does not. -/
def failingLate : Machine :=
  let m := (start .blank).spawn [] "a" (.sleep 10 (.done (.error (.action "late" []))))
  (m.spawn [] "b" (.done (.error (.action "early" [])))).spawn [] "c" (.done (.ok .null))

theorem steady_failingLate : ∃ past, Steady .blank past failingLate := by
  obtain ⟨past₁, h₁⟩ := acts_spawn .start [] "a" (.sleep 10 (.done (.error (.action "late" []))))
  obtain ⟨past₂, h₂⟩ := acts_spawn h₁.history [] "b" (.done (.error (.action "early" [])))
  obtain ⟨past₃, h₃⟩ := acts_spawn h₂.history [] "c" (.done (.ok .null))
  exact ⟨past₃, (steady_start .blank).acts ((h₁.trans h₂).trans h₃)⟩

/-- The failure of the first is answered, though it is the last one to end. -/
theorem afterWait_failingLate : ∃ past past' m', History .blank past failingLate ∧
    (failingLate.node? ([] ++ [])).isSome = true ∧
    (Prog.waitForPending []).Leads [] ⟨past, failingLate⟩ (.error (.action "late" [])) ⟨past', m'⟩ ∧
    (Moment.Without ⟨past, failingLate⟩ ⟨past', m'⟩ fun e => ∃ key, e.Writes ([] ++ []) key) ∧
    ∃ own, .error (.action "late" []) = own.mapError (·.under []) ∧
      AfterWait ⟨past, failingLate⟩ [] own ⟨past', m'⟩ := by
  obtain ⟨past, hsteady⟩ := steady_failingLate
  have hrun : failingLate.run (Prog.waitForPending []) = (some (.error (.action "late" [])), _) :=
    (drive_of_turn rfl rfl).trans <| (drive_of_turn rfl rfl).trans <| (drive_of_turn rfl rfl).trans <|
      (drive_of_turn rfl rfl).trans <| (drive_of_turn rfl rfl).trans <| drive_of_result rfl _
  obtain ⟨past', -, hleads⟩ := leads_of_run hsteady hrun
  have hunwritten := hleads.before.without_of_generation (a := []) rfl
  exact ⟨past, past', _, hsteady.history, rfl, hleads, hunwritten,
    afterWait_of_waitForPending hsteady.history rfl hleads hunwritten⟩

/-! ## A failure is answered once -/

/-- Stores a value that cannot be computed, and waits for it twice. -/
def waitingTwice : Prog (Except EvalError Unit × Except EvalError Unit) := do
  Prog.setFuture [] "k" (.done (.error (.action "boom" [])))
  let first ← Prog.waitForPending []
  let second ← Prog.waitForPending []
  return (first, second)

/-- The second wait says that all is well. -/
theorem ok_after_failure : ((start .blank).run waitingTwice).1 = some (.error (.action "boom" []), .ok ()) := by
  have hrun : (start .blank).run waitingTwice = (some (.error (.action "boom" []), .ok ()), _) :=
    (drive_of_turn rfl rfl).trans <| (drive_of_turn rfl rfl).trans <| drive_of_result rfl _
  exact congrArg Prod.fst hrun

end Machine

end MediaQuery
