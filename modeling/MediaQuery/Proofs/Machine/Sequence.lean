import MediaQuery.Machine.Drive

/-!
# One program after another

A run of `p.bind k` is a run of `p` followed by a run of `k` on the machine that `p` leaves (`run_bind`). A program
that has to wait keeps what comes after it (`Run.andThen`), and nothing a machine does with a waiting run depends
on that: not whether it can go on, not when it wakes, not what it does first (`resume_andThen`).
-/

namespace MediaQuery

variable {α β : Type}

/-- A run with a program after it, on the machine that the run has left: a run that is done starts the program, and
one that waits keeps it for later. -/
def Run.andThen (k : α → Prog β) (base : Route) : Run α → Machine → Run β × Machine
  | .done a, m => (k a).start base m
  | .asleep wake next, m => (.asleep wake (next.bind k), m)
  | .resolving branch key generation future next, m =>
    (.resolving branch key generation future fun r => (next r).bind k, m)
  | .waiting branch wait next, m => (.waiting branch wait fun r => (next r).bind k, m)
  | .joined parts next, m => (.joined parts fun r => (next r).bind k, m)

/-- Starting one program and then another. -/
theorem start_bind (p : Prog α) (k : α → Prog β) (base : Route) (m : Machine) :
    (p.bind k).start base m = (p.start base m).1.andThen k base (p.start base m).2 := by
  induction p generalizing m with
  | done a => rfl
  | act op next ih => exact ih _ k _
  | sleep ms next ih =>
    simp only [Prog.bind, Prog.start]
    split
    · exact ih k m
    · rfl
  | spawn branch key future next _ ih => exact ih k _
  | resolve branch key next ih =>
    simp only [Prog.bind, Prog.start]
    split
    · exact ih _ k m
    · exact ih _ k m
    · split
      · rfl
      · exact ih _ k _
      · exact ih _ k _
  | settle branch next ih =>
    simp only [Prog.bind, Prog.start]
    split
    · rfl
    · exact ih _ k _
  | all parts next _ ih =>
    simp only [Prog.bind, Prog.start]
    split
    · exact ih _ k _
    · split
      · exact ih _ k _
      · rfl

section Waiting

variable {run : Run α} (h : run.result? = none) (k : α → Prog β) (base : Route) (m : Machine)
include h

/-- Keeping a program for later leaves the machine alone. -/
theorem andThen_machine : (run.andThen k base m).2 = m := by
  cases run with
  | done a => simp [Run.result?] at h
  | _ => rfl

/-- A run that keeps a program for later is not done. -/
theorem result?_andThen : (run.andThen k base m).1.result? = none := by
  cases run with
  | done a => simp [Run.result?] at h
  | _ => rfl

/-- What comes later does not decide whether a run can go on. -/
theorem isReady_andThen (now : Machine) : (run.andThen k base m).1.isReady now = run.isReady now := by
  cases run with
  | done a => simp [Run.result?] at h
  | _ => rfl

/-- What comes later does not decide when a run wakes. -/
theorem wake?_andThen : (run.andThen k base m).1.wake? = run.wake? := by
  cases run with
  | done a => simp [Run.result?] at h
  | _ => rfl

/-- A run that is taken on goes as far as it goes without the program it keeps, and then on to that. -/
theorem resume_andThen (now : Machine) :
    (run.andThen k base m).1.resume base now =
      (run.resume base now).1.andThen k base (run.resume base now).2 := by
  cases run with
  | done a => simp [Run.result?] at h
  | asleep wake next =>
    simp only [Run.andThen, Run.resume]
    split
    · exact start_bind next k base now
    · rfl
  | resolving branch key generation future next =>
    simp only [Run.andThen, Run.resume]
    split
    · rfl
    · exact start_bind _ k base _
    · exact start_bind _ k base _
  | waiting branch wait next =>
    simp only [Run.andThen, Run.resume]
    split
    · rfl
    · exact start_bind _ k base _
  | joined parts next =>
    simp only [Run.andThen, Run.resume]
    split
    · exact start_bind _ k base _
    · split
      · exact start_bind _ k base _
      · rfl

end Waiting

namespace Machine

/-- Dispatching a main program that keeps another for later. -/
theorem dispatch_andThen {run : Run α} (h : run.result? = none) (k : α → Prog β) (kept now : Machine) :
    dispatch (run.andThen k [] kept).1 now = (dispatch run now).map fun r => r.1.andThen k [] r.2 := by
  unfold dispatch
  split
  · next m' _ =>
    have hrun : (run.andThen k [] m').1 = (run.andThen k [] kept).1 := by
      cases run with
      | done a => simp [Run.result?] at h
      | _ => rfl
    exact congrArg some (Prod.ext hrun.symm (andThen_machine h k [] m').symm)
  · rw [isReady_andThen h]
    split
    · rw [resume_andThen h]
      rfl
    · rfl

/-- A turn of a main program that keeps another for later. -/
theorem turn_andThen {run : Run α} (h : run.result? = none) (k : α → Prog β) (m : Machine) :
    turn (run.andThen k [] m).1 m = (turn run m).map fun r => r.1.andThen k [] r.2 := by
  unfold turn
  rw [dispatch_andThen h]
  cases dispatch run m with
  | some next => rfl
  | none =>
    simp only [Option.map_none, nextWake?, wake?_andThen h]
    cases (run.wake?.toList ++ List.filterMap Future.wake? m.futures).min? with
    | none => rfl
    | some t => exact dispatch_andThen h k m (m.advanceTo t)

theorem drive_of_result {run : Run α} {a : α} (h : run.result? = some a) (m : Machine) :
    drive run m = (some a, m) := by
  unfold drive
  simp [h]

theorem drive_of_turn {run run' : Run α} {m m' : Machine} (h : run.result? = none)
    (ht : turn run m = some (run', m')) : drive run m = drive run' m' := by
  rw [drive]
  simp only [h]
  split
  · next run'' m'' hs =>
    rw [ht] at hs
    cases hs
    rfl
  · next hs => simp [ht] at hs

theorem drive_of_stuck {run : Run α} {m : Machine} (h : run.result? = none) (ht : turn run m = none) :
    drive run m = (none, m) := by
  rw [drive]
  simp only [h]
  split
  · next hs => simp [ht] at hs
  · rfl

/-- A number of turns of a run that waits. -/
def turns : Nat → Run α → Machine → Option (Run α × Machine)
  | 0, run, m => some (run, m)
  | k + 1, run, m =>
    match run.result? with
    | some _ => none
    | none => (turn run m).bind fun next => turns k next.1 next.2

/-- A run that is done after a number of turns. -/
theorem drive_of_turns {k : Nat} {run run' : Run α} {m m' : Machine} {a : α} (h : turns k run m = some (run', m'))
    (hr : run'.result? = some a) : drive run m = (some a, m') := by
  induction k generalizing run m with
  | zero =>
    cases h
    exact drive_of_result hr _
  | succ k ih =>
    unfold turns at h
    split at h
    · cases h
    · next hnone =>
      obtain ⟨⟨run₁, m₁⟩, hturn, hrest⟩ := Option.bind_eq_some_iff.1 h
      rw [drive_of_turn hnone hturn]
      exact ih hrest

/-- Driving a main program that keeps another for later. -/
theorem drive_andThen (k : α → Prog β) (run : Run α) (m : Machine) :
    drive (run.andThen k [] m).1 (run.andThen k [] m).2 =
      match drive run m with
      | (some a, m') => m'.run (k a)
      | (none, m') => (none, m') := by
  -- along the turns of the first program
  induction run, m using drive.induct with
  | case1 run m a h =>
    rw [drive_of_result h]
    cases run with
    | done b =>
      cases h
      rfl
    | _ => simp [Run.result?] at h
  | case2 run m h run' m' ht ih =>
    rw [drive_of_turn h ht, andThen_machine h]
    rw [← ih]
    refine drive_of_turn (result?_andThen h k [] m) ?_
    rw [turn_andThen h, ht]
    rfl
  | case3 run m h ht =>
    rw [drive_of_stuck h ht, andThen_machine h]
    refine drive_of_stuck (result?_andThen h k [] m) ?_
    rw [turn_andThen h, ht]
    rfl

/-- **A run of one program after another is a run of the first and then a run of the second.** -/
theorem run_bind (p : Prog α) (k : α → Prog β) (m : Machine) :
    m.run (p.bind k) =
      match m.run p with
      | (some a, m') => m'.run (k a)
      | (none, m') => (none, m') := by
  unfold run
  rw [start_bind]
  exact drive_andThen k _ _

/-- A run of one program after another that ends has run the first to its end, and then the second. -/
theorem exists_of_run_bind {p : Prog α} {k : α → Prog β} {m m' : Machine} {b : β}
    (h : m.run (p.bind k) = (some b, m')) : ∃ a m1, m.run p = (some a, m1) ∧ m1.run (k a) = (some b, m') := by
  rw [run_bind] at h
  split at h
  · next a m1 hrun => exact ⟨a, m1, hrun, h⟩
  · cases h

/-- A program that computes its result at once leaves the machine alone. -/
theorem run_done (a : α) (m : Machine) : m.run (.done a) = (some a, m) := drive_of_result rfl m

/-- A result that is made into another one. -/
theorem run_map (p : Prog α) (f : α → β) (m : Machine) :
    m.run (p.bind fun a => .done (f a)) = ((m.run p).1.map f, (m.run p).2) := by
  rw [run_bind]
  cases m.run p with
  | mk answer? m' => cases answer? with
    | none => rfl
    | some a => exact run_done (f a) m'

/-! ## One program after another, where either may fail -/

theorem run_andThen (p : Prog (Except ExecutionError α)) (f : α → Prog (Except ExecutionError β)) (m : Machine) :
    m.run (ExceptT.run (ExceptT.mk p >>= fun a => ExceptT.mk (f a))) =
      match m.run p with
      | (some (.ok a), m') => m'.run (f a)
      | (some (.error e), m') => (some (.error e), m')
      | (none, m') => (none, m') := by
  rw [show ExceptT.run (ExceptT.mk p >>= fun a => ExceptT.mk (f a)) = p.bind (ExceptT.bindCont f) from rfl, run_bind]
  cases m.run p with
  | mk answer? m' =>
    cases answer? with
    | none => rfl
    | some answer =>
      cases answer with
      | ok a => rfl
      | error e => exact run_done (Except.error e : Except ExecutionError β) m'

theorem run_andThen_of_ok {p : Prog (Except ExecutionError α)} {m m' : Machine} {a : α}
    (h : m.run p = (some (.ok a), m')) (f : α → Prog (Except ExecutionError β)) :
    m.run (ExceptT.run (ExceptT.mk p >>= fun a => ExceptT.mk (f a))) = m'.run (f a) := by
  rw [run_andThen, h]

/-- A run of both that succeeds is a run of the first and then a run of the second. -/
theorem ok_of_run_andThen {p : Prog (Except ExecutionError α)} {f : α → Prog (Except ExecutionError β)} {m : Machine}
    {b : β} (h : (m.run (ExceptT.run (ExceptT.mk p >>= fun a => ExceptT.mk (f a)))).1 = some (.ok b)) :
    ∃ a m', m.run p = (some (.ok a), m') ∧ (m'.run (f a)).1 = some (.ok b) := by
  rw [run_andThen] at h
  split at h
  · next a m' hr => exact ⟨a, m', hr, h⟩
  · cases h
  · cases h

end Machine

end MediaQuery
