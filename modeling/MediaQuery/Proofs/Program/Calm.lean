import MediaQuery.Action
import MediaQuery.Proofs.Machine.Clock
import MediaQuery.Proofs.Machine.Sweep

/-!
# Calm programs

A calm program starts nothing on the side: it stores no value that is still being computed, whatever the replies to its
operations (`Prog.Calm`). So all that it can be held up by are its own sleeps. A run of such a program is calm at a
time if every one of its sleeps ends later and nothing else holds it up (`Run.Calm`).
-/

namespace MediaQuery

variable {α β : Type}

/-- A program that stores no value that is still being computed. -/
def Prog.Calm : {α : Type} → Prog α → Prop
  | _, .done _ => True
  | _, .act _ next => ∀ b, (next b).Calm
  | _, .sleep _ next => next.Calm
  | _, .spawn _ _ _ _ => False
  | _, .resolve _ _ next => ∀ r, (next r).Calm
  | _, .settle _ next => ∀ r, (next r).Calm
  | _, .all parts next => (∀ i, (parts i).Calm) ∧ ∀ r, (next r).Calm

/-- A run held up by nothing but sleeps that end after the given time. Of programs side by side none has failed, and
not all are done. -/
def Run.Calm (t : Nat) : {α : Type} → Run α → Prop
  | _, .done _ => True
  | _, .asleep wake next => t < wake ∧ next.Calm
  | _, .resolving _ _ _ _ _ => False
  | _, .waiting _ _ _ => False
  | _, .joined parts next => (∀ i, (parts i).Calm t) ∧ Unfinished parts ∧ ∀ r, (next r).Calm

namespace Prog

/-! ## Calm programs put together -/

theorem calm_perform (op : Op α) : (perform op).Calm := fun _ => trivial

/-- An operation, and what comes after it. -/
theorem Calm.operate {op : Op α} {next : α → Prog β} (h : ∀ a, (next a).Calm) : ((perform op).bind next).Calm := h

theorem Calm.bind {p : Prog α} {k : α → Prog β} (hp : p.Calm) (hk : ∀ a, (k a).Calm) : (p.bind k).Calm := by
  induction p with
  | done a => exact hk a
  | act op next ih => exact fun b => ih b (hp b) hk
  | sleep ms next ih => exact ih hp hk
  | spawn branch key future next _ _ => exact hp.elim
  | resolve branch key next ih => exact fun r => ih r (hp r) hk
  | settle branch next ih => exact fun r => ih r (hp r) hk
  | all parts next _ ih => exact ⟨hp.1, fun r => ih r (hp.2 r) hk⟩

theorem Calm.under {p : Prog α} (hp : p.Calm) (route : Route) : (p.under route).Calm := by
  induction p with
  | done a => trivial
  | act op next ih => exact fun b => ih b (hp b)
  | sleep ms next ih => exact ih hp
  | spawn branch key future next _ _ => exact hp.elim
  | resolve branch key next ih => exact fun r => ih r (hp r)
  | settle branch next ih => exact fun r => ih r (hp r)
  | all parts next ihparts ih => exact ⟨fun i => ihparts i (hp.1 i), fun r => ih r (hp.2 r)⟩

/-- A program that may fail, and what comes after it if it does not. -/
theorem Calm.andThen {ε : Type} {p : Prog (Except ε α)} {f : α → Prog (Except ε β)} (hp : p.Calm)
    (hf : ∀ a, (f a).Calm) : (ExceptT.run (ExceptT.mk p >>= fun a => ExceptT.mk (f a))).Calm := by
  refine Calm.bind hp fun r => ?_
  cases r with
  | ok a => exact hf a
  | error e => trivial

/-- A program that cannot fail, and what comes after it. -/
theorem Calm.andThenLift {ε : Type} {p : Prog α} {f : α → Prog (Except ε β)} (hp : p.Calm) (hf : ∀ a, (f a).Calm) :
    (ExceptT.run (ExceptT.lift p >>= fun a => ExceptT.mk (f a))).Calm :=
  Calm.andThen (ε := ε) (Calm.bind hp fun _ => trivial) hf

theorem calm_parallel {parts : List (Prog (Except ExecutionError β))} (h : ∀ p ∈ parts, p.Calm) :
    (parallel parts).Calm :=
  ⟨fun i => h _ (List.get_mem parts i), fun _ => trivial⟩

theorem calm_setAll (branch : Route) (values : List (String × Value)) : (setAll branch values).Calm := by
  induction values with
  | nil => trivial
  | cons e rest ih => exact fun _ => ih

theorem calm_waitForPending (branch : Route) : (waitForPending branch).Calm := fun _ => trivial

theorem Calm.wrapping {p : Prog (Except EvalError α)} (hp : p.Calm) (branch : Route) (path : Path) :
    (wrapping branch path p).Calm := by
  refine Calm.bind hp fun r => ?_
  cases r with
  | ok a => trivial
  | error e => exact fun _ => trivial

end Prog

namespace Run

/-! ## Calm runs -/

variable {t : Nat} {run : Run α}

/-- A calm run that is not done wakes at some later time. -/
theorem Calm.exists_wake (h : run.Calm t) (hr : run.result? = none) : ∃ w, run.wake? = some w ∧ t < w := by
  induction run with
  | done a => cases hr
  | asleep wake next => exact ⟨wake, rfl, h.1⟩
  | resolving branch key generation future next => exact h.elim
  | waiting branch wait next => exact h.elim
  | joined parts next ih =>
    obtain ⟨hparts, hwaits, -⟩ := h
    obtain ⟨i, hi⟩ := hwaits.waits
    obtain ⟨w, hw, -⟩ := ih i (hparts i) hi
    have hmem : w ∈ (List.finRange _).filterMap fun i => (parts i).wake? :=
      List.mem_filterMap.2 ⟨i, List.mem_finRange i, hw⟩
    obtain ⟨least, hmin, -⟩ := Machine.exists_min?_le hmem
    obtain ⟨j, -, hj⟩ := List.mem_filterMap.1 (List.min?_mem hmin)
    have hpart : (parts j).result? = none := by
      generalize parts j = part at hj
      cases part with
      | done a => cases hj
      | _ => rfl
    obtain ⟨w', hw', hlt⟩ := ih j (hparts j) hpart
    cases hj.symm.trans hw'
    exact ⟨least, hmin, hlt⟩

/-- A calm run cannot go on before one of its sleeps ends. -/
theorem Calm.isReady_eq {m : Machine} (h : run.Calm t) (hc : ∀ w, run.wake? = some w → m.clock < w) :
    run.isReady m = false := by
  induction run with
  | done a => rfl
  | asleep wake next => exact decide_eq_false (Nat.not_le_of_lt (hc wake rfl))
  | resolving branch key generation future next => exact h.elim
  | waiting branch wait next => exact h.elim
  | joined parts next ih =>
    refine List.any_eq_false.2 fun i hi => Bool.eq_false_iff.1 (ih i (h.1 i) fun w hw => ?_)
    have hmem : w ∈ (List.finRange _).filterMap fun i => (parts i).wake? := List.mem_filterMap.2 ⟨i, hi, hw⟩
    obtain ⟨least, hmin, hle⟩ := Machine.exists_min?_le hmem
    exact Nat.lt_of_lt_of_le (hc least hmin) hle

/-- A calm run is calm at any time before its next sleep ends. -/
theorem Calm.later (h : run.Calm t) {t' : Nat} (hw : ∀ w, run.wake? = some w → t' < w) : run.Calm t' := by
  induction run with
  | done a => trivial
  | asleep wake next => exact ⟨hw wake rfl, h.2⟩
  | resolving branch key generation future next => exact h.elim
  | waiting branch wait next => exact h.elim
  | joined parts next ih =>
    refine ⟨fun i => ih i (h.1 i) fun w hi => ?_, h.2⟩
    have hmem : w ∈ (List.finRange _).filterMap fun i => (parts i).wake? :=
      List.mem_filterMap.2 ⟨i, List.mem_finRange i, hi⟩
    obtain ⟨least, hmin, hle⟩ := Machine.exists_min?_le hmem
    exact Nat.lt_of_lt_of_le (hw least hmin) hle

/-- Programs side by side may be counted as those of a list. -/
theorem joined_get {n : Nat} (parts : Fin n → Run (Except ExecutionError β))
    (next : Except ExecutionError (List β) → Prog α) :
    Run.joined ((List.finRange n).map parts).get next = .joined parts next := by
  have hcount {k : Nat} (hk : k = n) (f : Fin k → Run (Except ExecutionError β)) (hf : ∀ i, f i = parts (i.cast hk)) :
      Run.joined f next = .joined parts next := by
    subst hk
    exact congrArg (Run.joined · next) (funext hf)
  refine hcount (by simp) _ fun i => ?_
  rw [List.get_eq_getElem, List.getElem_map, List.getElem_finRange]
  rfl

/-- A calm run that is taken on before one of its sleeps ends stays as it is. -/
theorem Calm.resume_idle {m : Machine} (h : run.Calm t) (hw : ∀ w, run.wake? = some w → m.clock < w) (base : Route) :
    run.resume base m = (run, m) := by
  induction run with
  | done a => rfl
  | asleep wake next => exact if_neg (Nat.not_le_of_lt (hw wake rfl))
  | resolving branch key generation future next => exact h.elim
  | waiting branch wait next => exact h.elim
  | joined parts next ih =>
    have hpart (i : Fin _) : (parts i).resume base m = (parts i, m) := by
      refine ih i (h.1 i) fun w hi => ?_
      have hmem : w ∈ (List.finRange _).filterMap fun i => (parts i).wake? :=
        List.mem_filterMap.2 ⟨i, List.mem_finRange i, hi⟩
      obtain ⟨least, hmin, hle⟩ := Machine.exists_min?_le hmem
      exact Nat.lt_of_lt_of_le (hw least hmin) hle
    have hsweep : sweep (fun i m => (parts i).resume base m) (List.finRange _) m =
        (.ok ((List.finRange _).map parts), m) := by
      rw [sweep_idle (fun i => by rw [hpart]) fun i e => by rw [hpart]; exact h.2.1.unfailed i e]
      simp only [hpart]
    unfold Run.resume
    rw [hsweep]
    simp only [h.2.1.gather?_eq_none, joined_get]

/-- What a calm run keeps for later is calm. -/
theorem Calm.andThen (h : run.Calm t) (hr : run.result? = none) {k : α → Prog β} (hk : ∀ a, (k a).Calm) (base : Route)
    (m : Machine) : (run.andThen k base m).1.Calm t := by
  cases run with
  | done a => cases hr
  | asleep wake next => exact ⟨h.1, h.2.bind hk⟩
  | resolving branch key generation future next => exact h.elim
  | waiting branch wait next => exact h.elim
  | joined parts next => exact ⟨h.1, h.2.1, fun r => (h.2.2 r).bind hk⟩

end Run

end MediaQuery
