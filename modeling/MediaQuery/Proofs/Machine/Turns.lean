import MediaQuery.Proofs.Machine.Sequence

/-!
# What whole runs maintain

A turn takes on a future or the main program, maybe at a later time. So whatever these steps maintain is maintained by
whole runs: an invariant of the main program and the machine, and a relation between the machine and what it is like
later (`Maintained`, `Maintained.drive`).
-/

namespace MediaQuery.Machine

variable {α : Type} {I : Run α → Machine → Prop} {R : Machine → Machine → Prop} {run run' : Run α} {m m' : Machine}

/-- As long as an invariant holds of the main program and the machine, every step of a turn maintains it, and leaves a
machine that is related to the one before. -/
structure Maintained (I : Run α → Machine → Prop) (R : Machine → Machine → Prop) : Prop where
  refl : ∀ {run : Run α} {m : Machine}, I run m → R m m
  trans : ∀ {m m' m'' : Machine}, R m m' → R m' m'' → R m m''
  /-- Queue and clock are another matter. -/
  idle : ∀ {run : Run α} {m : Machine}, I run m → ∀ ready clock,
    R m { m with ready, clock } ∧ I run { m with ready, clock }
  future : ∀ {run : Run α} {m m' : Machine} {id : FutureId} {f : Future}, I run m → m.future? id = some f →
    m.runFuture f = some m' → R m m' ∧ I run m'
  resume : ∀ {run : Run α} {m : Machine}, I run m →
    R m (run.resume [] m).2 ∧ I (run.resume [] m).1 (run.resume [] m).2

namespace Maintained

variable (h : Maintained I R)
include h

theorem runQueue (hI : I run m) {queue : List FutureId} (hm : runQueue queue m = some m') : R m m' ∧ I run m' := by
  induction queue with
  | nil => cases hm
  | cons id rest ih =>
    unfold Machine.runQueue at hm
    split at hm
    · next m₁ he =>
      cases hm
      obtain ⟨f, hf, hrun⟩ := Option.bind_eq_some_iff.1 he
      obtain ⟨hqueue, hIqueue⟩ := h.idle hI rest m.clock
      obtain ⟨hfuture, hI'⟩ := h.future hIqueue hf hrun
      exact ⟨h.trans hqueue hfuture, hI'⟩
    · exact ih hm

theorem dispatch (hI : I run m) (hd : dispatch run m = some (run', m')) : R m m' ∧ I run' m' := by
  unfold Machine.dispatch at hd
  split at hd
  · next he =>
    cases hd
    exact h.runQueue hI he
  · split at hd
    · have hresume := h.resume hI
      rwa [Option.some.inj hd] at hresume
    · cases hd

/-- **A turn.** -/
theorem turn (hI : I run m) (ht : turn run m = some (run', m')) : R m m' ∧ I run' m' := by
  unfold Machine.turn at ht
  split at ht
  · next he =>
    cases ht
    exact h.dispatch hI he
  · obtain ⟨t, -, hd⟩ := Option.bind_eq_some_iff.1 ht
    obtain ⟨hlater, hIlater⟩ : R m (m.advanceTo t) ∧ I run (m.advanceTo t) := h.idle hI _ _
    obtain ⟨hdispatch, hI'⟩ := h.dispatch hIlater hd
    exact ⟨h.trans hlater hdispatch, hI'⟩

/-- **All turns.** What the main program has become is done with the result, if there is one. -/
theorem drive (hI : I run m) :
    ∃ last, (drive run m).1 = last.result? ∧ R m (drive run m).2 ∧ I last (drive run m).2 := by
  -- along the turns
  induction run, m using drive.induct with
  | case1 run m answer hrun =>
    rw [drive_of_result hrun]
    exact ⟨run, hrun.symm, h.refl hI, hI⟩
  | case2 run m hrun run' m' ht ih =>
    obtain ⟨hturn, hI'⟩ := h.turn hI ht
    obtain ⟨last, hresult, hrest, hlast⟩ := ih hI'
    rw [drive_of_turn hrun ht]
    exact ⟨last, hresult, h.trans hturn hrest, hlast⟩
  | case3 run m hrun ht =>
    rw [drive_of_stuck hrun ht]
    exact ⟨run, hrun.symm, h.refl hI, hI⟩

end Maintained

end MediaQuery.Machine
