import MediaQuery.Machine.Run

/-!
# Runs side by side

What a sweep over runs leaves: the runs it has reached, none of which has failed (`sweep_ne_error`), or the first
failure. What every part does to the machine and leaves, the sweep does and leaves (`sweep_keeps`). The runs are
gathered exactly if all of them are done (`gather?_eq_some`), so the runs that go on waiting are `Unfinished`. A sweep
that does nothing to the machine and meets no failure is no more than its parts (`sweep_idle`).
-/

namespace MediaQuery

variable {β : Type}

/-- Values are gathered from runs that are done with them. -/
theorem gather?_eq_some {runs : List (Run (Except ExecutionError β))} {values : List β} :
    gather? runs = some values ↔ runs = values.map fun v => .done (.ok v) := by
  induction runs generalizing values with
  | nil => cases values <;> simp [gather?]
  | cons run rest ih =>
    match run with
    | .done (.ok v) =>
      cases values with
      | nil => simp [gather?]
      | cons w values =>
        simp [gather?, ih]
        exact and_comm
    | .done (.error _) | .asleep _ _ | .resolving _ _ _ _ _ | .waiting _ _ _ | .joined _ _ =>
      cases values <;> simp [gather?]

/-- If no run has failed and yet nothing is gathered, some run waits. -/
theorem exists_waiting {runs : List (Run (Except ExecutionError β))} (h : gather? runs = none)
    (he : ∀ run ∈ runs, ∀ e, run ≠ .done (.error e)) : ∃ run ∈ runs, run.result? = none := by
  induction runs with
  | nil => simp [gather?] at h
  | cons run rest ih =>
    match run with
    | .done (.ok v) =>
      rw [gather?, Option.map_eq_none_iff] at h
      obtain ⟨run, hmem, hr⟩ := ih h fun run hmem => he run (List.mem_cons_of_mem _ hmem)
      exact ⟨run, List.mem_cons_of_mem _ hmem, hr⟩
    | .done (.error e) => exact absurd rfl (he _ List.mem_cons_self e)
    | .asleep _ _ | .resolving _ _ _ _ _ | .waiting _ _ _ | .joined _ _ => exact ⟨_, List.mem_cons_self, rfl⟩

variable {n : Nat} {advance : Fin n → Machine → Run (Except ExecutionError β) × Machine} {m : Machine}

theorem sweep_nil : sweep advance [] m = (.ok [], m) := rfl

/-- A sweep whose first part fails. -/
theorem sweep_of_error {i : Fin n} {e : ExecutionError} (h : (advance i m).1 = .done (.error e)) (rest : List (Fin n)) :
    sweep advance (i :: rest) m = (.error e, (advance i m).2) := by
  unfold sweep
  generalize advance i m = r at h
  obtain ⟨run, m'⟩ := r
  cases h
  rfl

/-- A sweep whose first part does not fail. -/
theorem sweep_of_ne_error {i : Fin n} (h : ∀ e, (advance i m).1 ≠ .done (.error e)) (rest : List (Fin n)) :
    sweep advance (i :: rest) m =
      ((sweep advance rest (advance i m).2).1.map ((advance i m).1 :: ·),
        (sweep advance rest (advance i m).2).2) := by
  rw [sweep]
  generalize advance i m = r at h
  obtain ⟨run, m'⟩ := r
  split
  · next e m₁ he =>
    cases he
    exact absurd rfl (h e)
  · next run m₁ _ he =>
    cases he
    rcases sweep advance rest m' with ⟨_ | runs, m₂⟩ <;> rfl

/-- A sweep that has not failed has reached its first part and then the others. -/
theorem sweep_cons_of_ok {i : Fin n} {rest : List (Fin n)} {runs : List (Run (Except ExecutionError β))}
    (h : (sweep advance (i :: rest) m).1 = .ok runs) : ∃ runs', runs = (advance i m).1 :: runs' ∧
      (∀ e, (advance i m).1 ≠ .done (.error e)) ∧ (sweep advance rest (advance i m).2).1 = .ok runs' := by
  by_cases hi : ∃ e, (advance i m).1 = .done (.error e)
  · obtain ⟨e, he⟩ := hi
    rw [sweep_of_error he] at h
    cases h
  · rw [not_exists] at hi
    rw [sweep_of_ne_error hi] at h
    cases hs : (sweep advance rest (advance i m).2).1 with
    | error e =>
      rw [hs] at h
      cases h
    | ok runs' =>
      rw [hs] at h
      cases h
      exact ⟨runs', rfl, hi, rfl⟩

/-- A sweep goes as far as there is no failure. -/
theorem sweep_ne_error {is : List (Fin n)} {runs : List (Run (Except ExecutionError β))}
    (h : (sweep advance is m).1 = .ok runs) : ∀ run ∈ runs, ∀ e, run ≠ .done (.error e) := by
  induction is generalizing m runs with
  | nil =>
    cases h
    exact nofun
  | cons i rest ih =>
    obtain ⟨runs', rfl, hi, hs⟩ := sweep_cons_of_ok h
    exact List.forall_mem_cons.2 ⟨hi, ih hs⟩

/-- A sweep that has not failed has reached every part. -/
theorem length_sweep {is : List (Fin n)} {runs : List (Run (Except ExecutionError β))}
    (h : (sweep advance is m).1 = .ok runs) : runs.length = is.length := by
  induction is generalizing m runs with
  | nil =>
    cases h
    rfl
  | cons i rest ih =>
    obtain ⟨runs', rfl, -, hs⟩ := sweep_cons_of_ok h
    rw [List.length_cons, List.length_cons, ih hs]

/-- What a sweep has reached of one of its parts. -/
theorem getElem?_sweep {is : List (Fin n)} {runs : List (Run (Except ExecutionError β))}
    (h : (sweep advance is m).1 = .ok runs) {j : Nat} {i : Fin n} (hi : is[j]? = some i) :
    ∃ m', runs[j]? = some (advance i m').1 := by
  induction is generalizing m runs j with
  | nil => cases hi
  | cons i' rest ih =>
    obtain ⟨runs', rfl, -, hs⟩ := sweep_cons_of_ok h
    cases j with
    | zero =>
      cases hi
      exact ⟨m, rfl⟩
    | succ j => exact ih hs hi

/-- A sweep over some parts and then over others. -/
theorem sweep_append_of_ok {is : List (Fin n)} {runs : List (Run (Except ExecutionError β))}
    (h : (sweep advance is m).1 = .ok runs) (js : List (Fin n)) :
    sweep advance (is ++ js) m =
      ((sweep advance js (sweep advance is m).2).1.map (runs ++ ·), (sweep advance js (sweep advance is m).2).2) := by
  induction is generalizing m runs with
  | nil =>
    cases h
    rw [List.nil_append, sweep_nil]
    generalize sweep advance js m = x
    obtain ⟨_ | _, _⟩ := x <;> rfl
  | cons i rest ih =>
    obtain ⟨runs', rfl, hi, hs⟩ := sweep_cons_of_ok h
    rw [List.cons_append, sweep_of_ne_error hi, sweep_of_ne_error hi, ih hs]
    generalize sweep advance js (sweep advance rest (advance i m).2).2 = x
    obtain ⟨_ | _, _⟩ := x <;> rfl

/-- A sweep that has failed goes no further. -/
theorem sweep_append_of_failed {is : List (Fin n)} {e : ExecutionError} (h : (sweep advance is m).1 = .error e)
    (js : List (Fin n)) : sweep advance (is ++ js) m = sweep advance is m := by
  induction is generalizing m with
  | nil => cases h
  | cons i rest ih =>
    by_cases hi : ∃ e, (advance i m).1 = .done (.error e)
    · obtain ⟨e, he⟩ := hi
      rw [List.cons_append, sweep_of_error he, sweep_of_error he]
    · rw [not_exists] at hi
      rw [sweep_of_ne_error hi] at h
      rw [List.cons_append, sweep_of_ne_error hi, sweep_of_ne_error hi]
      cases hs : (sweep advance rest (advance i m).2).1 with
      | error e' =>
        rw [hs] at h
        cases h
        rw [ih hs, hs]
      | ok runs' =>
        rw [hs] at h
        cases h

/-- A sweep over parts that leave the machine alone, none of which fails. -/
theorem sweep_idle (hm : ∀ i, (advance i m).2 = m) (he : ∀ i e, (advance i m).1 ≠ .done (.error e))
    (is : List (Fin n)) : sweep advance is m = (.ok (is.map fun i => (advance i m).1), m) := by
  induction is with
  | nil => rfl
  | cons i rest ih =>
    rw [sweep_of_ne_error (he i), hm, ih]
    rfl

/-- What a sweep comes to: runs of which something holds, or a failure, of which it holds as well. -/
def SweepHolds (P : Run (Except ExecutionError β) → Prop) :
    Except ExecutionError (List (Run (Except ExecutionError β))) → Prop
  | .error e => P (.done (.error e))
  | .ok runs => ∀ run ∈ runs, P run

/-- **A sweep does to a machine what its parts do.** What holds of a run that is left holds of it later, so it holds of all
in the end. -/
theorem sweep_keeps {I : Machine → Prop} {R : Machine → Machine → Prop}
    {P : Machine → Run (Except ExecutionError β) → Prop} (refl : ∀ {m}, I m → R m m)
    (trans : ∀ {m₁ m₂ m₃}, R m₁ m₂ → R m₂ m₃ → R m₁ m₃) (keep : ∀ {m m'}, I m → R m m' → I m')
    (later : ∀ {m m' run}, R m m' → P m run → P m' run) (is : List (Fin n))
    (hadvance : ∀ i ∈ is, ∀ m, I m → R m (advance i m).2 ∧ P (advance i m).2 (advance i m).1) (h : I m) :
    R m (sweep advance is m).2 ∧ SweepHolds (P (sweep advance is m).2) (sweep advance is m).1 := by
  induction is generalizing m with
  | nil => exact ⟨refl h, nofun⟩
  | cons i rest ih =>
    obtain ⟨hi, hrun⟩ := hadvance i List.mem_cons_self m h
    by_cases hfail : ∃ e, (advance i m).1 = .done (.error e)
    · obtain ⟨e, he⟩ := hfail
      rw [sweep_of_error he]
      rw [he] at hrun
      exact ⟨hi, hrun⟩
    · rw [not_exists] at hfail
      obtain ⟨hrest, hruns⟩ := ih (fun j hj => hadvance j (List.mem_cons_of_mem _ hj)) (keep h hi)
      rw [sweep_of_ne_error hfail]
      refine ⟨trans hi hrest, ?_⟩
      have hfirst := later hrest hrun
      generalize sweep advance rest (advance i m).2 = x at hruns hfirst
      obtain ⟨e | runs, m'⟩ := x
      · exact hruns
      · exact List.forall_mem_cons.2 ⟨hfirst, hruns⟩

/-- The parts before and after one of them. -/
theorem finRange_split {n : Nat} (k : Fin n) : ∃ pre post, List.finRange n = pre ++ k :: post ∧ pre.length = k.val ∧
    pre.length + (post.length + 1) = n ∧ k ∉ pre ∧ k ∉ post := by
  obtain ⟨pre, post, heq⟩ := List.append_of_mem (List.mem_finRange k)
  have hnodup := List.nodup_finRange n
  rw [heq, List.nodup_append] at hnodup
  obtain ⟨-, hcons, hdisjoint⟩ := hnodup
  refine ⟨pre, post, heq, ?_, ?_, fun hk => hdisjoint k hk k List.mem_cons_self rfl, (List.nodup_cons.1 hcons).1⟩
  · have hget : (List.finRange n)[pre.length]? = some k := by simp [heq]
    rw [List.getElem?_eq_some_iff] at hget
    obtain ⟨hlt, hget⟩ := hget
    rw [← hget, List.getElem_finRange]
    rfl
  · have hlength := congrArg List.length heq
    rw [List.length_finRange, List.length_append, List.length_cons] at hlength
    exact hlength.symm

/-- Runs of which none has failed and not all are done. -/
structure Unfinished (parts : Fin n → Run (Except ExecutionError β)) : Prop where
  waits : ∃ i, (parts i).result? = none
  unfailed : ∀ i e, parts i ≠ .done (.error e)

/-- What is left to wait where none has failed and not all are done. -/
theorem unfinished_of_gather {runs : List (Run (Except ExecutionError β))} (h : gather? runs = none)
    (he : ∀ run ∈ runs, ∀ e, run ≠ .done (.error e)) : Unfinished runs.get := by
  obtain ⟨run, hmem, hr⟩ := exists_waiting h he
  obtain ⟨i, rfl⟩ := List.get_of_mem hmem
  exact ⟨⟨i, hr⟩, fun i => he _ (List.get_mem runs i)⟩

/-- What a sweep leaves to wait. -/
theorem unfinished_of_sweep {runs : List (Run (Except ExecutionError β))} {is : List (Fin n)}
    (h : (sweep advance is m).1 = .ok runs) (hg : gather? runs = none) : Unfinished runs.get :=
  unfinished_of_gather hg (sweep_ne_error h)

theorem Unfinished.gather?_eq_none {parts : Fin n → Run (Except ExecutionError β)} (h : Unfinished parts) :
    gather? ((List.finRange n).map parts) = none := by
  cases hg : gather? ((List.finRange n).map parts) with
  | none => rfl
  | some values =>
    obtain ⟨i, hi⟩ := h.waits
    have hmem : parts i ∈ values.map fun v => Run.done (.ok v) :=
      gather?_eq_some.1 hg ▸ List.mem_map_of_mem (List.mem_finRange i)
    obtain ⟨v, -, hv⟩ := List.mem_map.1 hmem
    rw [← hv] at hi
    cases hi

end MediaQuery
