import MediaQuery.Proofs.Program.Uses

/-!
# Programs that only visit a branch

A program that visits a branch may read it, fork it and enter its log, but it writes nothing there and waits for nothing
there; all else that it does is on branches beneath (`Prog.Visits`). What uses only branches beneath visits the branch
(`Uses.visits`), and what is put together from visits is one (`Visits.bind`).
-/

namespace MediaQuery

/-! ## Branches beneath -/

/-- A branch is below another one, and is not that one itself. -/
def Beneath (a x : Route) : Prop := ∃ i, a ++ [i] <+: x

theorem beneath_child (a : Route) (i : Nat) : Beneath a (a ++ [i]) := ⟨i, List.prefix_rfl⟩

/-- What is below a branch is that one itself or beneath it. -/
theorem eq_or_beneath {a x : Route} (h : a <+: x) : x = a ∨ Beneath a x := by
  obtain ⟨more, rfl⟩ := h
  cases more with
  | nil => exact .inl (List.append_nil a)
  | cons i more => exact .inr ⟨i, more, by simp⟩

theorem Beneath.ne {a x : Route} (h : Beneath a x) : x ≠ a := by
  rintro rfl
  obtain ⟨i, hi⟩ := h
  have hlength := hi.length_le
  rw [List.length_append, List.length_singleton] at hlength
  omega

theorem Beneath.below {a x y : Route} (h : Beneath a x) (hy : x <+: y) : Beneath a y := by
  obtain ⟨i, hi⟩ := h
  exact ⟨i, hi.trans hy⟩

theorem Beneath.above {a x : Route} (h : Beneath a x) : a <+: x := by
  obtain ⟨i, hi⟩ := h
  exact (List.prefix_append _ _).trans hi

theorem Beneath.off {a x : Route} (h : Beneath a x) : ¬ x <+: a := fun hprefix => (h.below hprefix).ne rfl

theorem beneath_append (base a x : Route) : Beneath (base ++ a) (base ++ x) ↔ Beneath a x := by
  unfold Beneath
  simp only [List.append_assoc, List.prefix_append_right_inj]

theorem ne_of_off {a home x : Route} (h : ¬ home <+: a) (hx : home <+: x) : x ≠ a := by
  rintro rfl
  exact h hx

/-- A program does not use a branch that is not below its own. -/
theorem Prog.uses_off {α : Type} (p : Prog α) {a home : Route} (h : ¬ home <+: a) :
    p.Uses (· ≠ a) home fun _ => True :=
  (p.uses_below List.prefix_rfl).mono (fun _ hx => ne_of_off h hx) (fun _ _ hx => hx.trans (List.prefix_append _ _))
    fun _ _ => trivial

theorem Run.uses_off {α : Type} (run : Run α) {a home : Route} (h : ¬ home <+: a) :
    run.Uses (· ≠ a) home fun _ => True :=
  (run.uses_below List.prefix_rfl).mono (fun _ hx => ne_of_off h hx) (fun _ _ hx => hx.trans (List.prefix_append _ _))
    fun _ _ => trivial

/-! ## Programs -/

/-- The operation writes nothing to its branch. -/
def Op.Light : {α : Type} → Op α → Prop
  | _, .set _ _ _ => False
  | _, .record _ _ => False
  | _, _ => True

theorem Op.light_under (route : Route) {α : Type} (op : Op α) : (op.under route).Light ↔ op.Light := by
  cases op <;> rfl

theorem Op.Makes.mono {T T' : Route → Prop} {base : Route} {α : Type} {op : Op α} {answer : α}
    (h : op.Makes T base answer) (hT : ∀ x, T x → T' x) : op.Makes T' base answer := by
  cases op with
  | fork branch options => exact hT _ h
  | openSession branch inputs => exact hT _ h
  | _ => trivial

/-- What an operation makes is beneath its branch. -/
theorem Op.makes_beneath {α : Type} (op : Op α) (base : Route) (answer : α) :
    op.Makes (Beneath (base ++ op.branch)) base answer := by
  cases op with
  | fork branch options => exact beneath_child _ _
  | openSession branch inputs => exact beneath_child _ _
  | _ => trivial

/-- A program with the given base visits a branch, and its results are as told. -/
inductive Prog.Visits (a base : Route) : {α : Type} → (α → Prop) → Prog α → Prop
  | done {α : Type} {Q : α → Prop} {answer : α} (h : Q answer) : Visits a base Q (.done answer)
  | act {α β : Type} {Q : α → Prop} {op : Op β} {next : β → Prog α}
      (hb : Beneath a (base ++ op.branch) ∨ base ++ op.branch = a ∧ op.Light)
      (h : ∀ b, op.Makes (Beneath a) base b → Visits a base Q (next b)) : Visits a base Q (.act op next)
  | sleep {α : Type} {Q : α → Prop} {ms : Nat} {next : Prog α} (h : Visits a base Q next) :
      Visits a base Q (.sleep ms next)
  | spawn {branch : Route} {α : Type} {Q : α → Prop} {key : String} {future : Prog (Except EvalError Value)}
      {next : Prog α} (hb : Beneath a (base ++ branch)) (h : Visits a base Q next) :
      Visits a base Q (.spawn branch key future next)
  | resolve {branch : Route} {α : Type} {Q : α → Prop} {key : String}
      {next : Except ContextError Value → Prog α} (hb : Beneath a (base ++ branch))
      (h : ∀ r, Visits a base Q (next r)) : Visits a base Q (.resolve branch key next)
  | settle {branch : Route} {α : Type} {Q : α → Prop} {next : Except EvalError Unit → Prog α}
      (hb : Beneath a (base ++ branch)) (h : ∀ r, Visits a base Q (next r)) : Visits a base Q (.settle branch next)
  | all {α β : Type} {n : Nat} {Q : α → Prop} (S : Except ExecutionError β → Prop)
      {parts : Fin n → Prog (Except ExecutionError β)} {next : Except ExecutionError (List β) → Prog α}
      (hparts : ∀ i, Visits a base S (parts i)) (he : ∀ e, S (.error e) → Visits a base Q (next (.error e)))
      (hok : ∀ values, (∀ v ∈ values, S (.ok v)) → Visits a base Q (next (.ok values))) :
      Visits a base Q (.all parts next)

/-- A run with the given base visits a branch, and its results are as told. -/
inductive Run.Visits (a base : Route) : {α : Type} → (α → Prop) → Run α → Prop
  | done {α : Type} {Q : α → Prop} {answer : α} (h : Q answer) : Visits a base Q (.done answer)
  | asleep {α : Type} {Q : α → Prop} {wake : Nat} {next : Prog α} (h : next.Visits a base Q) :
      Visits a base Q (.asleep wake next)
  | resolving {branch : Route} {α : Type} {Q : α → Prop} {key : String} {generation : Nat} {future : FutureId}
      {next : Except ContextError Value → Prog α} (hb : Beneath a (base ++ branch))
      (h : ∀ r, (next r).Visits a base Q) : Visits a base Q (.resolving branch key generation future next)
  | waiting {branch : Route} {α : Type} {Q : α → Prop} {wait : Wait} {next : Except EvalError Unit → Prog α}
      (hb : Beneath a (base ++ branch)) (h : ∀ r, (next r).Visits a base Q) :
      Visits a base Q (.waiting branch wait next)
  | joined {α β : Type} {n : Nat} {Q : α → Prop} (S : Except ExecutionError β → Prop)
      {parts : Fin n → Run (Except ExecutionError β)} {next : Except ExecutionError (List β) → Prog α}
      (hparts : ∀ i, Visits a base S (parts i)) (he : ∀ e, S (.error e) → (next (.error e)).Visits a base Q)
      (hok : ∀ values, (∀ v ∈ values, S (.ok v)) → (next (.ok values)).Visits a base Q) :
      Visits a base Q (.joined parts next)

namespace Prog

variable {a base lower : Route} {α β : Type} {Q : α → Prop} {Q' : β → Prop}

/-- **What uses only branches beneath visits the branch.** -/
theorem Uses.visits {p : Prog α} (h : p.Uses (Beneath a) base Q) : p.Visits a base Q := by
  induction h with
  | done h => exact .done h
  | act hb _ ih => exact .act (.inl hb) ih
  | sleep _ ih => exact .sleep ih
  | spawn hb _ _ _ ih => exact .spawn hb ih
  | resolve hb _ ih => exact .resolve hb ih
  | settle hb _ ih => exact .settle hb ih
  | all S _ _ _ ihparts ihe ihok => exact .all S ihparts ihe ihok

/-- An operation that writes nothing on the branch or beneath it, and what comes after it. -/
theorem Visits.operate (op : Op α) {next : α → Prog β} (hb : a <+: base ++ op.branch) (hlight : op.Light)
    (h : ∀ answer, op.Makes (Beneath a) base answer → (next answer).Visits a base Q') :
    (Prog.act op next).Visits a base Q' := by
  refine .act ?_ h
  rcases eq_or_beneath hb with heq | hbeneath
  · exact .inr ⟨heq, hlight⟩
  · exact .inl hbeneath

/-- **One visit after another.** -/
theorem Visits.bind {p : Prog α} {k : α → Prog β} (h : p.Visits a base Q)
    (hk : ∀ answer, Q answer → (k answer).Visits a base Q') : (p.bind k).Visits a base Q' := by
  induction h with
  | done h => exact hk _ h
  | act hb _ ih => exact .act hb fun b hmakes => ih b hmakes hk
  | sleep _ ih => exact .sleep (ih hk)
  | spawn hb _ ih => exact .spawn hb (ih hk)
  | resolve hb _ ih => exact .resolve hb fun r => ih r hk
  | settle hb _ ih => exact .settle hb fun r => ih r hk
  | all S hparts _ _ _ ihe ihok =>
    exact .all S hparts (fun e hS => ihe e hS hk) fun values hS => ihok values hS hk

theorem Visits.andThen {ε : Type} {p : Prog (Except ε α)} {f : α → Prog (Except ε β)}
    (h : p.Visits a base (IfOk Q)) (hk : ∀ answer, Q answer → (f answer).Visits a base (IfOk Q')) :
    (ExceptT.run (ExceptT.mk p >>= fun answer => ExceptT.mk (f answer))).Visits a base (IfOk Q') := by
  refine h.bind fun r hr => ?_
  cases r with
  | ok answer => exact hk answer (hr answer rfl)
  | error e => exact .done nofun

theorem Visits.andThenLift {ε : Type} {p : Prog α} {f : α → Prog (Except ε β)} (h : p.Visits a base Q)
    (hk : ∀ answer, Q answer → (f answer).Visits a base (IfOk Q')) :
    (ExceptT.run (ExceptT.lift p >>= fun answer => ExceptT.mk (f answer))).Visits a base (IfOk Q') := by
  refine Visits.andThen (Q := Q) (h.bind fun answer hanswer => .done fun answer' heq => ?_) hk
  cases heq
  exact hanswer

theorem Visits.mapOk {ε : Type} {p : Prog (Except ε α)} (h : p.Visits a base (IfOk Q)) (f : α → β) :
    (p.bind fun r => .done (r.map f)).Visits a base (IfOk fun _ => True) :=
  h.bind fun _ _ => .done fun _ _ => trivial

/-- Visits side by side. -/
theorem visits_parallel {parts : List (Prog (Except ExecutionError β))}
    (h : ∀ p ∈ parts, p.Visits a base (IfOk fun _ => True)) :
    (parallel parts).Visits a base (IfOk fun _ => True) :=
  .all (IfOk fun _ => True) (fun i => h _ (List.get_mem parts i)) (fun _ _ => .done nofun)
    fun _ _ => .done fun _ _ => trivial

/-- What a program visits on its own machine it visits below a route. -/
theorem Visits.shift {p : Prog α} (h : p.Visits a lower Q) : p.Visits (base ++ a) (base ++ lower) Q := by
  have hbelow {lower branch : Route} (hb : Beneath a (lower ++ branch)) :
      Beneath (base ++ a) (base ++ lower ++ branch) := by
    rw [List.append_assoc]
    exact (beneath_append base a _).2 hb
  induction h with
  | done h => exact .done h
  | @act _ _ _ op _ hb _ ih =>
    refine .act (hb.imp hbelow fun hb => ⟨by rw [List.append_assoc, hb.1], hb.2⟩) fun b hmakes => ih b ?_
    cases op with
    | fork branch options => simpa only [Op.Makes, List.append_assoc, beneath_append] using hmakes
    | openSession branch inputs => simpa only [Op.Makes, List.append_assoc, beneath_append] using hmakes
    | _ => trivial
  | sleep _ ih => exact .sleep ih
  | spawn hb _ ih => exact .spawn (hbelow hb) ih
  | resolve hb _ ih => exact .resolve (hbelow hb) ih
  | settle hb _ ih => exact .settle (hbelow hb) ih
  | all S _ _ _ ihparts ihe ihok => exact .all S ihparts ihe ihok

/-- A program further down visits what it visits on the branch there. -/
theorem Visits.under {route : Route} {p : Prog α} (h : p.Visits a (base ++ route) Q) :
    (p.under route).Visits a base Q := by
  have hbranch (branch : Route) : base ++ (route ++ branch) = base ++ route ++ branch := (List.append_assoc ..).symm
  induction h with
  | done h => exact .done h
  | @act _ _ _ op _ hb _ ih =>
    refine .act ?_ fun b hmakes => ih b ?_
    · rw [Op.branch_under, hbranch, Op.light_under]
      exact hb
    · rwa [Op.makes_under] at hmakes
  | sleep _ ih => exact .sleep ih
  | spawn hb _ ih => exact .spawn (by rwa [hbranch]) ih
  | resolve hb _ ih => exact .resolve (by rwa [hbranch]) ih
  | settle hb _ ih => exact .settle (by rwa [hbranch]) ih
  | all S _ _ _ ihparts ihe ihok => exact .all S ihparts ihe ihok

end Prog

end MediaQuery
