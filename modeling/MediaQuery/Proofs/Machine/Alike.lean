import MediaQuery.Machine.Token
import MediaQuery.Proofs.Branch.Shift
import MediaQuery.Proofs.Machine.Future
import MediaQuery.Proofs.Machine.Sweep
import MediaQuery.Proofs.Program.Alike

/-!
# Runs and futures that are alike

What has been started of two programs that are alike is alike (`Run.Alike`): both are done, or they wait for the
same thing, where the futures of the first have the names that those of the second have below a place. A run that
cannot go on stays as it is when it is taken on (`resume_of_not_ready`).
-/

namespace MediaQuery

section Rel

universe u v w
variable {α : Type u} {β : Type v} {γ : Type w} {R : α → β → Prop} {x : Option α} {y : Option β}

/-- Related options are both none or have related values. -/
theorem rel_cases (h : Option.Rel R x y) : (x = none ∧ y = none) ∨ ∃ a b, x = some a ∧ y = some b ∧ R a b := by
  cases h with
  | none => exact .inl ⟨rfl, rfl⟩
  | some h => exact .inr ⟨_, _, rfl, rfl, h⟩

/-- What is the same of related values is the same of related options. -/
theorem rel_map_eq {f : α → γ} {g : β → γ} (h : Option.Rel R x y) (hfg : ∀ a b, R a b → f a = g b) :
    x.map f = y.map g := by
  cases h with
  | none => rfl
  | some h => exact congrArg some (hfg _ _ h)

theorem rel_isSome (h : Option.Rel R x y) : x.isSome = y.isSome := by
  cases h <;> rfl

end Rel

/-- Waits for the same futures, whose names are those below the place. -/
inductive Wait.Alike (place : Route) : Wait → Wait → Prop
  | futures (front : FutureId) (rest : List FutureId) {failure failure' : Option EvalError}
      (h : Option.Rel (EvalError.Like []) failure failure') :
      Wait.Alike place (.futures (front.shift place) (rest.map (FutureId.shift place)) failure)
        (.futures front rest failure')
  | slots (front : PendingSlot) (rest : List PendingSlot) {failure failure' : Option EvalError}
      (h : Option.Rel (EvalError.Like []) failure failure') :
      Wait.Alike place (.slots (slotShift place front) (rest.map (slotShift place)) failure)
        (.slots front rest failure')

/-- Both runs are done with related results, or wait for the same and then go on alike. The first names futures as
they are named below the place, and branches below the route. -/
inductive Run.Alike (place route : Route) : {α : Type} → (α → α → Prop) → Run α → Run α → Prop
  | done {α : Type} {R : α → α → Prop} {a a' : α} (h : R a a') : Alike place route R (.done a) (.done a')
  | asleep {α : Type} {R : α → α → Prop} (wake : Nat) {p q : Prog α} (h : Prog.Alike route R p q) :
      Alike place route R (.asleep wake p) (.asleep wake q)
  | resolving {α : Type} {R : α → α → Prop} (branch : Route) (key : String) (generation : Nat) (future : FutureId)
      {f g : Except ContextError Value → Prog α} (h : ∀ r, Prog.Alike route R (f r) (g r)) :
      Alike place route R (.resolving (route ++ branch) key generation (future.shift place) f)
        (.resolving branch key generation future g)
  | waiting {α : Type} {R : α → α → Prop} (branch : Route) {wait wait' : Wait} (hw : wait.Alike place wait')
      {f g : Except EvalError Unit → Prog α}
      (h : ∀ r r', SameResult (EvalError.Like []) Eq r r' → Prog.Alike route R (f r) (g r')) :
      Alike place route R (.waiting (route ++ branch) wait f) (.waiting branch wait' g)
  | joined {α β : Type} {n n' : Nat} {R : α → α → Prop} (E : ExecutionError → ExecutionError → Prop)
      (S : β → β → Prop) {parts : Fin n → Run (Except ExecutionError β)}
      {parts' : Fin n' → Run (Except ExecutionError β)} {f g : Except ExecutionError (List β) → Prog α}
      (hn : n = n') (hparts : ∀ (i : Fin n) (j : Fin n'), i.val = j.val →
        Alike place route (SameResult E S) (parts i) (parts' j))
      (hwait : Unfinished parts')
      (h : ∀ r r', SameResult E (List.Forall₂ S) r r' → Prog.Alike route R (f r) (g r')) :
      Alike place route R (.joined parts f) (.joined parts' g)

/-- States of futures that are alike. -/
inductive FutureState.Alike (place : Route) : FutureState → FutureState → Prop
  | running {run run' : Run (Except EvalError Value)}
      (h : run.Alike place [] (SameResult (EvalError.Like []) Eq) run') :
      FutureState.Alike place (.running run) (.running run')
  | busy : FutureState.Alike place .busy .busy
  | ended {result result' : Except EvalError Value} {report report' : Except EvalError Unit}
      (h : SameResult (EvalError.Like []) Eq result result')
      (hreport : SameResult (EvalError.Like []) Eq report report') :
      FutureState.Alike place (.ended result report) (.ended result' report')

/-- Futures that are alike, the first of which is further down. -/
structure Future.Alike (place : Route) (f f' : Future) : Prop where
  id : f.id = f'.id.shift place
  key : f.key = f'.key
  awaited : f.awaited = f'.awaited
  state : f.state.Alike place f'.state

/-! ## Runs -/

namespace Run

variable {place route base : Route} {α : Type} {R : α → α → Prop} {run run' : Run α} {m : Machine}

/-- Runs that are alike are done together. -/
theorem Alike.result? (h : run.Alike place route R run') : Option.Rel R run.result? run'.result? := by
  cases h with
  | done h => exact .some h
  | _ => exact .none

theorem Alike.isSome_result? (h : run.Alike place route R run') : run.result?.isSome = run'.result?.isSome := by
  cases h <;> rfl

/-- Of two runs that are alike the first waits with the second. -/
theorem Alike.unfinished {β : Type} {n n' : Nat} {E : ExecutionError → ExecutionError → Prop} {S : β → β → Prop}
    {parts : Fin n → Run (Except ExecutionError β)} {parts' : Fin n' → Run (Except ExecutionError β)} (hn : n = n')
    (hparts : ∀ (i : Fin n) (j : Fin n'), i.val = j.val → Alike place route (SameResult E S) (parts i) (parts' j))
    (h : Unfinished parts') : Unfinished parts := by
  subst hn
  refine ⟨?_, fun i e he => ?_⟩
  · obtain ⟨i, hi⟩ := h.waits
    refine ⟨i, ?_⟩
    have hsame := (hparts i i rfl).isSome_result?
    rw [hi] at hsame
    exact Option.not_isSome_iff_eq_none.1 (by simp [hsame])
  · have hpart := hparts i i rfl
    generalize hq : parts' i = q at hpart
    rw [he] at hpart
    cases hpart with
    | done hr =>
      cases hr with
      | error _ => exact h.unfailed i _ hq

/-- A run that cannot go on stays as it is. -/
theorem resume_of_not_ready (h : run.Alike place route R run') (hr : run.isReady m = false) :
    (run.resume base m).2 = m ∧ (run.resume base m).1.Alike place route R run' := by
  induction h with
  | done h => exact ⟨rfl, .done h⟩
  | asleep wake h =>
    have hlate : ¬ wake ≤ m.clock := of_decide_eq_false hr
    unfold resume
    rw [if_neg hlate]
    exact ⟨rfl, .asleep wake h⟩
  | resolving branch key generation future h =>
    have hrunning : (m.outcome (future.shift place)).isRunning = true := by simpa [isReady] using hr
    unfold resume
    cases ho : m.outcome (future.shift place) with
    | running => exact ⟨rfl, .resolving branch key generation future h⟩
    | resolved v => simp [ho, Outcome.isRunning] at hrunning
    | failed => simp [ho, Outcome.isRunning] at hrunning
  | waiting branch hw h =>
    unfold resume
    rw [wait_of_not_ready hr]
    exact ⟨rfl, .waiting branch hw h⟩
  | @joined α β n n' R E S parts parts' f g hn hparts hwait h ih =>
    subst hn
    have hidle (i : Fin n) : (parts i).isReady m = false := by
      have hall : ∀ i ∈ List.finRange n, ¬ (parts i).isReady m = true := List.any_eq_false.1 hr
      exact Bool.not_eq_true _ ▸ hall i (List.mem_finRange i)
    have hstay (i : Fin n) := ih i i rfl (hidle i)
    have hafter : Unfinished fun i => ((parts i).resume base m).1 :=
      Alike.unfinished rfl (fun i j hij => by
        obtain rfl := Fin.ext hij
        exact (hstay i).2) hwait
    have hsweep := sweep_idle (m := m) (fun i => (hstay i).1)
      hafter.unfailed (List.finRange n)
    have hgather := hafter.gather?_eq_none
    unfold resume
    rw [hsweep]
    simp only [hgather, true_and]
    refine .joined E S (by simp) (fun i j hij => ?_) hwait h
    have hget : ((List.finRange n).map fun i => ((parts i).resume base m).1).get i = ((parts j).resume base m).1 := by
      simp [hij]
    rw [hget]
    exact (hstay j).2

end Run

end MediaQuery
