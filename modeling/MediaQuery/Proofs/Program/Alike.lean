import MediaQuery.Action
import MediaQuery.Proofs.Error.Likeness
import Mathlib.Data.List.Forall2

/-!
# Programs that are alike

Two programs are alike (`Prog.Alike`) where the first does below a route what the second does on its own branch:
operation by operation, with equal replies and with failures that are alike. Nothing is said about the execution
log: whatever two logs the programs read, they go on alike. A program that is like itself does not depend on the
log.

Likeness is kept by sequencing (`Alike.bind`) and by taking the programs further down (`Alike.under`).
-/

namespace MediaQuery

universe u v

/-- Results of the same kind, with related values and related failures. -/
inductive SameResult {ε : Type u} {α : Type v} (E : ε → ε → Prop) (R : α → α → Prop) : Except ε α → Except ε α → Prop
  | ok {a a' : α} (h : R a a') : SameResult E R (.ok a) (.ok a')
  | error {e e' : ε} (h : E e e') : SameResult E R (.error e) (.error e')

/-- Whether an operation reads the execution log. -/
def Op.readsLog : {α : Type} → Op α → Bool
  | _, .log _ => true
  | _, _ => false

theorem Op.under_under (lower upper : Route) {α : Type} (op : Op α) :
    (op.under lower).under upper = op.under (upper ++ lower) := by
  cases op <;> simp only [Op.under, List.append_assoc]

theorem Op.readsLog_under (route : Route) {α : Type} (op : Op α) : (op.under route).readsLog = op.readsLog := by
  cases op <;> rfl

namespace Prog

/-- The first program does below the route what the second does on its own branch, and what they compute is
related. -/
inductive Alike : Route → {α : Type} → (α → α → Prop) → Prog α → Prog α → Prop
  | done {route : Route} {α : Type} {R : α → α → Prop} {a a' : α} (h : R a a') : Alike route R (.done a) (.done a')
  | act {route : Route} {α β : Type} {R : α → α → Prop} {op : Op β} {f g : β → Prog α} (hop : op.readsLog = false)
      (h : ∀ b, Alike route R (f b) (g b)) : Alike route R (.act (op.under route) f) (.act op g)
  | log {route branch : Route} {α : Type} {R : α → α → Prop} {f g : List Path → Prog α}
      (h : ∀ log log', Alike route R (f log) (g log')) :
      Alike route R (.act (.log (route ++ branch)) f) (.act (.log branch) g)
  | sleep {route : Route} {α : Type} {R : α → α → Prop} (ms : Nat) {p q : Prog α} (h : Alike route R p q) :
      Alike route R (.sleep ms p) (.sleep ms q)
  | spawn {route branch : Route} {α : Type} {R : α → α → Prop} (key : String)
      {future future' : Prog (Except EvalError Value)} {p q : Prog α}
      (hfuture : Alike [] (SameResult (EvalError.Like []) Eq) future future') (h : Alike route R p q) :
      Alike route R (.spawn (route ++ branch) key future p) (.spawn branch key future' q)
  | resolve {route branch : Route} {α : Type} {R : α → α → Prop} (key : String)
      {f g : Except ContextError Value → Prog α} (h : ∀ r, Alike route R (f r) (g r)) :
      Alike route R (.resolve (route ++ branch) key f) (.resolve branch key g)
  | settle {route branch : Route} {α : Type} {R : α → α → Prop} {f g : Except EvalError Unit → Prog α}
      (h : ∀ r r', SameResult (EvalError.Like []) Eq r r' → Alike route R (f r) (g r')) :
      Alike route R (.settle (route ++ branch) f) (.settle branch g)
  | all {route : Route} {α β : Type} {n n' : Nat} {R : α → α → Prop} (E : ExecutionError → ExecutionError → Prop)
      (S : β → β → Prop) {parts : Fin n → Prog (Except ExecutionError β)}
      {parts' : Fin n' → Prog (Except ExecutionError β)} {f g : Except ExecutionError (List β) → Prog α}
      (hn : n = n') (hparts : ∀ (i : Fin n) (j : Fin n'), i.val = j.val →
        Alike route (SameResult E S) (parts i) (parts' j))
      (h : ∀ r r', SameResult E (List.Forall₂ S) r r' → Alike route R (f r) (g r')) :
      Alike route R (.all parts f) (.all parts' g)

variable {route : Route} {α β : Type} {R : α → α → Prop} {S : β → β → Prop}

/-- One program after another, with programs that are alike. -/
theorem Alike.bind {p q : Prog α} {f g : α → Prog β} (h : Alike route R p q)
    (hk : ∀ a a', R a a' → Alike route S (f a) (g a')) : Alike route S (p.bind f) (q.bind g) := by
  induction h with
  | done h => exact hk _ _ h
  | act hop _ ih => exact .act hop fun b => ih b hk
  | log _ ih => exact .log fun log log' => ih log log' hk
  | sleep ms _ ih => exact .sleep ms (ih hk)
  | spawn key hfuture _ _ ih => exact .spawn key hfuture (ih hk)
  | resolve key _ ih => exact .resolve key fun r => ih r hk
  | settle _ ih => exact .settle fun r r' hr => ih r r' hr hk
  | all E S hn hparts _ _ ih => exact .all E S hn hparts fun r r' hr => ih r r' hr hk

/-- Programs stay alike further down. -/
theorem Alike.under {p q : Prog α} {upper upper' lower : Route} (h : Alike route R p q)
    (hr : upper ++ route = upper' ++ lower) : Alike upper' R (p.under upper) (q.under lower) := by
  have hbranch (branch : Route) : upper ++ (route ++ branch) = upper' ++ (lower ++ branch) := by
    rw [← List.append_assoc, hr, List.append_assoc]
  induction h with
  | done h => exact .done h
  | @act route α β R op f g hop _ ih =>
    have hop' : (op.under route).under upper = (op.under lower).under upper' := by
      rw [Op.under_under, Op.under_under, hr]
    simp only [Prog.under]
    rw [hop']
    exact .act (by rw [Op.readsLog_under, hop]) fun b => ih b hr hbranch
  | log _ ih =>
    simp only [Prog.under, Op.under]
    rw [hbranch]
    exact .log fun log log' => ih log log' hr hbranch
  | sleep ms _ ih => exact .sleep ms (ih hr hbranch)
  | spawn key hfuture _ _ ih =>
    simp only [Prog.under]
    rw [hbranch]
    exact .spawn key hfuture (ih hr hbranch)
  | resolve key _ ih =>
    simp only [Prog.under]
    rw [hbranch]
    exact .resolve key fun r => ih r hr hbranch
  | settle _ ih =>
    simp only [Prog.under]
    rw [hbranch]
    exact .settle fun r r' h => ih r r' h hr hbranch
  | all E S hn _ _ ihparts ih =>
    exact .all E S hn (fun i j hij => ihparts i j hij hr hbranch) fun r r' h => ih r r' h hr hbranch

theorem Alike.mono {p q : Prog α} {R' : α → α → Prop} (h : Alike route R p q) (hR : ∀ a a', R a a' → R' a a') :
    Alike route R' p q := by
  have hbind := h.bind fun a a' ha => Alike.done (hR a a' ha)
  rwa [bind_done, bind_done] at hbind

/-! ## Operations -/

/-- An operation that does not read the log, and what comes after it. -/
theorem Alike.operate (op : Op α) (hop : op.readsLog = false) {f g : α → Prog β} (h : ∀ a, Alike route S (f a) (g a)) :
    Alike route S (.act (op.under route) f) (.act op g) := .act hop h

theorem Alike.perform (op : Op α) (hop : op.readsLog = false) :
    Alike route Eq (Prog.perform (op.under route)) (Prog.perform op) := .act hop fun _ => .done rfl

theorem alike_fork (branch : Route) (options : ForkOptions) :
    Alike route (fun a a' => a = route ++ a') (fork (route ++ branch) options) (fork branch options) :=
  .operate (.fork branch options) rfl fun n => .done (List.append_assoc route branch [n])

theorem alike_log (branch : Route) : Alike route (fun _ _ => True) (log (route ++ branch)) (log branch) :=
  .log fun _ _ => .done trivial

theorem alike_setAll (branch : Route) (values : List (String × Value)) :
    Alike route Eq (setAll (route ++ branch) values) (setAll branch values) := by
  induction values with
  | nil => exact .done rfl
  | cons e rest ih => exact .operate (.set branch e.1 e.2) rfl fun _ => ih

/-! ## Failures -/

variable {E : ExecutionError → ExecutionError → Prop}

/-- What comes after a program that may fail. -/
theorem Alike.andThen {p q : Prog (Except ExecutionError α)} {f g : α → Prog (Except ExecutionError β)}
    (h : Alike route (SameResult E R) p q) (hk : ∀ a a', R a a' → Alike route (SameResult E S) (f a) (g a')) :
    Alike route (SameResult E S) (ExceptT.run (ExceptT.mk p >>= fun a => ExceptT.mk (f a)))
      (ExceptT.run (ExceptT.mk q >>= fun a => ExceptT.mk (g a))) := by
  refine h.bind fun r r' hr => ?_
  cases hr with
  | ok ha => exact hk _ _ ha
  | error he => exact .done (.error he)

/-- What comes after a program that cannot fail. -/
theorem Alike.andThenLift {p q : Prog α} {f g : α → Prog (Except ExecutionError β)} (h : Alike route R p q)
    (hk : ∀ a a', R a a' → Alike route (SameResult E S) (f a) (g a')) :
    Alike route (SameResult E S) (ExceptT.run (ExceptT.lift p >>= fun a => ExceptT.mk (f a)))
      (ExceptT.run (ExceptT.lift q >>= fun a => ExceptT.mk (g a))) :=
  Alike.andThen (E := E) (R := R) (h.bind fun _ _ ha => .done (.ok ha)) hk

/-- A failure that leaves its branch. -/
theorem Alike.wrapping {p q : Prog (Except EvalError α)} (h : Alike route (SameResult (EvalError.Like route) R) p q)
    (branch : Route) (path : Path) :
    Alike route (SameResult (ExecutionError.Like route) R) (wrapping (route ++ branch) path p)
      (wrapping branch path q) := by
  refine h.bind fun r r' hr => ?_
  cases hr with
  | ok ha => exact .done (.ok ha)
  | error he => exact (alike_log branch).bind fun log log' _ => .done (.error (he.wrap path log log' branch))

theorem alike_waitForPending (branch : Route) :
    Alike route (SameResult (EvalError.Like route) Eq) (waitForPending (route ++ branch)) (waitForPending branch) := by
  refine .settle fun r r' hr => .done ?_
  cases hr with
  | ok h => exact .ok h
  | error he => exact .error (he.under (by rw [List.append_nil]))

/-- Programs side by side. -/
theorem alike_parallel {ps qs : List (Prog (Except ExecutionError β))}
    (h : List.Forall₂ (Alike route (SameResult E S)) ps qs) :
    Alike route (SameResult E (List.Forall₂ S)) (parallel ps) (parallel qs) :=
  .all E S h.length_eq (fun i j hij => by
    obtain ⟨i, hi⟩ := i
    obtain ⟨j, hj⟩ := j
    obtain rfl : i = j := hij
    exact h.get hi hj) fun _ _ hr => .done hr

end Prog

/-! ## Actions -/

/-- An action that does not depend on the execution log. -/
def Action.Blind (action : Action) : Prop :=
  Prog.Alike [] (SameResult (EvalError.Like []) Eq) action action

end MediaQuery
