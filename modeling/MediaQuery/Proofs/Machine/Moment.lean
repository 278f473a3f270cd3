import MediaQuery.Proofs.Machine.Stale
import Mathlib.Logic.Relation

/-!
# Moments

A moment is a machine together with what has happened to it. One moment comes before another if steps lead from it to
the other, whoever takes them (`Moment.Before`); the later past is then the earlier one and what is more recent
(`Moment.Before.exists_recent`), and a history goes on (`Moment.Before.history`). What every step keeps that is not of
some kind also holds at a later moment, if no event in between is of that kind (`Moment.Before.keeps`).
-/

namespace MediaQuery.Machine

/-- A future ends once. -/
theorem result?_of_ended {past : List Event} {m m' : Machine} {id : FutureId} {result : Except EvalError Value}
    (hs : m.Step past (.ended id result) m') : (m.future? id).bind Future.result? = none := by
  cases hs with
  | finish result hf hr =>
    rw [hf]
    exact hr

/-- A machine, and what has happened to it so far. -/
structure Moment : Type 1 where
  past : List Event
  machine : Machine

namespace Moment

variable {x y z : Moment} {inputs : Inputs} {a : Route} {key : String}

/-- One step leads from the first moment to the second. -/
def Next (x y : Moment) : Prop := ∃ e, x.machine.Step x.past e y.machine ∧ y.past = e :: x.past

/-- Steps lead from the first moment to the second. -/
def Before : Moment → Moment → Prop := Relation.ReflTransGen Next

theorem Before.refl (x : Moment) : x.Before x := Relation.ReflTransGen.refl

theorem Before.trans (h : x.Before y) (h' : y.Before z) : x.Before z := Relation.ReflTransGen.trans h h'

theorem before_of_step {past : List Event} {m m' : Machine} {e : Event} (hs : m.Step past e m') :
    Before ⟨past, m⟩ ⟨e :: past, m'⟩ := .single ⟨e, hs, rfl⟩

/-- A machine with a history has one later on. -/
theorem Before.history (h : x.Before y) (hx : History inputs x.past x.machine) : History inputs y.past y.machine := by
  induction h with
  | refl => exact hx
  | tail _ hn ih =>
    obtain ⟨e, hs, hpast⟩ := hn
    rw [hpast]
    exact ih.step hs

/-- A branch that is there stays. -/
theorem Before.there (h : x.Before y) (ha : (x.machine.node? a).isSome = true) :
    (y.machine.node? a).isSome = true := by
  induction h with
  | refl => exact ha
  | tail _ hn ih =>
    obtain ⟨e, hs, -⟩ := hn
    exact there_step hs ih

/-- What has happened has happened. -/
theorem Before.exists_recent (h : x.Before y) : ∃ recent, y.past = recent ++ x.past := by
  induction h with
  | refl => exact ⟨[], rfl⟩
  | tail _ hn ih =>
    obtain ⟨recent, hrecent⟩ := ih
    obtain ⟨e, -, hpast⟩ := hn
    exact ⟨e :: recent, by rw [hpast, hrecent, List.cons_append]⟩

theorem Before.subset (h : x.Before y) : x.past ⊆ y.past := by
  obtain ⟨recent, hrecent⟩ := h.exists_recent
  rw [hrecent]
  exact List.subset_append_right _ _

/-- No event between two moments is of the given kind. -/
def Without (x y : Moment) (kind : Event → Prop) : Prop :=
  ∀ recent, y.past = recent ++ x.past → ∀ e ∈ recent, ¬ kind e

section Without

variable {kind kind' : Event → Prop}

theorem without_of_recent {recent : List Event} (hrecent : y.past = recent ++ x.past) (h : ∀ e ∈ recent, ¬ kind e) :
    x.Without y kind := by
  intro recent' hrecent' e he
  obtain rfl := List.append_cancel_right (hrecent.symm.trans hrecent')
  exact h e he

theorem Without.imp (h : x.Without y kind) (hkind : ∀ e, kind' e → kind e) : x.Without y kind' :=
  fun recent hrecent e he hk => h recent hrecent e he (hkind e hk)

/-- Not before the moment in between. -/
theorem Without.left (h : x.Without z kind) (hx : x.Before y) (hy : y.Before z) : x.Without y kind := by
  obtain ⟨recent, hrecent⟩ := hx.exists_recent
  obtain ⟨recent', hrecent'⟩ := hy.exists_recent
  refine without_of_recent hrecent fun e he => h (recent' ++ recent) ?_ e (List.mem_append_right _ he)
  rw [hrecent', hrecent, List.append_assoc]

/-- Nor after it. -/
theorem Without.right (h : x.Without z kind) (hx : x.Before y) (hy : y.Before z) : y.Without z kind := by
  obtain ⟨recent, hrecent⟩ := hx.exists_recent
  obtain ⟨recent', hrecent'⟩ := hy.exists_recent
  refine without_of_recent hrecent' fun e he => h (recent' ++ recent) ?_ e (List.mem_append_left _ he)
  rw [hrecent', hrecent, List.append_assoc]

/-- **What every step keeps that is not of the kind holds as long as there is none of the kind.** -/
theorem Before.keeps {P : Moment → Prop} (h : x.Before y) (hkind : x.Without y kind) (hx : P x)
    (hstep : ∀ {z w e}, x.Before z → z.machine.Step z.past e w.machine → w.past = e :: z.past → ¬ kind e →
      P z → P w) : P y := by
  induction h with
  | refl => exact hx
  | @tail z w hz hn ih =>
    have hnext : z.Before w := .single hn
    obtain ⟨e, hs, hpast⟩ := hn
    refine hstep hz hs hpast ?_ (ih (hkind.left hz hnext))
    exact hkind.right hz hnext [e] hpast e (List.mem_singleton_self e)

end Without

/-- As long as nothing is written to a key of a branch, the last write to it is the same. -/
theorem lastWrite_of_without (h : x.Before y) (ha : (x.machine.node? a).isSome = true)
    (hw : x.Without y (Event.Writes a key)) : lastWrite y.past a key = lastWrite x.past a key := by
  refine h.keeps (P := fun z => lastWrite z.past a key = lastWrite x.past a key) hw rfl ?_
  intro z w e hz hs hpast he hlast
  obtain ⟨hf, ho⟩ := not_made_of_there hs (hz.there ha)
  rw [hpast, lastWrite_cons he hf ho, hlast]

/-- The result of a future stays known. -/
theorem endOf_of_before (h : x.Before y) (hx : History inputs x.past x.machine) {id : FutureId}
    {result : Except EvalError Value} (hr : endOf x.past id = some result) : endOf y.past id = some result := by
  induction h with
  | refl => exact hr
  | @tail z w hz hn ih =>
    obtain ⟨e, hs, hpast⟩ := hn
    rw [hpast]
    refine (endOf_cons fun result' heq => ?_).trans ih
    subst heq
    have hends := (lineage_of_history (Before.history hz hx)).roster.endings id
    rw [result?_of_ended hs, ih] at hends
    cases hends

end Moment

end MediaQuery.Machine
