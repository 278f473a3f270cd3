import MediaQuery.Proofs.Machine.Recorded
import MediaQuery.Proofs.Template.Faithful
import MediaQuery.Proofs.Template.Isolation
import MediaQuery.Proofs.Template.Outcome

/-!
# How evaluations get to their values

An evaluation that gets to a value has gone from one moment to another. An object has run its directives, and then each
of its fields has got to its value in the course of the rest (`leads_object`). The elements of a list have got to their
values in the course of the whole (`leads_list`), as have the items of a collection once its action has answered it
(`leads_items`).
-/

namespace MediaQuery

open Machine (Moment Steady)

open Prog

variable {base branch : Route} {path : Path} {x y : Moment} {α β : Type}

/-- A program has got to a value while the first moment has become the second. -/
abbrev Attains (base : Route) (x y : Moment) (p : Prog (Except ExecutionError α)) (a : α) : Prop :=
  x.Meanwhile y fun x y => p.Leads base x (.ok a) y

/-- **Programs side by side.** Each has got to its value in the course of it. -/
theorem Prog.leads_parallel {parts : List (Prog (Except ExecutionError β))} {values : List β}
    (h : (parallel parts).Leads base x (.ok values) y) : List.Forall₂ (Attains base x y) parts values := by
  obtain ⟨r, x₁, -, hparts, rfl, rfl⟩ := h
  cases hparts with
  | ok hn hparts => exact List.forall₂_iff_get.2 ⟨hn.symm, fun i hi _ => hparts i hi⟩

/-- An object: its directives have left a branch and entries, and the fields have got to their values on it. -/
theorem leads_object {directives : Directives} {fields : List (String × Template)} {v : Value}
    (h : (evalTemplate (.object directives fields) branch path).Leads base x (.ok v) y) :
    ∃ r ready values, (directives.run branch path).Leads base x (.ok r) ready ∧
      List.Forall₂ (Attains base ready y) (evalFields fields r.1 path) values ∧
      v = .map (assemble r.2 ((fields.map fun e => outputKey e.1).zip values)) := by
  rw [evalTemplate_object] at h
  obtain ⟨r, ready, hdirectives, hparts⟩ := leads_andThen.1 h
  obtain ⟨values, y₁, hvalues, hv, rfl⟩ := leads_andThen.1 hparts
  exact ⟨r, ready, values, hdirectives, leads_parallel hvalues, Except.ok.inj hv⟩

/-- A list: its elements have got to their values. -/
theorem leads_list {items : List Template} {v : Value}
    (h : (evalTemplate (.list items) branch path).Leads base x (.ok v) y) :
    ∃ values, List.Forall₂ (Attains base x y) (evalItems items branch path 0) values ∧
      v = .list (flattenItems values) := by
  rw [evalTemplate_list] at h
  obtain ⟨values, y₁, hvalues, hv, rfl⟩ := leads_andThen.1 h
  exact ⟨values, leads_parallel hvalues, Except.ok.inj hv⟩

/-- An element with `arrayMap`: its action has answered a collection, and each item has got to its value. -/
theorem leads_items {action : Action} {element : Route → Path → Prog (Except ExecutionError Value)} {values : List Value}
    (h : (evalArrayMap action element branch path).Leads base x (.ok values) y) :
    ∃ completed answered source,
      (executeAction action branch (path.directive "array_map")).Leads base x (.ok completed) answered ∧
      sourceItems? completed.value = some source ∧
      List.Forall₂ (Attains base answered y) (source.mapIdx (evalItem element completed.branch path)) values := by
  rw [evalArrayMap_eq] at h
  obtain ⟨completed, answered, haction, hspread⟩ := leads_andThen.1 h
  unfold spreadItems at hspread
  split at hspread
  · next source hsource => exact ⟨completed, answered, source, haction, hsource, leads_parallel hspread⟩
  · obtain ⟨_, _, -, heq, -⟩ := leads_andThenLift.1 hspread
    cases heq

/-- A run of an evaluation that ends with a value has got to it from where the run began. -/
theorem leads_of_run_evaluate {inputs : Inputs} {past : List Machine.Event} {m m' : Machine} {t : Template} {v : Value}
    (h : Steady inputs past m) (hrun : m.run (t.evaluate branch) = (some (.ok v), m')) :
    ∃ past', (evalTemplate t branch (m.path branch)).Leads [] ⟨past, m⟩ (.ok v) ⟨past', m'⟩ := by
  cases hplaced : t.misplaced? (m.path branch) with
  | some place =>
    obtain ⟨e, hfails⟩ := Machine.run_misplaced hplaced
    cases hrun.symm.trans hfails
  | none =>
    rw [Machine.run_evaluate hplaced] at hrun
    obtain ⟨past', -, hleads⟩ := Machine.leads_of_run h hrun
    exact ⟨past', hleads⟩

end MediaQuery
