import MediaQuery.Proofs.Machine.Outcome
import MediaQuery.Proofs.Template.Blind

/-!
# What evaluations come to

An evaluation that comes to a value has gone through its directives one after another, and its parts have come to their
values in the course of it: so it is for an object (`comesTo_evalObject`), for `include` (`comesTo_runInclude`), and for
an element with `arrayMap` (`comesTo_evalArrayMap`).
-/

namespace MediaQuery

open Prog

variable {base branch : Route} {path : Path} {m m' : Machine}

/-- A program has come to a value in the course of something. -/
abbrev Gives {α : Type} (base : Route) (m m' : Machine) (p : Prog (Except ExecutionError α)) (a : α) : Prop :=
  m.Meanwhile m' fun m m' => p.ComesTo base m (.ok a) m'

/-- `setup` has answered, and its branch is the one to go on with. -/
theorem comesTo_runSetup {action : Action} {s : Route × Bool}
    (h : (runSetup (some action) branch path).ComesTo base m (.ok s) m') :
    ∃ completed, (executeAction action branch (path.directive "setup")).ComesTo base m (.ok completed) m' ∧
      s = (completed.branch, completed.value.isSome) :=
  comesTo_map.1 h

/-- What `include` has answered is a map, the entries of which are merged. -/
theorem comesTo_mergeIncluded {setupWrote : Bool} {completed : Completed} {r : Route × List (String × Value)}
    (h : (mergeIncluded setupWrote branch path completed).ComesTo base m (.ok r) m') :
    ∃ entries merged m₁, completed.value = some (.map entries) ∧
      (fork branch (.place path)).ComesTo base m merged m₁ ∧
      (setAll merged (entries.filter fun e => !(e.1 == currentKey && setupWrote))).ComesTo base m₁ () m' ∧
      r = (merged, entries.filter fun e => e.1 ≠ currentKey) := by
  unfold mergeIncluded at h
  split at h
  · next entries hvalue =>
    obtain ⟨merged, m₁, hfork, hrest⟩ := comesTo_andThenLift.1 h
    obtain ⟨_, _, hset, hr, rfl⟩ := comesTo_andThenLift.1 hrest
    exact ⟨entries, merged, m₁, hvalue, hfork, hset, Except.ok.inj hr⟩
  · obtain ⟨_, _, _, hr, -⟩ := comesTo_andThenLift.1 h
    cases hr

/-- `include` has answered, and its answer has been merged. -/
theorem comesTo_runInclude {action : Action} {setupWrote : Bool} {r : Route × List (String × Value)}
    (h : (runInclude (some action) setupWrote branch path).ComesTo base m (.ok r) m') :
    ∃ completed m₁, (executeAction action branch (path.directive "include")).ComesTo base m (.ok completed) m₁ ∧
      (mergeIncluded setupWrote branch path completed).ComesTo base m₁ (.ok r) m' := by
  rw [runInclude_some] at h
  exact comesTo_andThen.1 h

/-- **An object.** Its directives have been run, then its fields have come to their values, and what has been included
and the fields are put together. -/
theorem comesTo_evalObject {directives : Directives} {keys : List String}
    {fields : Route → List (Prog (Except ExecutionError Value))} {v : Value}
    (h : (evalObject directives keys fields branch path).ComesTo base m (.ok v) m') :
    ∃ s m₁ r m₂ values, (runSetup directives.setup branch path).ComesTo base m (.ok s) m₁ ∧
      (runInclude directives.include? s.2 s.1 path).ComesTo base m₁ (.ok r) m₂ ∧
      List.Forall₂ (Gives base m₂ m') (fields r.1) values ∧ v = .map (assemble r.2 (keys.zip values)) := by
  obtain ⟨s, m₁, hsetup, h⟩ := comesTo_andThen.1 h
  obtain ⟨r, m₂, hinclude, h⟩ := comesTo_andThen.1 h
  obtain ⟨values, m₃, hfields, hv, rfl⟩ := comesTo_andThen.1 h
  exact ⟨s, m₁, r, m₂, values, hsetup, hinclude, values_of_parallel hfields, Except.ok.inj hv⟩

/-- **An element with `arrayMap`.** Its action has answered a collection, and each item has come to its value. -/
theorem comesTo_evalArrayMap {action : Action} {element : Route → Path → Prog (Except ExecutionError Value)}
    {values : List Value} (h : (evalArrayMap action element branch path).ComesTo base m (.ok values) m') :
    ∃ completed m₁ items, (executeAction action branch (path.directive "array_map")).ComesTo base m (.ok completed) m₁ ∧
      sourceItems? completed.value = some items ∧
      List.Forall₂ (Gives base m₁ m') (items.mapIdx (evalItem element completed.branch path)) values := by
  rw [evalArrayMap_eq] at h
  obtain ⟨completed, m₁, haction, h⟩ := comesTo_andThen.1 h
  unfold spreadItems at h
  split at h
  · next items hitems => exact ⟨completed, m₁, items, haction, hitems, values_of_parallel h⟩
  · obtain ⟨_, _, _, hr, -⟩ := comesTo_andThenLift.1 h
    cases hr

/-- An item has been made the current value of a fork, and then the element has been evaluated there. -/
theorem comesTo_evalItem {element : Route → Path → Prog (Except ExecutionError Value)} {i : Nat} {item v : Value}
    (h : (evalItem element branch path i item).ComesTo base m (.ok v) m') :
    ∃ own m₁, m.Evolves m₁ ∧ (element own (path.child (.index i))).ComesTo base m₁ (.ok v) m' := by
  obtain ⟨own, m₁, hfork, h⟩ := comesTo_andThenLift.1 h
  obtain ⟨_, m₂, hset, h⟩ := comesTo_andThenLift.1 h
  exact ⟨own, m₂, hfork.evolves.trans hset.evolves, h⟩

/-- A template that has been evaluated where it stands or on a fork. -/
theorem comesTo_onFork {t : Template} {eval : Route → Path → Prog (Except ExecutionError Value)} {v : Value}
    (h : (onFork t branch path eval).ComesTo base m (.ok v) m') :
    ∃ own m₁, m.Evolves m₁ ∧ (eval own path).ComesTo base m₁ (.ok v) m' := by
  cases t with
  | scalar _ => exact ⟨branch, m, .refl m, h⟩
  | action _ => exact ⟨branch, m, .refl m, h⟩
  | object directives fields =>
    obtain ⟨own, m₁, hfork, h⟩ := comesTo_bind.1 h
    exact ⟨own, m₁, hfork.evolves, h⟩
  | list items =>
    obtain ⟨own, m₁, hfork, h⟩ := comesTo_bind.1 h
    exact ⟨own, m₁, hfork.evolves, h⟩

/-- A list: its elements have come to their values. -/
theorem comesTo_list {items : List Template} {v : Value}
    (h : (evalTemplate (.list items) branch path).ComesTo base m (.ok v) m') :
    ∃ values, List.Forall₂ (Gives base m m') (evalItems items branch path 0) values ∧
      v = .list (flattenItems values) := by
  rw [evalTemplate] at h
  obtain ⟨values, hvalues, hv⟩ := comesTo_map.1 h
  exact ⟨values, values_of_parallel hvalues, hv⟩

/-- A template without misplaced directives has been evaluated on the branch itself. -/
theorem comesTo_evaluate {t : Template} {v : Value} (h : (t.evaluate branch).ComesTo base m (.ok v) m') :
    ∃ path, (evalTemplate t branch path).ComesTo base m (.ok v) m' := by
  unfold Template.evaluate at h
  obtain ⟨path, m₁, hpath, hrest⟩ := comesTo_bind.1 h
  obtain ⟨-, rfl⟩ := hpath
  split at hrest
  · obtain ⟨_, _, _, hr, -⟩ := comesTo_bind.1 hrest
    cases hr
  · exact ⟨path, hrest⟩

end MediaQuery
