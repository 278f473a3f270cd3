import MediaQuery.Proofs.Machine.Passage
import MediaQuery.Proofs.Template.Blind

/-!
# Where failures stem from

An evaluation that has come to a failure has it from an action of the template that it has run, or has rejected what a
directive answered (`stems_evalTemplate`). An action has it from what it answers or from a value that it waits for
(`breaks_of_executeAction`).
-/

namespace MediaQuery

open Machine (Moment)

open Prog

variable {base branch : Route} {path : Path} {x y x' y' : Moment} {e : ExecutionError} {α β : Type}

/-! ## Programs that have come to a failure -/

namespace Prog

section Failing

variable {ε : Type} {error : ε}

/-- A program that may fail, and what comes after it, have come to a failure: that of the program, or a later one. -/
theorem leads_error_andThen {p : Prog (Except ε α)} {f : α → Prog (Except ε β)} :
    (ExceptT.run (ExceptT.mk p >>= fun a => ExceptT.mk (f a))).Leads base x (.error error) y ↔
      p.Leads base x (.error error) y ∨ ∃ a x₁, p.Leads base x (.ok a) x₁ ∧ (f a).Leads base x₁ (.error error) y := by
  refine leads_bind.trans ⟨?_, ?_⟩
  · rintro ⟨r, x₁, hp, hf⟩
    cases r with
    | ok a => exact .inr ⟨a, x₁, hp, hf⟩
    | error error' =>
      obtain ⟨heq, rfl⟩ := hf
      cases heq
      exact .inl hp
  · rintro (hp | ⟨a, x₁, hp, hf⟩)
    · exact ⟨.error error, y, hp, rfl, rfl⟩
    · exact ⟨.ok a, x₁, hp, hf⟩

/-- A change of its answer does not change what a program fails with. -/
theorem leads_error_map {p : Prog (Except ε α)} {f : α → β} :
    (p.bind fun r => .done (r.map f)).Leads base x (.error error) y ↔ p.Leads base x (.error error) y := by
  refine leads_bind.trans ⟨?_, fun h => ⟨_, _, h, rfl, rfl⟩⟩
  rintro ⟨r, x₁, hp, hr, rfl⟩
  cases r with
  | ok a => cases hr
  | error error' =>
    cases hr
    exact hp

end Failing

/-- What is wrapped has come to a failure that leaves the branch. -/
theorem leads_error_wrapping {p : Prog (Except EvalError α)} (h : (wrapping branch path p).Leads base x (.error e) y) :
    ∃ error x₁ log, p.Leads base x (.error error) x₁ ∧ x₁.Before y ∧ e = error.wrap path log branch := by
  obtain ⟨r, x₁, hp, hr⟩ := leads_bind.1 h
  cases r with
  | ok a => cases hr.1
  | error error =>
    obtain ⟨log, x₂, hlog, heq, rfl⟩ := leads_bind.1 hr
    exact ⟨error, x₁, log, hp, hlog.before, Except.error.inj heq⟩

/-- Of programs side by side one has come to the failure. -/
theorem leads_error_parallel {parts : List (Prog (Except ExecutionError β))}
    (h : (parallel parts).Leads base x (.error e) y) :
    ∃ p ∈ parts, x.Meanwhile y fun x y => p.Leads base x (.error e) y := by
  obtain ⟨r, x₁, hsteps, hparts, heq, rfl⟩ := h
  subst heq
  cases hparts with
  | error h => exact ⟨_, List.get_mem parts _, h⟩

end Prog

/-! ## Actions -/

theorem Machine.Moment.Meanwhile.later {done : Moment → Moment → Prop} (h : x.Meanwhile y done) (hy : y.Before y') :
    x.Meanwhile y' done := by
  obtain ⟨x₁, y₁, hbefore, hd, hafter⟩ := h
  exact ⟨x₁, y₁, hbefore, hd, hafter.trans hy⟩

/-- How an action that is run on a branch has failed: with what it answers on its fork, or with a value that it waits
for there or on the branch that it hands back. -/
inductive Breaks (action : Action) (base : Route) (path : Path) (x y : Moment) (e : ExecutionError) : Prop
  | answer (own : Route) (log : List Path) (error : EvalError)
      (h : x.Meanwhile y fun x y => (action.on own).Leads base x (.error error) y) (he : e = error.wrap path log own)
  | value (waited : Route) (log : List Path) (error : EvalError)
      (h : x.Meanwhile y fun x y => (waitForPending waited).Leads base x (.error error) y)
      (he : e = error.wrap path log waited)

/-- A wait that fails ends the action. -/
theorem breaks_of_wait {action : Action} {x₁ : Moment} {waited : Route} (hx : x.Before x₁)
    (h : (wrapping waited path (waitForPending waited)).Leads base x₁ (.error e) y) :
    Breaks action base path x y e := by
  obtain ⟨error, x₂, log, hwait, hafter, he⟩ := leads_error_wrapping h
  exact .value waited log error ⟨x₁, x₂, hx, hwait, hafter⟩ he

/-- **An action that has failed** has answered the failure or waited for it. -/
theorem breaks_of_executeAction {action : Action}
    (h : (executeAction action branch path).Leads base x (.error e) y) : Breaks action base path x y e := by
  rw [executeAction_eq] at h
  obtain ⟨x₁, hentered, -, x₂, hforked, -, h⟩ := h
  have hbegun := hentered.trans hforked
  obtain h | ⟨output, x₃, hanswered, h⟩ := leads_error_andThen.1 h
  · obtain ⟨error, x₃, log, hon, hafter, he⟩ := leads_error_wrapping h
    exact .answer _ log error ⟨x₂, x₃, hbegun, hon, hafter⟩ he
  · obtain ⟨completed, x₄, hkept, h⟩ := leads_andThenLift.1 h
    have hlate := (hbegun.trans hanswered.before).trans hkept.before
    obtain h | ⟨_, x₅, hwaited, h⟩ := leads_error_andThen.1 h
    · exact breaks_of_wait hlate h
    · obtain h | ⟨_, _, _, heq, -⟩ := leads_error_andThen.1 h
      · exact breaks_of_wait (hlate.trans hwaited.before) h
      · cases heq

/-! ## Templates -/

/-- The actions among the directives of an object. -/
def Directives.actions (directives : Directives) : List Action :=
  directives.setup.toList ++ directives.include?.toList ++ directives.arrayMap.toList

mutual

/-- The actions of a template: its leaves and its directives. -/
def Template.actions : Template → List Action
  | .scalar _ => []
  | .action action => [action]
  | .object directives fields => directives.actions ++ actionsOfFields fields
  | .list items => actionsOfItems items

/-- The same for the fields of an object. -/
def actionsOfFields : List (String × Template) → List Action
  | [] => []
  | (_, t) :: rest => t.actions ++ actionsOfFields rest

/-- The same for the elements of a list. -/
def actionsOfItems : List Template → List Action
  | [] => []
  | t :: rest => t.actions ++ actionsOfItems rest

end

/-- Whether a failure is about what a directive has answered. -/
def EvalError.Rejects : EvalError → Prop
  | .invalidInclude _ => True
  | .invalidArrayMapSource _ => True
  | _ => False

/-- Where the failure of an evaluation stems from: from one of the actions, which has been run meanwhile and has
failed with it, or from the rejection of what a directive has answered. -/
inductive Stems (actions : List Action) (base : Route) (x y : Moment) (e : ExecutionError) : Prop
  | action {action : Action} (ha : action ∈ actions) (branch : Route) (path : Path)
      (h : x.Meanwhile y fun x y => (executeAction action branch path).Leads base x (.error e) y)
  | rejected (h : e.cause.Rejects)

theorem Stems.mono {actions actions' : List Action} (h : Stems actions base x' y e) (hsub : actions ⊆ actions')
    (hx : x.Before x') (hy : y.Before y') : Stems actions' base x y' e := by
  cases h with
  | action ha branch path h => exact .action (hsub ha) branch path ((h.earlier hx).later hy)
  | rejected h => exact .rejected h

/-- The failure of an action stems from it. -/
theorem stems_executeAction {action : Action} (h : (executeAction action branch path).Leads base x (.error e) y) :
    Stems [action] base x y e :=
  .action (List.mem_singleton_self action) branch path ⟨x, y, .refl x, h, .refl y⟩

theorem stems_runSetup {setup : Option Action} (h : (runSetup setup branch path).Leads base x (.error e) y) :
    Stems setup.toList base x y e := by
  cases setup with
  | none => cases h.1
  | some action => exact stems_executeAction (leads_error_map.1 h)

theorem stems_mergeIncluded {setupWrote : Bool} {completed : Completed} {actions : List Action}
    (h : (mergeIncluded setupWrote branch path completed).Leads base x (.error e) y) : Stems actions base x y e := by
  unfold mergeIncluded at h
  split at h
  · obtain ⟨merged, x₁, -, h⟩ := leads_andThenLift.1 h
    obtain ⟨_, x₂, -, heq, -⟩ := leads_andThenLift.1 h
    cases heq
  · obtain ⟨log, x₁, -, heq, -⟩ := leads_andThenLift.1 h
    cases heq
    exact .rejected trivial

theorem stems_runInclude {include? : Option Action} {setupWrote : Bool}
    (h : (runInclude include? setupWrote branch path).Leads base x (.error e) y) :
    Stems include?.toList base x y e := by
  cases include? with
  | none => cases h.1
  | some action =>
    rw [runInclude_some] at h
    obtain h | ⟨completed, x₁, hanswered, h⟩ := leads_error_andThen.1 h
    · exact stems_executeAction h
    · exact (stems_mergeIncluded h).mono (List.Subset.refl _) hanswered.before (.refl y)

/-- Of programs side by side one has failed, from where its failure stems. -/
theorem stems_parallel {parts : List (Prog (Except ExecutionError β))} {actions : List Action}
    (hparts : ∀ p ∈ parts, ∀ x y, p.Leads base x (.error e) y → Stems actions base x y e)
    (h : (parallel parts).Leads base x (.error e) y) : Stems actions base x y e := by
  obtain ⟨p, hp, x₁, y₁, hbefore, hleads, hafter⟩ := leads_error_parallel h
  exact (hparts p hp x₁ y₁ hleads).mono (List.Subset.refl _) hbefore hafter

theorem stems_evalObject {directives : Directives} {keys : List String}
    {fields : Route → List (Prog (Except ExecutionError Value))} {actions : List Action}
    (hfields : ∀ branch, ∀ p ∈ fields branch, ∀ x y, p.Leads base x (.error e) y → Stems actions base x y e)
    (h : (evalObject directives keys fields branch path).Leads base x (.error e) y) :
    Stems (directives.actions ++ actions) base x y e := by
  obtain h | ⟨s, x₁, hsetup, h⟩ := leads_error_andThen.1 h
  · refine (stems_runSetup h).mono (fun a ha => ?_) (.refl x) (.refl y)
    simp [Directives.actions, Option.mem_toList.1 ha]
  obtain h | ⟨c, x₂, hinclude, h⟩ := leads_error_andThen.1 h
  · refine (stems_runInclude h).mono (fun a ha => ?_) hsetup.before (.refl y)
    simp [Directives.actions, Option.mem_toList.1 ha]
  obtain h | ⟨values, x₃, -, heq, -⟩ := leads_error_andThen.1 h
  · exact (stems_parallel (hfields c.1) h).mono (List.subset_append_right _ _) (hsetup.before.trans hinclude.before)
      (.refl y)
  · cases heq

/-- A template on a fork fails as it does without one. -/
theorem stems_onFork {t : Template} {eval : Route → Path → Prog (Except ExecutionError Value)} {actions : List Action}
    (heval : ∀ branch x y, (eval branch path).Leads base x (.error e) y → Stems actions base x y e)
    (h : (onFork t branch path eval).Leads base x (.error e) y) : Stems actions base x y e := by
  have hfork (h : (Prog.bind (Prog.fork branch (.place path)) fun own => eval own path).Leads base x (.error e) y) :
      Stems actions base x y e := by
    obtain ⟨own, x₁, hforked, h⟩ := leads_bind.1 h
    exact (heval own x₁ y h).mono (List.Subset.refl _) hforked.before (.refl y)
  cases t with
  | scalar v => exact heval branch x y h
  | action action => exact heval branch x y h
  | object directives fields => exact hfork h
  | list items => exact hfork h

/-- An element of a list that is no collection of its own. -/
theorem stems_single {t : Template} {eval : Route → Path → Prog (Except ExecutionError Value)} {actions : List Action}
    (heval : ∀ branch x y, (eval branch path).Leads base x (.error e) y → Stems actions base x y e)
    (h : (do return (← onFork t branch path eval).map ([·]) : Prog (Except ExecutionError (List Value))).Leads base x
      (.error e) y) : Stems actions base x y e :=
  stems_onFork heval (leads_error_map.1 h)

/-- Programs of which the first fails for one reason and the others for another. -/
theorem stems_elements {p : Prog (Except ExecutionError β)} {rest : List (Prog (Except ExecutionError β))}
    {actions actions' : List Action} (hp : ∀ x y, p.Leads base x (.error e) y → Stems actions base x y e)
    (hrest : ∀ p ∈ rest, ∀ x y, p.Leads base x (.error e) y → Stems actions' base x y e) :
    ∀ q ∈ p :: rest, ∀ x y, q.Leads base x (.error e) y → Stems (actions ++ actions') base x y e :=
  List.forall_mem_cons.2
    ⟨fun x y h => (hp x y h).mono (List.subset_append_left _ _) (.refl x) (.refl y),
      fun q hq x y h => (hrest q hq x y h).mono (List.subset_append_right _ _) (.refl x) (.refl y)⟩

theorem stems_evalItem {element : Route → Path → Prog (Except ExecutionError Value)} {actions : List Action} {i : Nat}
    {item : Value} (helement : ∀ branch path x y, (element branch path).Leads base x (.error e) y →
      Stems actions base x y e) (h : (evalItem element branch path i item).Leads base x (.error e) y) :
    Stems actions base x y e := by
  obtain ⟨own, x₁, hforked, h⟩ := leads_andThenLift.1 h
  obtain ⟨_, x₂, hset, h⟩ := leads_andThenLift.1 h
  exact (helement own _ x₂ y h).mono (List.Subset.refl _) (hforked.before.trans hset.before) (.refl y)

theorem stems_evalArrayMap {action : Action} {element : Route → Path → Prog (Except ExecutionError Value)}
    {actions : List Action} (helement : ∀ branch path x y, (element branch path).Leads base x (.error e) y →
      Stems actions base x y e) (h : (evalArrayMap action element branch path).Leads base x (.error e) y) :
    Stems (action :: actions) base x y e := by
  rw [evalArrayMap_eq] at h
  obtain h | ⟨completed, x₁, hanswered, h⟩ := leads_error_andThen.1 h
  · exact (stems_executeAction h).mono (by simp) (.refl x) (.refl y)
  unfold spreadItems at h
  split at h
  · next items _ =>
    refine (stems_parallel (fun p hp x y h => ?_) h).mono (List.subset_cons_self action actions) hanswered.before
      (.refl y)
    obtain ⟨i, hi, rfl⟩ := List.mem_mapIdx.1 hp
    exact stems_evalItem helement h
  · obtain ⟨log, x₂, -, heq, -⟩ := leads_andThenLift.1 h
    cases heq
    exact .rejected trivial

/-- The action of `arrayMap` is one of those of its object. -/
theorem actions_arrayMap_subset (setup include? : Option Action) (arrayMap : Action) (fields : List (String × Template)) :
    arrayMap :: (Directives.actions ⟨setup, include?, none⟩ ++ actionsOfFields fields) ⊆
      (Template.object ⟨setup, include?, some arrayMap⟩ fields).actions := by
  have hfront : Directives.actions ⟨setup, include?, none⟩ ⊆ Directives.actions ⟨setup, include?, some arrayMap⟩ :=
    List.append_subset.2 ⟨List.subset_append_left _ _, List.nil_subset _⟩
  rw [Template.actions, List.cons_subset]
  exact ⟨by simp [Directives.actions], List.append_subset.2
    ⟨List.Subset.trans hfront (List.subset_append_left _ _), List.subset_append_right _ _⟩⟩

mutual

/-- **Every failure of an evaluation stems from an action of the template**, or from what a directive has answered. -/
theorem stems_evalTemplate : (t : Template) → (branch : Route) → (path : Path) → (x y : Moment) →
    (evalTemplate t branch path).Leads base x (.error e) y → Stems t.actions base x y e
  | .scalar _, _, _, _, _, h => by cases h.1
  | .action _, _, _, _, _, h => stems_executeAction (leads_error_map.1 h)
  | .object _ fields, _, path, _, _, h => stems_evalObject (fun branch => stems_evalFields fields branch path) h
  | .list items, branch, path, _, _, h =>
    stems_parallel (stems_evalItems items branch path 0) (leads_error_map.1 h)

theorem stems_evalFields : (fields : List (String × Template)) → (branch : Route) → (path : Path) →
    ∀ p ∈ evalFields fields branch path, ∀ x y, p.Leads base x (.error e) y → Stems (actionsOfFields fields) base x y e
  | [], _, _ => nofun
  | (_, t) :: rest, branch, path =>
    stems_elements (fun _ _ => stems_onFork fun branch => stems_evalTemplate t branch _) (stems_evalFields rest branch path)

theorem stems_evalItems : (items : List Template) → (branch : Route) → (path : Path) → (i : Nat) →
    ∀ p ∈ evalItems items branch path i, ∀ x y, p.Leads base x (.error e) y → Stems (actionsOfItems items) base x y e
  | [], _, _, _ => nofun
  | .object ⟨_, _, some _⟩ fields :: rest, branch, path, i => by
    refine stems_elements (fun x y h => ?_) (stems_evalItems rest branch path (i + 1))
    refine (stems_evalArrayMap (fun branch path _ _ => stems_evalObject fun branch =>
      stems_evalFields fields branch path) h).mono (actions_arrayMap_subset ..) (.refl x) (.refl y)
  | .object ⟨setup, include?, none⟩ fields :: rest, branch, path, i =>
    stems_elements (fun _ _ => stems_single fun branch =>
      stems_evalTemplate (.object ⟨setup, include?, none⟩ fields) branch _) (stems_evalItems rest branch path (i + 1))
  | .scalar v :: rest, branch, path, i =>
    stems_elements (fun _ _ => stems_single fun branch => stems_evalTemplate (.scalar v) branch _)
      (stems_evalItems rest branch path (i + 1))
  | .action action :: rest, branch, path, i =>
    stems_elements (fun _ _ => stems_single fun branch => stems_evalTemplate (.action action) branch _)
      (stems_evalItems rest branch path (i + 1))
  | .list items :: rest, branch, path, i =>
    stems_elements (fun _ _ => stems_single fun branch => stems_evalTemplate (.list items) branch _)
      (stems_evalItems rest branch path (i + 1))

end

end MediaQuery
