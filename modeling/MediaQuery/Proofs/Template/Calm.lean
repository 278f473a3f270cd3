import MediaQuery.Proofs.Program.Calm
import MediaQuery.Proofs.Template.Parts

/-!
# Calm templates

Where no action of a template stores a value that is still being computed, the evaluation of the template is calm
(`calm_evalTemplate`), and so is what its parts do on their forks (`calm_fieldTenants`, `calm_elementTenants`).
-/

namespace MediaQuery

open Prog

/-! ## Actions -/

theorem calm_keepOutput (own : Route) (output : Output) : (keepOutput own output).Calm := by
  cases output with
  | value v => exact fun _ _ => trivial
  | raw v => exact fun _ _ => trivial
  | context further => exact fun _ _ => trivial
  | undefined => exact fun _ => trivial

theorem calm_finishAction (own : Route) (path : Path) (completed : Completed) :
    (finishAction own path completed).Calm :=
  ((calm_waitForPending own).wrapping own path).andThen fun _ =>
    ((calm_waitForPending completed.branch).wrapping completed.branch path).andThen fun _ => trivial

theorem calm_actOn {action : Action} (h : action.Calm) (own : Route) (path : Path) : (actOn action own path).Calm := by
  have hon : (action.on own).Calm := (h.under own).bind fun _ => trivial
  exact (hon.wrapping own path).andThen fun output =>
    (calm_keepOutput own output).andThenLift fun completed => calm_finishAction own path completed

theorem calm_executeAction {action : Action} (h : action.Calm) (branch : Route) (path : Path) :
    (executeAction action branch path).Calm := by
  rw [executeAction_eq]
  exact fun _ n => calm_actOn h (branch ++ [n]) path

/-! ## Templates -/

/-- All actions of the directives are as told. -/
structure Directives.Every (P : Action → Prop) (directives : Directives) : Prop where
  setup : ∀ action ∈ directives.setup, P action
  include? : ∀ action ∈ directives.include?, P action
  arrayMap : ∀ action ∈ directives.arrayMap, P action

mutual

/-- All actions of a template are as told. -/
def Template.Every (P : Action → Prop) : Template → Prop
  | .scalar _ => True
  | .action action => P action
  | .object directives fields => directives.Every P ∧ everyField P fields
  | .list items => everyItem P items

/-- The same for the fields of an object. -/
def everyField (P : Action → Prop) : List (String × Template) → Prop
  | [] => True
  | (_, t) :: rest => t.Every P ∧ everyField P rest

/-- The same for the elements of a list. -/
def everyItem (P : Action → Prop) : List Template → Prop
  | [] => True
  | t :: rest => t.Every P ∧ everyItem P rest

end

/-- An object with other directives than `arrayMap`. -/
theorem Template.Every.element {P : Action → Prop} {setup include? arrayMap : Option Action}
    {fields : List (String × Template)} (h : (Template.object ⟨setup, include?, arrayMap⟩ fields).Every P) :
    (Template.object ⟨setup, include?, none⟩ fields).Every P := ⟨⟨h.1.setup, h.1.include?, nofun⟩, h.2⟩

/-- No action of the template stores a value that is still being computed. -/
abbrev Template.Calm (t : Template) : Prop := t.Every Prog.Calm

theorem calm_runSetup {setup : Option Action} (h : ∀ action ∈ setup, action.Calm) (branch : Route) (path : Path) :
    (runSetup setup branch path).Calm := by
  cases setup with
  | none => trivial
  | some action => exact (calm_executeAction (h action rfl) branch _).bind fun _ => trivial

theorem calm_mergeIncluded (setupWrote : Bool) (branch : Route) (path : Path) (completed : Completed) :
    (mergeIncluded setupWrote branch path completed).Calm := by
  unfold mergeIncluded
  split
  · exact Calm.andThenLift (calm_perform (.fork branch (.place path)) |>.bind fun _ => trivial) fun merged =>
      (calm_setAll merged _).andThenLift fun _ => trivial
  · exact Calm.andThenLift (calm_perform (.log completed.branch)) fun _ => trivial

theorem calm_runInclude {action? : Option Action} (h : ∀ action ∈ action?, action.Calm) (setupWrote : Bool)
    (branch : Route) (path : Path) : (runInclude action? setupWrote branch path).Calm := by
  cases action? with
  | none => trivial
  | some action =>
    exact (calm_executeAction (h action rfl) branch _).andThen fun c => calm_mergeIncluded setupWrote branch path c

theorem calm_evalObject {directives : Directives} (h : directives.Every Prog.Calm) (keys : List String)
    {fields : Route → List (Prog (Except ExecutionError Value))} (hfields : ∀ branch, ∀ p ∈ fields branch, p.Calm)
    (branch : Route) (path : Path) : (evalObject directives keys fields branch path).Calm :=
  (calm_runSetup h.setup branch path).andThen fun s => (calm_runInclude h.include? s.2 s.1 path).andThen fun c =>
    (calm_parallel (hfields c.1)).andThen fun _ => trivial

section ArrayMap

variable {element : Route → Path → Prog (Except ExecutionError Value)}
  (helement : ∀ branch path, (element branch path).Calm)
include helement

theorem calm_evalItem (branch : Route) (path : Path) (i : Nat) (item : Value) :
    (evalItem element branch path i item).Calm :=
  Calm.andThenLift (calm_perform (.fork branch _) |>.bind fun _ => trivial) fun own =>
    (calm_perform (.set own currentKey item)).andThenLift fun _ => helement own _

theorem calm_spreadItems (path : Path) (completed : Completed) : (spreadItems element path completed).Calm := by
  unfold spreadItems
  split
  · next items _ =>
    refine calm_parallel fun p hp => ?_
    obtain ⟨i, hi, rfl⟩ := List.mem_mapIdx.1 hp
    exact calm_evalItem helement completed.branch path i _
  · exact Calm.andThenLift (calm_perform (.log completed.branch)) fun _ => trivial

theorem calm_evalArrayMap {action : Action} (h : action.Calm) (branch : Route) (path : Path) :
    (evalArrayMap action element branch path).Calm :=
  (calm_executeAction h branch _).andThen fun completed => calm_spreadItems helement path completed

end ArrayMap

theorem calm_onFork (t : Template) {eval : Route → Path → Prog (Except ExecutionError Value)}
    (heval : ∀ branch path, (eval branch path).Calm) (branch : Route) (path : Path) :
    (onFork t branch path eval).Calm := by
  have hfork : ((fork branch (.place path)).bind fun own => eval own path).Calm := fun _ => heval _ path
  cases t with
  | scalar v => exact heval branch path
  | action action => exact heval branch path
  | object directives fields => exact hfork
  | list items => exact hfork

mutual

/-- **The evaluation of a calm template is calm.** -/
theorem calm_evalTemplate : (t : Template) → t.Calm → (branch : Route) → (path : Path) →
    (evalTemplate t branch path).Calm
  | .scalar _, _, _, _ => trivial
  | .action _, h, branch, path => (calm_executeAction h branch path).bind fun _ => trivial
  | .object _ fields, h, branch, path =>
    calm_evalObject h.1 _ (fun branch => calm_evalFields fields h.2 branch path) branch path
  | .list items, h, branch, path => (calm_parallel (calm_evalItems items h branch path 0)).bind fun _ => trivial

theorem calm_evalFields : (fields : List (String × Template)) → everyField Prog.Calm fields → (branch : Route) →
    (path : Path) → ∀ p ∈ evalFields fields branch path, p.Calm
  | [], _, _, _ => nofun
  | (_, t) :: rest, h, branch, path => List.forall_mem_cons.2
    ⟨calm_onFork t (calm_evalTemplate t h.1) branch _, calm_evalFields rest h.2 branch path⟩

theorem calm_evalItems : (items : List Template) → everyItem Prog.Calm items → (branch : Route) → (path : Path) →
    (i : Nat) → ∀ p ∈ evalItems items branch path i, p.Calm
  | [], _, _, _, _ => nofun
  | .object ⟨_, _, some _⟩ fields :: rest, h, branch, path, i => List.forall_mem_cons.2
    ⟨calm_evalArrayMap (fun branch path => calm_evalObject h.1.element.1 _
        (fun branch => calm_evalFields fields h.1.2 branch path) branch path) (h.1.1.arrayMap _ rfl) branch _,
      calm_evalItems rest h.2 branch path (i + 1)⟩
  | .object ⟨setup, include?, none⟩ fields :: rest, h, branch, path, i => List.forall_mem_cons.2
    ⟨(calm_onFork _ (calm_evalTemplate (.object ⟨setup, include?, none⟩ fields) h.1) branch _).bind fun _ => trivial,
      calm_evalItems rest h.2 branch path (i + 1)⟩
  | .scalar v :: rest, h, branch, path, i => List.forall_mem_cons.2
    ⟨(calm_onFork _ (calm_evalTemplate (.scalar v) h.1) branch _).bind fun _ => trivial,
      calm_evalItems rest h.2 branch path (i + 1)⟩
  | .action action :: rest, h, branch, path, i => List.forall_mem_cons.2
    ⟨(calm_onFork _ (calm_evalTemplate (.action action) h.1) branch _).bind fun _ => trivial,
      calm_evalItems rest h.2 branch path (i + 1)⟩
  | .list items :: rest, h, branch, path, i => List.forall_mem_cons.2
    ⟨(calm_onFork _ (calm_evalTemplate (.list items) h.1) branch _).bind fun _ => trivial,
      calm_evalItems rest h.2 branch path (i + 1)⟩

end

/-! ## Tenants -/

theorem calm_tenant {t : Template} (h : t.Calm) (path : Path) : (t.tenant path).program.Calm := by
  cases t with
  | scalar v => trivial
  | action action => exact (calm_actOn h [] path).bind fun _ => trivial
  | object directives fields => exact calm_evalTemplate _ h [] path
  | list items => exact calm_evalTemplate _ h [] path

theorem calm_fieldTenants {fields : List (String × Template)} (h : everyField Prog.Calm fields) (path : Path) :
    ∀ tenant ∈ fieldTenants fields path, tenant.program.Calm := by
  induction fields with
  | nil => exact nofun
  | cons e rest ih => exact List.forall_mem_cons.2 ⟨calm_tenant h.1 _, ih h.2⟩

theorem calm_itemTenant {element : Route → Path → Prog (Except ExecutionError Value)}
    (helement : ∀ branch path, (element branch path).Calm) (path : Path) (i : Nat) (item : Value) :
    (itemTenant element path i item).program.Calm :=
  (calm_perform (.set [] currentKey item)).andThenLift fun _ => helement [] _

theorem calm_elementTenant {t : Template} (h : t.Calm) (path : Path) : (t.elementTenant path).program.Calm := by
  have hsingle : ((t.tenant path).map ([·])).program.Calm := (calm_tenant h path).bind fun _ => trivial
  cases t with
  | object directives fields =>
    obtain ⟨setup, include?, arrayMap⟩ := directives
    cases arrayMap with
    | none => exact hsingle
    | some action =>
      refine (calm_actOn (h.1.arrayMap action rfl) [] _).bind fun r => ?_
      cases r with
      | ok completed => exact calm_spreadItems (calm_evalTemplate _ h.element) path completed
      | error e => trivial
  | _ => exact hsingle

theorem calm_elementTenants {items : List Template} (h : everyItem Prog.Calm items) (path : Path) (i : Nat) :
    ∀ tenant ∈ elementTenants items path i, tenant.program.Calm := by
  induction items generalizing i with
  | nil => exact nofun
  | cons t rest ih => exact List.forall_mem_cons.2 ⟨calm_elementTenant h.1 _, ih h.2 (i + 1)⟩

end MediaQuery
