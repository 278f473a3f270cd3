import MediaQuery.Template.Evaluate
import MediaQuery.Proofs.Program.Alike

/-!
# Templates that do not depend on the execution log

Where no action of a template depends on the execution log (`Template.Blind`), the evaluation does below any route
what it does on its own branch (`alike_evalTemplate`). So does each of its parts: actions, the directives of an
object, and the programs of fields, elements and items.
-/

namespace MediaQuery

open Prog

variable {route : Route}

/-! ## Actions -/

/-- What has become of two actions, the first of which has run below the route. -/
structure Completed.Like (route : Route) (c c' : Completed) : Prop where
  branch : c.branch = route ++ c'.branch
  value : c.value = c'.value
  raw : c.raw = c'.raw

theorem Action.Blind.on {action : Action} (h : action.Blind) (own : Route) :
    Alike route (SameResult (EvalError.Like route) Eq) (action.on (route ++ own)) (action.on own) := by
  refine (Alike.under h (List.append_nil _)).bind fun r r' hr => .done ?_
  cases hr with
  | ok h => exact .ok h
  | error he => exact .error (he.under (List.append_nil _))

theorem alike_keepOutput (own : Route) (output : Output) :
    Alike route (Completed.Like route) (keepOutput (route ++ own) output) (keepOutput own output) := by
  cases output with
  | value v =>
    exact .operate (.record own (some v)) rfl fun _ => .operate (.set own currentKey v) rfl fun _ =>
      .done ⟨rfl, rfl, rfl⟩
  | raw v =>
    exact .operate (.record own (some v)) rfl fun _ => .operate (.set own currentKey v) rfl fun _ =>
      .done ⟨rfl, rfl, rfl⟩
  | context further =>
    simp only [keepOutput, List.append_assoc]
    exact .operate (.record (own ++ further) none) rfl fun _ => .operate (.get (own ++ further) currentKey) rfl
      fun _ => .done ⟨rfl, rfl, rfl⟩
  | undefined => exact .operate (.record own none) rfl fun _ => .done ⟨rfl, rfl, rfl⟩

theorem alike_finishAction (own : Route) (path : Path) {c c' : Completed} (hc : c.Like route c') :
    Alike route (SameResult (ExecutionError.Like route) (Completed.Like route))
      (finishAction (route ++ own) path c) (finishAction own path c') := by
  unfold finishAction
  refine ((alike_waitForPending own).wrapping own path).andThen fun _ _ _ => ?_
  rw [hc.branch]
  exact ((alike_waitForPending c'.branch).wrapping c'.branch path).andThen fun _ _ _ => .done (.ok hc)

/-- What an action does once it has a fork of its own. -/
def actOn (action : Action) (own : Route) (path : Path) : Prog (Except ExecutionError Completed) := ExceptT.run do
  let output ← ExceptT.mk (Prog.wrapping own path (action.on own))
  let completed ← ExceptT.lift (keepOutput own output)
  ExceptT.mk (finishAction own path completed)

theorem executeAction_eq (action : Action) (branch : Route) (path : Path) :
    executeAction action branch path =
      .act (.enter branch path) fun _ => .act (.fork branch (.place path)) fun n =>
        actOn action (branch ++ [n]) path := rfl

theorem Action.Blind.actOn {action : Action} (h : action.Blind) (own : Route) (path : Path) :
    Alike route (SameResult (ExecutionError.Like route) (Completed.Like route))
      (actOn action (route ++ own) path) (actOn action own path) := by
  unfold MediaQuery.actOn
  refine ((h.on own).wrapping own path).andThen fun output _ houtput => ?_
  subst houtput
  exact (alike_keepOutput own output).andThenLift fun c c' hc => alike_finishAction own path hc

theorem Action.Blind.execute {action : Action} (h : action.Blind) (branch : Route) (path : Path) :
    Alike route (SameResult (ExecutionError.Like route) (Completed.Like route))
      (executeAction action (route ++ branch) path) (executeAction action branch path) := by
  rw [executeAction_eq, executeAction_eq]
  refine .operate (.enter branch path) rfl fun _ => .operate (.fork branch (.place path)) rfl fun n => ?_
  rw [List.append_assoc]
  exact h.actOn (branch ++ [n]) path

/-! ## Templates -/

/-- Directives that do not depend on the execution log. -/
structure Directives.Blind (directives : Directives) : Prop where
  setup : ∀ action ∈ directives.setup, action.Blind
  include? : ∀ action ∈ directives.include?, action.Blind
  arrayMap : ∀ action ∈ directives.arrayMap, action.Blind

mutual

/-- A template no action of which depends on the execution log. -/
def Template.Blind : Template → Prop
  | .scalar _ => True
  | .action action => action.Blind
  | .object directives fields => directives.Blind ∧ blindFields fields
  | .list items => blindItems items

/-- The same for the fields of an object. -/
def blindFields : List (String × Template) → Prop
  | [] => True
  | (_, t) :: rest => t.Blind ∧ blindFields rest

/-- The same for the elements of a list. -/
def blindItems : List Template → Prop
  | [] => True
  | t :: rest => t.Blind ∧ blindItems rest

end

theorem SameResult.map {ε α β : Type} {E : ε → ε → Prop} {R : α → α → Prop} {S : β → β → Prop} {f : α → β}
    {r r' : Except ε α} (h : SameResult E R r r') (hf : ∀ a a', R a a' → S (f a) (f a')) :
    SameResult E S (r.map f) (r'.map f) := by
  cases h with
  | ok h => exact .ok (hf _ _ h)
  | error h => exact .error h

theorem alike_evalLeaf {action : Action} (h : action.Blind) (branch : Route) (path : Path) :
    Alike route (SameResult (ExecutionError.Like route) Eq) (evalLeaf action (route ++ branch) path)
      (evalLeaf action branch path) := by
  refine (h.execute branch path).bind fun r r' hr => .done (hr.map fun c c' hc => ?_)
  unfold leafValue
  rw [hc.value, hc.raw]

/-- A branch further down, and something else. -/
def Further {α : Type} (route : Route) (a a' : Route × α) : Prop := a = (route ++ a'.1, a'.2)

theorem alike_runSetup {setup : Option Action} (h : ∀ action ∈ setup, action.Blind) (branch : Route) (path : Path) :
    Alike route (SameResult (ExecutionError.Like route) (Further route)) (runSetup setup (route ++ branch) path)
      (runSetup setup branch path) := by
  cases setup with
  | none => exact .done (.ok rfl)
  | some action =>
    refine ((h action rfl).execute branch _).bind fun r r' hr => .done (hr.map fun c c' hc => ?_)
    exact Prod.ext hc.branch (congrArg Option.isSome hc.value)

/-- What `include` does with the answer of its action. -/
def mergeIncluded (setupWrote : Bool) (branch : Route) (path : Path) (completed : Completed) :
    Prog (Except ExecutionError (Route × List (String × Value))) := ExceptT.run do
  match completed.value with
  | some (.map entries) =>
    let merged ← ExceptT.lift (Prog.fork branch (.place path))
    ExceptT.lift (Prog.setAll merged (entries.filter fun e => !(e.1 == currentKey && setupWrote)))
    return (merged, entries.filter fun e => e.1 ≠ currentKey)
  | other =>
    let log ← ExceptT.lift (Prog.log completed.branch)
    throw ((EvalError.invalidInclude (foundKind other)).wrap (path.directive "include") log completed.branch)

theorem runInclude_some (action : Action) (setupWrote : Bool) (branch : Route) (path : Path) :
    runInclude (some action) setupWrote branch path =
      ExceptT.run (ExceptT.mk (executeAction action branch (path.directive "include")) >>= fun completed =>
        ExceptT.mk (mergeIncluded setupWrote branch path completed)) := rfl

theorem alike_runInclude {action? : Option Action} (h : ∀ action ∈ action?, action.Blind) (setupWrote : Bool)
    (branch : Route) (path : Path) :
    Alike route (SameResult (ExecutionError.Like route) (Further route))
      (runInclude action? setupWrote (route ++ branch) path) (runInclude action? setupWrote branch path) := by
  cases action? with
  | none => exact .done (.ok rfl)
  | some action =>
    rw [runInclude_some, runInclude_some]
    refine ((h action rfl).execute branch _).andThen fun c c' hc => ?_
    have hlike {found : Option Value} : EvalError.Like route (.invalidInclude (foundKind found))
        (.invalidInclude (foundKind found)) := rfl
    have hfail (found : Option Value) : Alike route (SameResult (ExecutionError.Like route) (Further route))
        (ExceptT.run (ExceptT.lift (Prog.log (route ++ c'.branch)) >>= fun log =>
          ExceptT.mk (.done (.error ((EvalError.invalidInclude (foundKind found)).wrap (path.directive "include") log
            (route ++ c'.branch))))))
        (ExceptT.run (ExceptT.lift (Prog.log c'.branch) >>= fun log =>
          ExceptT.mk (.done (.error ((EvalError.invalidInclude (foundKind found)).wrap (path.directive "include") log
            c'.branch))) : ExceptT ExecutionError Prog (Route × List (String × Value)))) :=
      (alike_log c'.branch).andThenLift fun log log' _ =>
        .done (.error (hlike.wrap (path.directive "include") log log' c'.branch))
    unfold mergeIncluded
    rw [hc.branch, hc.value]
    split
    · next entries _ =>
      refine (alike_fork branch _).andThenLift fun merged merged' hmerged => ?_
      subst hmerged
      exact (alike_setAll merged' _).andThenLift fun _ _ _ => .done (.ok rfl)
    · exact hfail _

/-- An object whose fields do below the route what they do on the branch itself. -/
theorem alike_evalObject {directives : Directives} (h : directives.Blind) (keys : List String)
    (fields : Route → List (Prog (Except ExecutionError Value)))
    (hfields : ∀ branch, List.Forall₂ (Alike route (SameResult (ExecutionError.Like route) Eq))
      (fields (route ++ branch)) (fields branch)) (branch : Route) (path : Path) :
    Alike route (SameResult (ExecutionError.Like route) Eq)
      (evalObject directives keys fields (route ++ branch) path) (evalObject directives keys fields branch path) := by
  unfold evalObject
  refine (alike_runSetup h.setup branch path).andThen fun s s' hs => ?_
  cases hs
  refine (alike_runInclude h.include? s'.2 s'.1 path).andThen fun c c' hc => ?_
  cases hc
  refine (alike_parallel (hfields c'.1)).andThen fun values values' hvalues => .done (.ok ?_)
  rw [List.forall₂_eq_eq_eq] at hvalues
  rw [hvalues]

/-- The program of one item of the collection that `arrayMap` has answered. -/
def evalItem (element : Route → Path → Prog (Except ExecutionError Value)) (branch : Route) (path : Path) (i : Nat)
    (item : Value) : Prog (Except ExecutionError Value) := ExceptT.run do
  let own ← ExceptT.lift (Prog.fork branch (.place (path.child (.index i))))
  ExceptT.lift (Prog.set own currentKey item)
  ExceptT.mk (element own (path.child (.index i)))

/-- What `arrayMap` does with the answer of its action. -/
def spreadItems (element : Route → Path → Prog (Except ExecutionError Value)) (path : Path) (completed : Completed) :
    Prog (Except ExecutionError (List Value)) := ExceptT.run do
  match sourceItems? completed.value with
  | some items => ExceptT.mk (Prog.parallel (items.mapIdx (evalItem element completed.branch path)))
  | none =>
    let log ← ExceptT.lift (Prog.log completed.branch)
    throw ((EvalError.invalidArrayMapSource (foundKind completed.value)).wrap (path.directive "array_map") log
      completed.branch)

theorem evalArrayMap_eq (action : Action) (element : Route → Path → Prog (Except ExecutionError Value))
    (branch : Route) (path : Path) :
    evalArrayMap action element branch path =
      ExceptT.run (ExceptT.mk (executeAction action branch (path.directive "array_map")) >>= fun completed =>
        ExceptT.mk (spreadItems element path completed)) := rfl

section ArrayMap

variable {element : Route → Path → Prog (Except ExecutionError Value)} (helement : ∀ branch path,
  Alike route (SameResult (ExecutionError.Like route) Eq) (element (route ++ branch) path) (element branch path))
include helement

theorem alike_evalItem (branch : Route) (path : Path) (i : Nat) (item : Value) :
    Alike route (SameResult (ExecutionError.Like route) Eq) (evalItem element (route ++ branch) path i item)
      (evalItem element branch path i item) := by
  unfold evalItem
  refine (alike_fork branch _).andThenLift fun own own' hown => ?_
  subst hown
  exact (Alike.perform (.set own' currentKey item) rfl).andThenLift fun _ _ _ => helement own' _

theorem alike_spreadItems {c c' : Completed} (hc : c.Like route c') (path : Path) :
    Alike route (SameResult (ExecutionError.Like route) Eq) (spreadItems element path c)
      (spreadItems element path c') := by
  unfold spreadItems
  rw [hc.branch, hc.value]
  split
  · next items _ =>
    have hitems : List.Forall₂ (Alike route (SameResult (ExecutionError.Like route) Eq))
        (items.mapIdx (evalItem element (route ++ c'.branch) path)) (items.mapIdx (evalItem element c'.branch path)) := by
      rw [List.forall₂_iff_get]
      refine ⟨by simp, fun i hi hi' => ?_⟩
      simpa using alike_evalItem helement c'.branch path i _
    exact (alike_parallel hitems).mono fun r r' hr => by rwa [List.forall₂_eq_eq_eq] at hr
  · have hlike : EvalError.Like route (.invalidArrayMapSource (foundKind c'.value))
        (.invalidArrayMapSource (foundKind c'.value)) := rfl
    exact (alike_log c'.branch).andThenLift fun log log' _ =>
      .done (.error (hlike.wrap (path.directive "array_map") log log' c'.branch))

theorem alike_evalArrayMap {action : Action} (h : action.Blind) (branch : Route) (path : Path) :
    Alike route (SameResult (ExecutionError.Like route) Eq) (evalArrayMap action element (route ++ branch) path)
      (evalArrayMap action element branch path) := by
  rw [evalArrayMap_eq, evalArrayMap_eq]
  exact (h.execute branch _).andThen fun c c' hc => alike_spreadItems helement hc path

end ArrayMap

theorem alike_onFork (t : Template) {eval : Route → Path → Prog (Except ExecutionError Value)}
    (heval : ∀ branch path, Alike route (SameResult (ExecutionError.Like route) Eq) (eval (route ++ branch) path)
      (eval branch path)) (branch : Route) (path : Path) :
    Alike route (SameResult (ExecutionError.Like route) Eq) (onFork t (route ++ branch) path eval)
      (onFork t branch path eval) := by
  have hfork : Alike route (SameResult (ExecutionError.Like route) Eq)
      (do eval (← Prog.fork (route ++ branch) (.place path)) path)
      (do eval (← Prog.fork branch (.place path)) path) := by
    refine (alike_fork branch _).bind fun own own' hown => ?_
    subst hown
    exact heval own' path
  cases t with
  | scalar v => exact heval branch path
  | action action => exact heval branch path
  | object directives fields => exact hfork
  | list items => exact hfork

/-! ## The evaluator -/

/-- An element of a list that is no collection of its own. -/
theorem alike_single (t : Template) {eval : Route → Path → Prog (Except ExecutionError Value)}
    (heval : ∀ branch path, Alike route (SameResult (ExecutionError.Like route) Eq) (eval (route ++ branch) path)
      (eval branch path)) (branch : Route) (path : Path) :
    Alike route (SameResult (ExecutionError.Like route) Eq)
      (do return (← onFork t (route ++ branch) path eval).map ([·]) : Prog (Except ExecutionError (List Value)))
      (do return (← onFork t branch path eval).map ([·])) :=
  (alike_onFork t heval branch path).bind fun _ _ hr => .done (hr.map fun _ _ hv => congrArg ([·]) hv)

mutual

/-- **The evaluator does below a route what it does on its own branch.** -/
theorem alike_evalTemplate : (t : Template) → t.Blind → (branch : Route) → (path : Path) →
    Alike route (SameResult (ExecutionError.Like route) Eq) (evalTemplate t (route ++ branch) path)
      (evalTemplate t branch path)
  | .scalar _, _, _, _ => .done (.ok rfl)
  | .action _, h, branch, path => alike_evalLeaf h branch path
  | .object _ fields, h, branch, path =>
    alike_evalObject h.1 _ (fun branch => evalFields fields branch path)
      (fun branch => alike_evalFields fields h.2 branch path) branch path
  | .list items, h, branch, path => by
    refine (alike_parallel (alike_evalItems items h branch path 0)).bind fun r r' hr =>
      .done (hr.map fun values values' hvalues => ?_)
    rw [List.forall₂_eq_eq_eq] at hvalues
    rw [hvalues]

theorem alike_evalFields : (fields : List (String × Template)) → blindFields fields → (branch : Route) →
    (path : Path) →
    List.Forall₂ (Alike route (SameResult (ExecutionError.Like route) Eq)) (evalFields fields (route ++ branch) path)
      (evalFields fields branch path)
  | [], _, _, _ => .nil
  | (_, t) :: rest, h, branch, path =>
    .cons (alike_onFork t (alike_evalTemplate t h.1) branch _) (alike_evalFields rest h.2 branch path)

theorem alike_evalItems : (items : List Template) → blindItems items → (branch : Route) → (path : Path) → (i : Nat) →
    List.Forall₂ (Alike route (SameResult (ExecutionError.Like route) Eq)) (evalItems items (route ++ branch) path i)
      (evalItems items branch path i)
  | [], _, _, _, _ => .nil
  | .object ⟨setup, include?, some _⟩ fields :: rest, h, branch, path, i => by
    have hleft : Directives.Blind ⟨setup, include?, none⟩ :=
      ⟨h.1.1.setup, h.1.1.include?, fun _ ha => by cases ha⟩
    refine .cons (alike_evalArrayMap (fun branch path => ?_) (h.1.1.arrayMap _ rfl) branch _)
      (alike_evalItems rest h.2 branch path (i + 1))
    exact alike_evalObject hleft _ (fun branch => evalFields fields branch path)
      (fun branch => alike_evalFields fields h.1.2 branch path) branch path
  | .object ⟨setup, include?, none⟩ fields :: rest, h, branch, path, i =>
    .cons (alike_single _ (alike_evalTemplate (.object ⟨setup, include?, none⟩ fields) h.1) branch _)
      (alike_evalItems rest h.2 branch path (i + 1))
  | .scalar v :: rest, h, branch, path, i =>
    .cons (alike_single _ (alike_evalTemplate (.scalar v) h.1) branch _) (alike_evalItems rest h.2 branch path (i + 1))
  | .action action :: rest, h, branch, path, i =>
    .cons (alike_single _ (alike_evalTemplate (.action action) h.1) branch _)
      (alike_evalItems rest h.2 branch path (i + 1))
  | .list items :: rest, h, branch, path, i =>
    .cons (alike_single _ (alike_evalTemplate (.list items) h.1) branch _)
      (alike_evalItems rest h.2 branch path (i + 1))

end

end MediaQuery
