import MediaQuery.Proofs.Program.Safe
import MediaQuery.Proofs.Template.Blind

/-!
# Safe evaluations

What an evaluation fails with is up to the actions that it runs and to what it makes of their answers. A `Conduct` is a
kind of failures, and what is known of a branch that an action has left. Where every action of an object or a list
conducts itself that way (`Conduct.Runs`), and so does the evaluator when it rejects an answer (`Conduct.Rejects`), the
whole fails with failures of that kind only, whatever else happens meanwhile.
-/

namespace MediaQuery

open Prog

variable {α : Type} {base branch own : Route} {path : Path} {m m' : Machine}

/-! ## The end of an action -/

/-- A branch to go on with after an action: the action's fork or one further down. -/
theorem safe_keepOutput {permits : Machine → Route → EvalError → Prop} {P : Machine → Route → Prop}
    (hlasts : ∀ m m' a, m.Evolves m' → P m a → P m' a) {output : Output} (hown : P m (base ++ own))
    (houtput : ∀ route, output = .context route → P m (base ++ own ++ route)) :
    (keepOutput own output).Safe permits base m fun m c => P m (base ++ c.branch) := by
  have hkept (v : Option Value) : (record own v).Safe permits base m fun m' _ => m.Evolves m' :=
    safe_operation (.record own v)
  have hset {m₁ : Machine} (v : Value) :
      (Prog.set own currentKey v).Safe permits base m₁ fun m' _ => m₁.Evolves m' :=
    safe_operation (.set own currentKey v)
  have hself {m₁ m₂ m₃ : Machine} (hg : m.Evolves m₁) (hg' : m₁.Evolves m₂) (hg'' : m₂.Evolves m₃) :
      P m₃ (base ++ own) := hlasts m m₃ _ (hg.trans (hg'.trans hg'')) hown
  cases output with
  | value v => exact (hkept _).bind fun _ _ _ hg => (hset v).bind fun _ _ _ hg' => fun _ hg'' => hself hg hg' hg''
  | raw v => exact (hkept _).bind fun _ _ _ hg => (hset v).bind fun _ _ _ hg' => fun _ hg'' => hself hg hg' hg''
  | context route =>
    refine Safe.bind (safe_operation (.record (own ++ route) none)) fun m₁ _ _ hg => ?_
    refine Safe.bind (safe_operation (.get (own ++ route) currentKey)) fun m₂ _ _ hg' => ?_
    intro m₃ hg''
    rw [← List.append_assoc]
    exact hlasts m m₃ _ (hg.trans (hg'.trans hg'')) (houtput route rfl)
  | undefined => exact (hkept none).bind fun m₁ _ _ hg => fun _ hg' => hself hg (.refl m₁) hg'

/-! ## Conduct -/

/-- A kind of failures, as seen from the base, and what is known of a branch that an action has left which has been run
at a path. -/
structure Conduct where
  permits : Machine → Route → EvalError → Prop
  fails : Machine → ExecutionError → Prop
  left : Machine → Path → Route → Prop
  fails_lasts : ∀ m m' e, m.Evolves m' → fails m e → fails m' e
  left_lasts : ∀ m m' path a, m.Evolves m' → left m path a → left m' path a
  hosted : ∀ m path a, left m path a → m.Hosted a

namespace Conduct

variable (c : Conduct)

/-- The action can be run at the path on any branch of a query. -/
def Runs (base : Route) (path : Path) (action : Action) : Prop :=
  ∀ m branch, m.Hosted (base ++ branch) →
    (executeAction action branch path).Safe c.permits base m
      (Meets c.fails fun m completed => c.left m path (base ++ completed.branch))

/-- The answer of a directive can be rejected. -/
def Rejects (base : Route) (place : Path) (e : EvalError) : Prop :=
  ∀ m own, c.left m place (base ++ own) → c.fails m (e.wrap place (m.session (base ++ own)).log own)

/-- A program that fails with nothing else, on any branch of a query. -/
def Evaluates (base : Route) (p : Route → Prog (Except ExecutionError α)) : Prop :=
  ∀ m branch, m.Hosted (base ++ branch) → (p branch).Safe c.permits base m (FailsWith c.fails)

variable {c}

/-! ## Directives -/

theorem safe_runSetup {setup : Option Action} (h : ∀ action ∈ setup, c.Runs base (path.directive "setup") action)
    (hbranch : m.Hosted (base ++ branch)) : (runSetup setup branch path).Safe c.permits base m
      (Meets c.fails fun m s => m.Hosted (base ++ s.1)) := by
  cases setup with
  | none => exact fun m' hg => hbranch.evolves hg
  | some action =>
    exact Safe.mapOk (h action rfl m branch hbranch)
      (fun _ _ completed hg hleft => (c.hosted _ _ (base ++ completed.branch) hleft).evolves hg) c.fails_lasts

/-- A failure of the evaluator itself, about what a directive has answered. -/
theorem safe_reject {place : Path} {e : EvalError} {good : Machine → α → Prop} (h : c.Rejects base place e)
    (hleft : c.left m place (base ++ own)) :
    (ExceptT.run (ExceptT.lift (Prog.log own) >>= fun log => ExceptT.mk (.done (.error (e.wrap place log own))))).Safe
      c.permits base m (Meets c.fails good) := by
  refine Safe.andThenLift (safe_perform (.log own) (P := fun m' log => c.fails m' (e.wrap place log own))
    fun m₁ hg m₂ hg' => ?_) fun m₂ log _ hfails => ?_
  · exact c.fails_lasts m₁ m₂ _ hg' (h m₁ own (c.left_lasts m m₁ _ _ hg hleft))
  · exact fun m₃ hg' => c.fails_lasts m₂ m₃ _ hg' hfails

theorem safe_mergeIncluded (setupWrote : Bool) {completed : Completed}
    (h : ∀ found, c.Rejects base (path.directive "include") (.invalidInclude found)) (hbranch : m.Hosted (base ++ branch))
    (hleft : c.left m (path.directive "include") (base ++ completed.branch)) :
    (mergeIncluded setupWrote branch path completed).Safe c.permits base m
      (Meets c.fails fun m s => m.Hosted (base ++ s.1)) := by
  unfold mergeIncluded
  split
  · next entries _ =>
    refine Safe.andThenLift (safe_fork (.place path) hbranch) fun m₁ merged _ hfork => ?_
    refine Safe.andThenLift (safe_setAll merged _) fun m₂ _ _ hg => ?_
    exact fun m₃ hg' => (hfork.2.right.evolves hg).evolves hg'
  · exact safe_reject (h _) hleft

theorem safe_runInclude {action? : Option Action} (h : ∀ action ∈ action?, c.Runs base (path.directive "include") action)
    (hreject : action?.isSome = true → ∀ found, c.Rejects base (path.directive "include") (.invalidInclude found))
    (setupWrote : Bool) (hbranch : m.Hosted (base ++ branch)) :
    (runInclude action? setupWrote branch path).Safe c.permits base m
      (Meets c.fails fun m s => m.Hosted (base ++ s.1)) := by
  cases action? with
  | none => exact fun m' hg => hbranch.evolves hg
  | some action =>
    rw [runInclude_some]
    exact Safe.andThen (h action rfl m branch hbranch)
      (fun _ completed hg hleft => safe_mergeIncluded setupWrote (hreject rfl) (hbranch.evolves hg) hleft) c.fails_lasts

/-- **An object.** -/
theorem safe_evalObject {directives : Directives} (keys : List String)
    {fields : Route → List (Prog (Except ExecutionError Value))}
    (hsetup : ∀ action ∈ directives.setup, c.Runs base (path.directive "setup") action)
    (hinclude : ∀ action ∈ directives.include?, c.Runs base (path.directive "include") action)
    (hreject : directives.include?.isSome = true →
      ∀ found, c.Rejects base (path.directive "include") (.invalidInclude found))
    (hfields : ∀ m branch, m.Hosted (base ++ branch) → ∀ p ∈ fields branch,
      p.Safe c.permits base m (FailsWith c.fails)) :
    c.Evaluates base fun branch => evalObject directives keys fields branch path := by
  intro m branch hbranch
  refine Safe.andThen (safe_runSetup hsetup hbranch) (fun m₁ s _ hs => ?_) c.fails_lasts
  refine Safe.andThen (safe_runInclude hinclude hreject s.2 hs) (fun m₂ r _ hr => ?_) c.fails_lasts
  refine Safe.andThen (safe_parallel (hfields m₂ r.1 hr) c.fails_lasts) (fun m₃ values _ _ => ?_) c.fails_lasts
  exact fun _ _ => trivial

/-! ## Collections -/

section ArrayMap

variable {element : Route → Path → Prog (Except ExecutionError Value)}
  (helement : ∀ n, c.Evaluates base fun branch => element branch (path.child (.index n)))
include helement

theorem safe_evalItem (i : Nat) (item : Value) : c.Evaluates base fun branch => evalItem element branch path i item := by
  intro m branch hbranch
  refine Safe.andThenLift (safe_fork _ hbranch) fun m₁ own _ hfork => ?_
  refine Safe.andThenLift (safe_operation (.set own currentKey item)) fun m₂ _ _ hg => ?_
  exact helement i m₂ own (hfork.2.right.evolves hg)

theorem safe_spreadItems {completed : Completed}
    (h : ∀ found, c.Rejects base (path.directive "array_map") (.invalidArrayMapSource found))
    (hleft : c.left m (path.directive "array_map") (base ++ completed.branch)) :
    (spreadItems element path completed).Safe c.permits base m (FailsWith c.fails) := by
  unfold spreadItems
  split
  · next items _ =>
    refine safe_parallel (fun p hp => ?_) c.fails_lasts
    obtain ⟨i, hi, rfl⟩ := List.mem_mapIdx.1 hp
    exact safe_evalItem helement i _ m _ (c.hosted _ _ _ hleft)
  · exact safe_reject (h _) hleft

/-- **An element with `arrayMap`.** -/
theorem safe_evalArrayMap {action : Action} (haction : c.Runs base (path.directive "array_map") action)
    (h : ∀ found, c.Rejects base (path.directive "array_map") (.invalidArrayMapSource found)) :
    c.Evaluates base fun branch => evalArrayMap action element branch path := by
  intro m branch hbranch
  dsimp only
  rw [evalArrayMap_eq]
  exact Safe.andThen (haction m branch hbranch) (fun _ completed _ hleft => safe_spreadItems helement h hleft)
    c.fails_lasts

end ArrayMap

/-! ## Places -/

/-- A leaf. -/
theorem safe_leaf {action : Action} (h : c.Runs base path action) :
    c.Evaluates base fun branch => evalTemplate (.action action) branch path := by
  intro m branch hbranch
  dsimp only
  rw [evalTemplate]
  exact Safe.mapOk (h m branch hbranch) (fun _ _ _ _ _ => trivial) c.fails_lasts

/-- A list. -/
theorem safe_list {items : List Template} (h : ∀ m branch, m.Hosted (base ++ branch) →
      ∀ p ∈ evalItems items branch path 0, p.Safe c.permits base m (FailsWith c.fails)) :
    c.Evaluates base fun branch => evalTemplate (.list items) branch path := by
  intro m branch hbranch
  dsimp only
  rw [evalTemplate]
  exact Safe.mapOk (safe_parallel (h m branch hbranch) c.fails_lasts) (fun _ _ _ _ _ => trivial) c.fails_lasts

/-- A nested object or list on a fork of its own, and other templates as they are. -/
theorem safe_onFork (t : Template) {eval : Route → Path → Prog (Except ExecutionError Value)}
    (heval : c.Evaluates base fun branch => eval branch path) :
    c.Evaluates base fun branch => onFork t branch path eval := by
  intro m branch hbranch
  have hfork : ((Prog.fork branch (.place path)).bind fun own => eval own path).Safe c.permits base m
      (FailsWith c.fails) := Safe.bind (safe_fork _ hbranch) fun m₁ own _ hfork => heval m₁ own hfork.2.right
  cases t with
  | scalar v => exact heval m branch hbranch
  | action action => exact heval m branch hbranch
  | object directives fields => exact hfork
  | list items => exact hfork

/-- An element of a list that is no collection of its own. -/
theorem safe_single (t : Template) {eval : Route → Path → Prog (Except ExecutionError Value)}
    (heval : c.Evaluates base fun branch => eval branch path) :
    c.Evaluates base fun branch =>
      (do return (← onFork t branch path eval).map ([·]) : Prog (Except ExecutionError (List Value))) :=
  fun m branch hbranch => Safe.mapOk (safe_onFork t heval m branch hbranch) (fun _ _ _ _ _ => trivial) c.fails_lasts

end Conduct

end MediaQuery
