import MediaQuery.Proofs.Template.Blind
import MediaQuery.Proofs.Program.Uses

/-!
# Actions that use what they have been handed

A local action uses no branches but its own and those made from it, and it hands no other back (`Action.Local`). What
is evaluated with local actions uses only the branch it is evaluated on and those made from it: an action
(`Action.Local.execute`) and the directives of an object (`Directives.Local.run`).
-/

namespace MediaQuery

open Prog

variable {T : Route → Prop} {branch own : Route} {α : Type} {Q : α → Prop}

/-! ## What programs are put together from -/

theorem uses_fork (hb : T branch) (options : ForkOptions) : (fork branch options).Uses T [] T :=
  .operate (.fork branch options) hb fun _ hmade => .done hmade

theorem uses_setAll (hb : T branch) (values : List (String × Value)) :
    (setAll branch values).Uses T [] fun _ => True := by
  induction values with
  | nil => exact .done trivial
  | cons e rest ih => exact .operate (.set branch e.1 e.2) hb fun _ _ => ih

theorem uses_log (hb : T branch) : (log branch).Uses T [] fun _ => True :=
  .operate (.log branch) hb fun _ _ => .done trivial

theorem uses_waitForPending (hb : T branch) : (waitForPending branch).Uses T [] (IfOk fun _ => True) :=
  .settle hb fun _ => .done fun _ _ => trivial

/-- A failure that leaves its branch. -/
theorem Prog.Uses.wrapping {p : Prog (Except EvalError α)} (h : p.Uses T [] (IfOk Q)) (hb : T branch) (path : Path) :
    (Prog.wrapping branch path p).Uses T [] (IfOk Q) := by
  refine h.bind fun r hr => ?_
  cases r with
  | ok a => exact .done fun a' heq => Except.ok.inj heq ▸ hr a rfl
  | error e => exact (uses_log hb).bind fun _ _ => .done nofun

/-! ## Actions -/

/-- An output hands back only a branch that may be used. -/
def Output.Among (T : Route → Prop) (own : Route) (output : Output) : Prop :=
  ∀ further, output = .context further → T (own ++ further)

/-- An action that uses only some branches if its own is one of them, and hands no other back. -/
def Action.Within (T : Route → Prop) (action : Action) : Prop :=
  ∀ own, T own → action.Uses T own (IfOk (Output.Among T own))

/-- An action that uses only its own branch and those made from it, and hands no other back. -/
def Action.Local (action : Action) : Prop := ∀ T own, T own → action.Uses T own (IfOk (Output.Among T own))

theorem Action.Local.within {action : Action} (h : action.Local) (T : Route → Prop) : action.Within T := h T

theorem Action.Within.on {action : Action} (h : action.Within T) (hown : T own) :
    (action.on own).Uses T [] (IfOk (Output.Among T own)) := by
  refine (h own hown).under.bind fun r hr => .done fun output heq => ?_
  cases r with
  | ok output => exact Except.ok.inj heq ▸ hr output rfl
  | error e => cases heq

theorem uses_keepOutput (hown : T own) {output : Output} (h : output.Among T own) :
    (keepOutput own output).Uses T [] fun c => T c.branch := by
  cases output with
  | value v =>
    exact .operate (.record own (some v)) hown fun _ _ => .operate (.set own currentKey v) hown fun _ _ =>
      .done hown
  | raw v =>
    exact .operate (.record own (some v)) hown fun _ _ => .operate (.set own currentKey v) hown fun _ _ =>
      .done hown
  | context further =>
    have hfurther : T (own ++ further) := h further rfl
    exact .operate (.record (own ++ further) none) hfurther fun _ _ =>
      .operate (.get (own ++ further) currentKey) hfurther fun _ _ => .done hfurther
  | undefined => exact .operate (.record own none) hown fun _ _ => .done hown

theorem uses_finishAction (hown : T own) (path : Path) {completed : Completed} (hc : T completed.branch) :
    (finishAction own path completed).Uses T [] (IfOk fun c => T c.branch) := by
  unfold finishAction
  refine ((uses_waitForPending hown).wrapping hown path).andThen fun _ _ => ?_
  refine ((uses_waitForPending hc).wrapping hc path).andThen fun _ _ => .done fun c heq => ?_
  exact Except.ok.inj heq ▸ hc

theorem Action.Within.actOn {action : Action} (h : action.Within T) (hown : T own) (path : Path) :
    (actOn action own path).Uses T [] (IfOk fun c => T c.branch) := by
  unfold MediaQuery.actOn
  refine ((h.on hown).wrapping hown path).andThen fun output houtput => ?_
  exact (uses_keepOutput hown houtput).andThenLift fun c hc => uses_finishAction hown path hc

theorem Action.Within.execute {action : Action} (h : action.Within T) (hb : T branch) (path : Path) :
    (executeAction action branch path).Uses T [] (IfOk fun c => T c.branch) := by
  rw [executeAction_eq]
  exact .operate (.enter branch path) hb fun _ _ => .operate (.fork branch (.place path)) hb fun _ hown =>
    h.actOn hown path

/-- **A local action uses only the branch it is run on and those made from it**, and so is what becomes of it. -/
theorem Action.Local.execute {action : Action} (h : action.Local) (hb : T branch) (path : Path) :
    (executeAction action branch path).Uses T [] (IfOk fun c => T c.branch) := (h.within T).execute hb path

/-! ## Directives -/

/-- Directives that use only the branch they are run on and those made from it. -/
structure Directives.Local (directives : Directives) : Prop where
  setup : ∀ action ∈ directives.setup, action.Local
  include? : ∀ action ∈ directives.include?, action.Local
  arrayMap : ∀ action ∈ directives.arrayMap, action.Local

theorem uses_runSetup {setup : Option Action} (h : ∀ action ∈ setup, action.Within T) (hb : T branch) (path : Path) :
    (runSetup setup branch path).Uses T [] (IfOk fun r => T r.1) := by
  cases setup with
  | none => exact .done fun r heq => Except.ok.inj heq ▸ hb
  | some action =>
    refine ((h action rfl).execute hb _).bind fun r hr => .done fun a heq => ?_
    cases r with
    | ok c => exact Except.ok.inj heq ▸ hr c rfl
    | error e => cases heq

theorem uses_runInclude {action? : Option Action} (h : ∀ action ∈ action?, action.Within T) (setupWrote : Bool)
    (hb : T branch) (path : Path) :
    (runInclude action? setupWrote branch path).Uses T [] (IfOk fun r => T r.1) := by
  cases action? with
  | none => exact .done fun r heq => Except.ok.inj heq ▸ hb
  | some action =>
    unfold runInclude
    refine ((h action rfl).execute hb _).andThen fun c hc => ?_
    split
    · refine (uses_fork hb _).andThenLift fun merged hmerged => ?_
      exact (uses_setAll hmerged _).andThenLift fun _ _ => .done fun r heq => Except.ok.inj heq ▸ hmerged
    · exact (uses_log hc).andThenLift fun _ _ => .done nofun

/-- Runs `setup` and then `include`: the branch on which the fields are evaluated, and the entries included. -/
def Directives.run (directives : Directives) (branch : Route) (path : Path) :
    Prog (Except ExecutionError (Route × List (String × Value))) := ExceptT.run do
  let (branch, setupWrote) ← ExceptT.mk (runSetup directives.setup branch path)
  ExceptT.mk (runInclude directives.include? setupWrote branch path)

/-- **Local directives use only the branch they are run on and those made from it**, and so is the branch they leave
for the fields. -/
theorem Directives.Local.run {directives : Directives} (h : directives.Local) (hb : T branch) (path : Path) :
    (directives.run branch path).Uses T [] (IfOk fun r => T r.1) := by
  unfold Directives.run
  refine (uses_runSetup (fun action ha => (h.setup action ha).within T) hb path).andThen fun s hs => ?_
  exact uses_runInclude (fun action ha => (h.include? action ha).within T) s.2 hs path

/-- What is left of the evaluation of an object after its directives: the programs of its fields, side by side. -/
def evalParts (included : List (String × Value)) (keys : List String)
    (parts : List (Prog (Except ExecutionError Value))) : Prog (Except ExecutionError Value) := ExceptT.run do
  let values ← ExceptT.mk (Prog.parallel parts)
  ExceptT.mk (.done (.ok (.map (assemble included (keys.zip values)))))

theorem evalObject_eq (directives : Directives) (keys : List String)
    (fields : Route → List (Prog (Except ExecutionError Value))) (branch : Route) (path : Path) :
    evalObject directives keys fields branch path =
      ExceptT.run (ExceptT.mk (directives.run branch path) >>= fun r =>
        ExceptT.mk (evalParts r.2 keys (fields r.1))) :=
  congrArg ExceptT.run (bind_assoc (ExceptT.mk (runSetup directives.setup branch path))
    (fun s => ExceptT.mk (runInclude directives.include? s.2 s.1 path))
    (fun r => ExceptT.mk (evalParts r.2 keys (fields r.1)))).symm

end MediaQuery
