import MediaQuery.Proofs.Machine.Agree
import MediaQuery.Proofs.Program.Hooks
import MediaQuery.Proofs.Template.Faithful
import MediaQuery.Script.Steps

/-!
# Durations and the value of a template

Two templates are the same but for the durations of the sleeps of their actions (`Template.Retimed`). So are then the
programs that evaluate them (`Template.Retimed.evaluate`): actions on their forks (`Action.Retimed.execute`), chains of
them (`retimed_chain`), directives, and what runs side by side. Where such templates are evaluated on machines that
agree, both come to the same value, or both fail (`evaluate_retimed`).
-/

namespace MediaQuery

open Prog

variable {K : Pairs} {base base' own own' b b' : Route}

/-! ## Actions -/

/-- Two answers that are the same, where branches handed back are corresponding ones that have been made. -/
inductive Output.Same (K : Pairs) (own own' : Route) : Output → Output → Prop
  | value (v : Value) : Same K own own' (.value v) (.value v)
  | raw (v : Value) : Same K own own' (.raw v) (.raw v)
  | context {further further' : Route} (h : K.made (own ++ further) (own' ++ further')) :
      Same K own own' (.context further) (.context further')
  | undefined : Same K own own' .undefined .undefined

/-- **The same action but for the durations of its sleeps**, wherever it is run: on corresponding forks both do the same
and come to the same answer, or both fail. -/
def Action.Retimed (action action' : Action) : Prop :=
  ∀ K own own', K.made own own' →
    Prog.Retimed K own own' (fun L => SameSuccess (Output.Same L own own')) action action'

/-- What has become of two such actions. -/
structure Completed.Same (K : Pairs) (base base' : Route) (c c' : Completed) : Prop where
  branch : K.made (base ++ c.branch) (base' ++ c'.branch)
  value : c.value = c'.value
  raw : c.raw = c'.raw

theorem Completed.Same.mono {L : Pairs} {c c' : Completed} (h : c.Same K base base' c') (hL : K.Le L) :
    c.Same L base base' c' :=
  ⟨hL.made _ _ h.branch, h.value, h.raw⟩

theorem Completed.Same.leafValue_eq {c c' : Completed} (h : c.Same K base base' c') : leafValue c = leafValue c' := by
  unfold leafValue
  rw [h.value, h.raw]

theorem Action.Retimed.on {action action' : Action} (h : action.Retimed action')
    (hown : K.made (base ++ own) (base' ++ own')) :
    Prog.Retimed K base base' (fun L => SameSuccess (Output.Same L (base ++ own) (base' ++ own')))
      (action.on own) (action'.on own') := by
  refine (h K _ _ hown).under.bind fun L r r' _ hr => .done ?_
  cases hr with
  | ok h => exact .ok h
  | error _ => exact .error trivial

theorem retimed_keepOutput (hown : K.made (base ++ own) (base' ++ own')) {output output' : Output}
    (h : output.Same K (base ++ own) (base' ++ own') output') :
    Prog.Retimed K base base' (fun L => Completed.Same L base base') (keepOutput own output)
      (keepOutput own' output') := by
  have hmet : K.met (base ++ own) (base' ++ own') := K.met_of_made _ _ hown
  cases h with
  | value v =>
    exact .operate (.record own (some v)) rfl hmet fun _ => .operate (.set own currentKey v) rfl hmet fun _ =>
      .done ⟨hown, rfl, rfl⟩
  | raw v =>
    exact .operate (.record own (some v)) rfl hmet fun _ => .operate (.set own currentKey v) rfl hmet fun _ =>
      .done ⟨hown, rfl, rfl⟩
  | @context further further' h =>
    rw [List.append_assoc, List.append_assoc] at h
    have hfurther := K.met_of_made _ _ h
    exact .operate (.record (own ++ further) none) rfl hfurther fun _ =>
      .operate (.get (own ++ further) currentKey) rfl hfurther fun _ => .done ⟨h, rfl, rfl⟩
  | undefined => exact .operate (.record own none) rfl hmet fun _ => .done ⟨hown, rfl, rfl⟩

theorem retimed_finishAction (hown : K.made (base ++ own) (base' ++ own')) (path : Path) {c c' : Completed}
    (hc : c.Same K base base' c') :
    Prog.Retimed K base base' (fun L => SameSuccess (Completed.Same L base base')) (finishAction own path c)
      (finishAction own' path c') := by
  unfold finishAction
  have hwait : Prog.Retimed K base base' (fun _ => SameSuccess Eq) (waitForPending own) (waitForPending own') :=
    retimed_waitForPending hown
  refine (hwait.wrapping path).andThen fun L _ _ hL _ => ?_
  have hfurther : Prog.Retimed L base base' (fun _ => SameSuccess Eq) (waitForPending c.branch)
      (waitForPending c'.branch) := retimed_waitForPending (hL.made _ _ hc.branch)
  exact (hfurther.wrapping path).andThen fun M _ _ hM _ => .done (.ok (hc.mono (hL.trans hM)))

theorem Action.Retimed.actOn {action action' : Action} (h : action.Retimed action')
    (hown : K.made (base ++ own) (base' ++ own')) (path : Path) :
    Prog.Retimed K base base' (fun L => SameSuccess (Completed.Same L base base')) (actOn action own path)
      (actOn action' own' path) := by
  unfold MediaQuery.actOn
  refine ((h.on hown).wrapping path).andThen fun L _ _ hL houtput => ?_
  have hown' := hL.made _ _ hown
  exact (retimed_keepOutput hown' houtput).andThenLift fun M _ _ hM hc =>
    retimed_finishAction (hM.made _ _ hown') path hc

theorem Action.Retimed.execute {action action' : Action} (h : action.Retimed action')
    (hb : K.met (base ++ b) (base' ++ b')) (path : Path) :
    Prog.Retimed K base base' (fun L => SameSuccess (Completed.Same L base base')) (executeAction action b path)
      (executeAction action' b' path) := by
  rw [executeAction_eq, executeAction_eq]
  exact .operate (.enter b path) rfl hb fun _ => .fork hb fun i i' => h.actOn (K.made_insert _ _) path

/-! ## Chains -/

/-- Actions one after another, each on a fork of the branch before. -/
theorem retimed_executeActions {actions actions' : List Action} (h : List.Forall₂ Action.Retimed actions actions')
    (hb : K.made (base ++ b) (base' ++ b')) (path : Path) (step : Nat) :
    Prog.Retimed K base base' (fun L => SameSuccess fun x x' => L.made (base ++ x) (base' ++ x'))
      (executeActions actions b path step) (executeActions actions' b' path step) := by
  induction h generalizing K b b' step with
  | nil => exact .done (.ok hb)
  | cons h _ ih =>
    exact (h.execute (K.met_of_made _ _ hb) _).andThen (S := fun L x x' => L.made (base ++ x) (base' ++ x'))
      fun L c c' _ hc => ih hc.branch (step + 1)

/-- So are chains of actions that are the same but for the durations, on a branch on which nothing has been started. -/
theorem retimed_chain {actions actions' : List Action} (h : List.Forall₂ Action.Retimed actions actions')
    (hb : K.made (base ++ b) (base' ++ b')) :
    Prog.Retimed K base base' (fun L => SameSuccess fun x x' => L.made (base ++ x) (base' ++ x')) (chain actions b)
      (chain actions' b') := by
  refine (retimed_waitForPending hb).andThen (S := fun L x x' => L.made (base ++ x) (base' ++ x'))
    fun L _ _ hL _ => .operate (.path b) rfl (L.met_of_made _ _ (hL.made _ _ hb)) fun path => ?_
  refine (retimed_executeActions h (hL.made _ _ hb) path 1).bind fun M r r' _ hr => .done ?_
  cases hr with
  | ok h => exact .ok h
  | error _ => exact .error trivial

/-- To answer with the end of a chain. -/
theorem retimed_answerChain {actions actions' : List Action} (h : List.Forall₂ Action.Retimed actions actions') :
    (Script.answerChain actions).Retimed (Script.answerChain actions') := by
  intro K own own' hown
  rw [← List.append_nil own, ← List.append_nil own'] at hown
  exact (retimed_chain h hown).mapOk fun L further further' hfurther => .context hfurther

/-! ## Directives -/

/-- The same directives but for the durations. -/
structure Directives.Retimed (directives directives' : Directives) : Prop where
  setup : Option.Rel Action.Retimed directives.setup directives'.setup
  include? : Option.Rel Action.Retimed directives.include? directives'.include?
  arrayMap : Option.Rel Action.Retimed directives.arrayMap directives'.arrayMap

/-- Corresponding branches, and the same besides. -/
def SameBranch {α : Type} (K : Pairs) (base base' : Route) (x x' : Route × α) : Prop :=
  K.met (base ++ x.1) (base' ++ x'.1) ∧ x.2 = x'.2

theorem retimed_runSetup {setup setup' : Option Action} (h : Option.Rel Action.Retimed setup setup')
    (hb : K.met (base ++ b) (base' ++ b')) (path : Path) :
    Prog.Retimed K base base' (fun L => SameSuccess (SameBranch L base base')) (runSetup setup b path)
      (runSetup setup' b' path) := by
  cases h with
  | none => exact .done (.ok ⟨hb, rfl⟩)
  | some h =>
    exact (h.execute hb _).mapOk fun L c c' hc => ⟨L.met_of_made _ _ hc.branch, congrArg Option.isSome hc.value⟩

theorem retimed_mergeIncluded (setupWrote : Bool) (hb : K.met (base ++ b) (base' ++ b')) (path : Path)
    {c c' : Completed} (hc : c.Same K base base' c') :
    Prog.Retimed K base base' (fun L => SameSuccess (SameBranch L base base')) (mergeIncluded setupWrote b path c)
      (mergeIncluded setupWrote b' path c') := by
  unfold mergeIncluded
  rw [hc.value]
  split
  · next entries _ =>
    have hfork : Prog.Retimed K base base' (fun L x x' => L.made (base ++ x) (base' ++ x'))
        (fork b (.place path)) (fork b' (.place path)) :=
      retimed_fork hb _
    refine hfork.andThenLift fun L merged merged' _ hmade => ?_
    have hmerged : L.met (base ++ merged) (base' ++ merged') := L.met_of_made _ _ hmade
    have hset : Prog.Retimed L base base' (fun _ => Eq)
        (setAll merged (entries.filter fun e => !(e.1 == currentKey && setupWrote)))
        (setAll merged' (entries.filter fun e => !(e.1 == currentKey && setupWrote))) :=
      retimed_setAll hmerged _
    exact hset.andThenLift fun M _ _ hM _ => .done (.ok ⟨hM.met _ _ hmerged, rfl⟩)
  · exact retimed_log.andThenLift fun _ _ _ _ _ => .done (.error trivial)

theorem retimed_runInclude {action? action?' : Option Action} (h : Option.Rel Action.Retimed action? action?')
    (setupWrote : Bool) (hb : K.met (base ++ b) (base' ++ b')) (path : Path) :
    Prog.Retimed K base base' (fun L => SameSuccess (SameBranch L base base')) (runInclude action? setupWrote b path)
      (runInclude action?' setupWrote b' path) := by
  cases h with
  | none => exact .done (.ok ⟨hb, rfl⟩)
  | some h =>
    rw [runInclude_some, runInclude_some]
    exact (h.execute hb _).andThen fun L c c' hL hc => retimed_mergeIncluded setupWrote (hL.met _ _ hb) path hc

/-! ## Objects and collections -/

/-- An object whose fields are the same but for the durations. -/
theorem retimed_evalObject {directives directives' : Directives} (h : directives.Retimed directives')
    (keys : List String) {fields fields' : Route → List (Prog (Except ExecutionError Value))}
    {tenants tenants' : List (Tenant Value)} (hlodged : ∀ b, List.Forall₂ (Lodged b) tenants (fields b))
    (hlodged' : ∀ b, List.Forall₂ (Lodged b) tenants' (fields' b)) (hcalm : ∀ tenant ∈ tenants, tenant.program.Calm)
    (hcalm' : ∀ tenant ∈ tenants', tenant.program.Calm) (htenants : List.Forall₂ Tenant.Retimed tenants tenants')
    (hb : K.met (base ++ b) (base' ++ b')) (path : Path) :
    Prog.Retimed K base base' (fun _ => SameValue) (evalObject directives keys fields b path)
      (evalObject directives' keys fields' b' path) := by
  unfold evalObject
  refine (retimed_runSetup h.setup hb path).andThen (S := fun _ => Eq) fun L s s' _ hs => ?_
  obtain ⟨branch, wrote⟩ := s
  obtain ⟨branch', wrote'⟩ := s'
  obtain ⟨hbranch, rfl⟩ := hs
  refine (retimed_runInclude h.include? wrote hbranch path).andThen (S := fun _ => Eq) fun M c c' _ hc => ?_
  obtain ⟨merged, included⟩ := c
  obtain ⟨merged', included'⟩ := c'
  obtain ⟨hmerged, rfl⟩ := hc
  have hparallel : Prog.Retimed M base base' (fun _ => SameValue) (parallel (fields merged))
      (parallel (fields' merged')) :=
    retimed_parallel hmerged (hlodged merged) (hlodged' merged') hcalm hcalm' htenants
  exact hparallel.andThen (S := fun _ => Eq) fun _ _ _ _ hvalues => hvalues ▸ .done (.ok rfl)

section ArrayMap

variable {element element' : Route → Path → Prog (Except ExecutionError Value)}
  (hblind : ∀ route branch path, Alike route (SameResult (ExecutionError.Like route) Eq)
    (element (route ++ branch) path) (element branch path))
  (hblind' : ∀ route branch path, Alike route (SameResult (ExecutionError.Like route) Eq)
    (element' (route ++ branch) path) (element' branch path))
  (hcalm : ∀ branch path, (element branch path).Calm) (hcalm' : ∀ branch path, (element' branch path).Calm)
  (helement : ∀ K base base' b b' path, K.met (base ++ b) (base' ++ b') →
    Prog.Retimed K base base' (fun _ => SameValue) (element b path) (element' b' path))
include helement

theorem retimed_itemTenant (path : Path) (i : Nat) (item : Value) :
    (itemTenant element path i item).Retimed (itemTenant element' path i item) := by
  refine ⟨rfl, ?_⟩
  exact .operate (.set [] currentKey item) rfl Pairs.met_own fun _ => helement .own [] [] [] [] _ Pairs.met_own

include hblind hblind' hcalm hcalm'

theorem retimed_spreadItems (path : Path) {c c' : Completed} (hc : c.Same K base base' c') :
    Prog.Retimed K base base' (fun _ => SameValue) (spreadItems element path c) (spreadItems element' path c') := by
  unfold spreadItems
  rw [hc.value]
  split
  · next items _ =>
    have hitems : List.Forall₂ Tenant.Retimed (items.mapIdx (itemTenant element path))
        (items.mapIdx (itemTenant element' path)) := by
      rw [List.forall₂_iff_get]
      refine ⟨by simp, fun i hi hi' => ?_⟩
      simpa using retimed_itemTenant helement path i _
    refine retimed_parallel (K.met_of_made _ _ hc.branch) (lodged_mapIdx hblind c.branch path items)
      (lodged_mapIdx hblind' c'.branch path items) (fun tenant ht => ?_) (fun tenant ht => ?_) hitems
    · obtain ⟨i, hi, rfl⟩ := List.mem_mapIdx.1 ht
      exact calm_itemTenant hcalm path i _
    · obtain ⟨i, hi, rfl⟩ := List.mem_mapIdx.1 ht
      exact calm_itemTenant hcalm' path i _
  · exact retimed_log.andThenLift fun _ _ _ _ _ => .done (.error trivial)

end ArrayMap

/-! ## Templates -/

mutual

/-- **The same templates but for the durations of the sleeps of their actions.** -/
def Template.Retimed : Template → Template → Prop
  | .scalar v, .scalar v' => v = v'
  | .action action, .action action' => action.Retimed action'
  | .object directives fields, .object directives' fields' =>
    directives.Retimed directives' ∧ RetimedFields fields fields'
  | .list items, .list items' => RetimedItems items items'
  | _, _ => False

/-- The same for the fields of objects, which have the same keys. -/
def RetimedFields : List (String × Template) → List (String × Template) → Prop
  | [], [] => True
  | (key, t) :: rest, (key', t') :: rest' => key = key' ∧ t.Retimed t' ∧ RetimedFields rest rest'
  | _, _ => False

/-- The same for the elements of lists. -/
def RetimedItems : List Template → List Template → Prop
  | [], [] => True
  | t :: rest, t' :: rest' => t.Retimed t' ∧ RetimedItems rest rest'
  | _, _ => False

end

theorem RetimedFields.keys {fields fields' : List (String × Template)} (h : RetimedFields fields fields') :
    (fields.map fun e => outputKey e.1) = fields'.map fun e => outputKey e.1 := by
  induction fields generalizing fields' with
  | nil =>
    cases fields' with
    | nil => rfl
    | cons e rest => exact h.elim
  | cons e rest ih =>
    cases fields' with
    | nil => exact h.elim
    | cons e' rest' =>
      obtain ⟨hkey, -, hrest⟩ := h
      rw [List.map_cons, List.map_cons, ih hrest, hkey]

/-- The programs of two templates are the same but for the durations: on a branch, on a fork of its own, and as an
element of a list. -/
structure Template.Keeps (t t' : Template) : Prop where
  eval : ∀ K base base' b b' path, K.met (base ++ b) (base' ++ b') →
    Prog.Retimed K base base' (fun _ => SameValue) (evalTemplate t b path) (evalTemplate t' b' path)
  tenant : ∀ path, (t.tenant path).Retimed (t'.tenant path)
  element : ∀ path, (t.elementTenant path).Retimed (t'.elementTenant path)

theorem Tenant.Retimed.map {α β : Type} {tenant tenant' : Tenant α} (h : tenant.Retimed tenant') (f : α → β) :
    (tenant.map f).Retimed (tenant'.map f) :=
  ⟨h.options, h.program.mapOk (R := fun _ => Eq) (S := fun _ => Eq) fun _ _ _ hv => congrArg f hv⟩

theorem keeps_scalar (v : Value) : (Template.scalar v).Keeps (.scalar v) := by
  have htenant (path : Path) : ((Template.scalar v).tenant path).Retimed ((Template.scalar v).tenant path) :=
    ⟨rfl, .done (.ok rfl)⟩
  exact ⟨fun _ _ _ _ _ _ _ => .done (.ok rfl), htenant, fun path => (htenant path).map ([·])⟩

theorem keeps_action {action action' : Action} (h : action.Retimed action') :
    (Template.action action).Keeps (.action action') := by
  have htenant (path : Path) : ((Template.action action).tenant path).Retimed ((Template.action action').tenant path) :=
    ⟨rfl, (h.actOn Pairs.made_own path).mapOk fun _ _ _ => Completed.Same.leafValue_eq⟩
  exact ⟨fun K base base' b b' path hb => (h.execute hb path).mapOk fun _ _ _ => Completed.Same.leafValue_eq, htenant,
    fun path => (htenant path).map ([·])⟩

theorem keeps_list {items items' : List Template} (hblind : blindItems items) (hblind' : blindItems items')
    (hcalm : everyItem Prog.Calm items) (hcalm' : everyItem Prog.Calm items')
    (hitems : ∀ path i, List.Forall₂ Tenant.Retimed (elementTenants items path i) (elementTenants items' path i)) :
    (Template.list items).Keeps (.list items') := by
  have heval (K : Pairs) (base base' b b' : Route) (path : Path) (hb : K.met (base ++ b) (base' ++ b')) :
      Prog.Retimed K base base' (fun _ => SameValue) (evalTemplate (.list items) b path)
        (evalTemplate (.list items') b' path) := by
    have hparallel : Prog.Retimed K base base' (fun _ => SameValue) (parallel (evalItems items b path 0))
        (parallel (evalItems items' b' path 0)) :=
      retimed_parallel hb (lodged_evalItems hblind b path 0) (lodged_evalItems hblind' b' path 0)
        (calm_elementTenants hcalm path 0) (calm_elementTenants hcalm' path 0) (hitems path 0)
    exact hparallel.mapOk (R := fun _ => Eq) (S := fun _ => Eq) fun _ _ _ hvalues =>
      congrArg (fun values => Value.list (flattenItems values)) hvalues
  have htenant (path : Path) : ((Template.list items).tenant path).Retimed ((Template.list items').tenant path) :=
    ⟨rfl, heval .own [] [] [] [] path Pairs.met_own⟩
  exact ⟨heval, htenant, fun path => (htenant path).map ([·])⟩

/-- An object whose fields are the same but for the durations. -/
theorem retimed_object {directives directives' : Directives} {fields fields' : List (String × Template)}
    (h : directives.Retimed directives') (hkeys : RetimedFields fields fields') (hblind : blindFields fields)
    (hblind' : blindFields fields') (hcalm : everyField Prog.Calm fields) (hcalm' : everyField Prog.Calm fields')
    (hfields : ∀ path, List.Forall₂ Tenant.Retimed (fieldTenants fields path) (fieldTenants fields' path))
    (K : Pairs) (base base' b b' : Route) (path : Path) (hb : K.met (base ++ b) (base' ++ b')) :
    Prog.Retimed K base base' (fun _ => SameValue) (evalTemplate (.object directives fields) b path)
      (evalTemplate (.object directives' fields') b' path) := by
  rw [evalTemplate, evalTemplate, ← hkeys.keys]
  exact retimed_evalObject h _ (fun b => lodged_evalFields hblind b path) (fun b => lodged_evalFields hblind' b path)
    (calm_fieldTenants hcalm path) (calm_fieldTenants hcalm' path) (hfields path) hb path

theorem retimed_element {setup setup' include? include?' arrayMap arrayMap' : Option Action}
    (h : Directives.Retimed ⟨setup, include?, arrayMap⟩ ⟨setup', include?', arrayMap'⟩) :
    Directives.Retimed ⟨setup, include?, none⟩ ⟨setup', include?', none⟩ := ⟨h.setup, h.include?, .none⟩

theorem keeps_object {directives directives' : Directives} {fields fields' : List (String × Template)}
    (h : directives.Retimed directives') (hkeys : RetimedFields fields fields')
    (hblind : (Template.object directives fields).Blind) (hblind' : (Template.object directives' fields').Blind)
    (hcalm : (Template.object directives fields).Calm) (hcalm' : (Template.object directives' fields').Calm)
    (hfields : ∀ path, List.Forall₂ Tenant.Retimed (fieldTenants fields path) (fieldTenants fields' path)) :
    (Template.object directives fields).Keeps (.object directives' fields') := by
  have heval := retimed_object h hkeys hblind.2 hblind'.2 hcalm.2 hcalm'.2 hfields
  have htenant (path : Path) : ((Template.object directives fields).tenant path).Retimed
      ((Template.object directives' fields').tenant path) := ⟨rfl, heval .own [] [] [] [] path Pairs.met_own⟩
  refine ⟨heval, htenant, fun path => ?_⟩
  obtain ⟨setup, include?, arrayMap⟩ := directives
  obtain ⟨setup', include?', arrayMap'⟩ := directives'
  have hmap : Option.Rel Action.Retimed arrayMap arrayMap' := h.arrayMap
  cases hmap with
  | none => exact (htenant path).map ([·])
  | @some action action' haction =>
    have helement := retimed_object (retimed_element h) hkeys hblind.2 hblind'.2 hcalm.2 hcalm'.2 hfields
    refine ⟨rfl, (haction.actOn Pairs.made_own _).andThen (S := fun _ => Eq) fun L c c' _ hc => ?_⟩
    exact retimed_spreadItems (alike_element hblind) (alike_element hblind') (calm_evalTemplate _ hcalm.element)
      (calm_evalTemplate _ hcalm'.element) helement path hc

mutual

/-- **The evaluation of templates is the same but for the durations.** -/
theorem keeps_template : (t t' : Template) → t.Retimed t' → t.Blind → t'.Blind → t.Calm → t'.Calm → t.Keeps t'
  | .scalar v, .scalar _, h, _, _, _, _ => (h : v = _) ▸ keeps_scalar v
  | .action _, .action _, h, _, _, _, _ => keeps_action h
  | .object _ fields, .object _ fields', h, hblind, hblind', hcalm, hcalm' =>
    keeps_object h.1 h.2 hblind hblind' hcalm hcalm' fun path =>
      retimed_fieldTenants fields fields' h.2 hblind.2 hblind'.2 hcalm.2 hcalm'.2 path
  | .list items, .list items', h, hblind, hblind', hcalm, hcalm' =>
    keeps_list hblind hblind' hcalm hcalm' fun path i =>
      retimed_elementTenants items items' h hblind hblind' hcalm hcalm' path i

theorem retimed_fieldTenants : (fields fields' : List (String × Template)) → RetimedFields fields fields' →
    blindFields fields → blindFields fields' → everyField Prog.Calm fields → everyField Prog.Calm fields' →
    (path : Path) → List.Forall₂ Tenant.Retimed (fieldTenants fields path) (fieldTenants fields' path)
  | [], [], _, _, _, _, _, _ => .nil
  | (_, t) :: rest, (_, t') :: rest', h, hblind, hblind', hcalm, hcalm', path => by
    obtain ⟨rfl, ht, hrest⟩ := h
    exact .cons ((keeps_template t t' ht hblind.1 hblind'.1 hcalm.1 hcalm'.1).tenant _)
      (retimed_fieldTenants rest rest' hrest hblind.2 hblind'.2 hcalm.2 hcalm'.2 path)

theorem retimed_elementTenants : (items items' : List Template) → RetimedItems items items' → blindItems items →
    blindItems items' → everyItem Prog.Calm items → everyItem Prog.Calm items' → (path : Path) → (i : Nat) →
    List.Forall₂ Tenant.Retimed (elementTenants items path i) (elementTenants items' path i)
  | [], [], _, _, _, _, _, _, _ => .nil
  | t :: rest, t' :: rest', h, hblind, hblind', hcalm, hcalm', path, i =>
    .cons ((keeps_template t t' h.1 hblind.1 hblind'.1 hcalm.1 hcalm'.1).element _)
      (retimed_elementTenants rest rest' h.2 hblind.2 hblind'.2 hcalm.2 hcalm'.2 path (i + 1))

end

/-! ## Directives out of place -/

theorem isSome_eq_of_rel {α : Type*} {R : α → α → Prop} {a a' : Option α} (h : Option.Rel R a a') :
    a.isSome = a'.isSome := by
  cases h with
  | none => rfl
  | some _ => rfl

mutual

/-- A directive is out of place in both templates or in none. -/
theorem misplaced?_of_retimed : (t t' : Template) → t.Retimed t' → (path : Path) →
    t.misplaced? path = t'.misplaced? path
  | .scalar _, .scalar _, _, _ => rfl
  | .action _, .action _, _, _ => rfl
  | .object directives fields, .object directives' fields', h, path => by
    rw [Template.misplaced?, Template.misplaced?, isSome_eq_of_rel h.1.arrayMap,
      misplacedField?_of_retimed fields fields' h.2 path]
  | .list items, .list items', h, path => misplacedItem?_of_retimed items items' h path 0

theorem misplacedField?_of_retimed : (fields fields' : List (String × Template)) → RetimedFields fields fields' →
    (path : Path) → misplacedField? path fields = misplacedField? path fields'
  | [], [], _, _ => rfl
  | (_, t) :: rest, (_, t') :: rest', h, path => by
    obtain ⟨rfl, ht, hrest⟩ := h
    rw [misplacedField?, misplacedField?, misplaced?_of_retimed t t' ht, misplacedField?_of_retimed rest rest' hrest]

theorem misplacedItem?_of_retimed : (items items' : List Template) → RetimedItems items items' → (path : Path) →
    (i : Nat) → misplacedItem? path i items = misplacedItem? path i items'
  | [], [], _, _, _ => rfl
  | .scalar _ :: rest, .scalar _ :: rest', h, path, i =>
    congrArg (Option.none.or ·) (misplacedItem?_of_retimed rest rest' h.2 path (i + 1))
  | .action _ :: rest, .action _ :: rest', h, path, i =>
    congrArg (Option.none.or ·) (misplacedItem?_of_retimed rest rest' h.2 path (i + 1))
  | .object _ fields :: rest, .object _ fields' :: rest', h, path, i =>
    congrArg₂ Option.or (misplacedField?_of_retimed fields fields' h.1.2 _)
      (misplacedItem?_of_retimed rest rest' h.2 path (i + 1))
  | .list items :: rest, .list items' :: rest', h, path, i =>
    congrArg₂ Option.or (misplacedItem?_of_retimed items items' h.1 _ 0)
      (misplacedItem?_of_retimed rest rest' h.2 path (i + 1))

end

/-! ## The evaluation -/

theorem calm_evaluate {t : Template} (h : t.Calm) (b : Route) : (t.evaluate b).Calm := by
  refine Calm.operate fun path => ?_
  cases t.misplaced? path with
  | some place => exact Calm.operate fun _ => trivial
  | none => exact calm_evalTemplate t h b path

/-- **So is the evaluation of templates whose actions do not depend on the log and store no value that is still being
computed.** -/
theorem Template.Retimed.evaluate {t t' : Template} (h : t.Retimed t') (hblind : t.Blind) (hblind' : t'.Blind)
    (hcalm : t.Calm) (hcalm' : t'.Calm) (hb : K.met (base ++ b) (base' ++ b')) :
    Prog.Retimed K base base' (fun _ => SameValue) (t.evaluate b) (t'.evaluate b') := by
  refine .operate (.path b) rfl hb fun path => ?_
  rw [misplaced?_of_retimed t t' h path]
  cases t'.misplaced? path with
  | some place => exact retimed_log.bind fun _ _ _ _ _ => .done (.error trivial)
  | none => exact (keeps_template t t' h hblind hblind' hcalm hcalm').eval K base base' b b' path hb

namespace Machine

variable {inputs inputs' : Inputs} {past past' : List Event} {m m' : Machine} {n n' : Node} {t t' : Template}

/-- An evaluation succeeds with the value that its course has, if no directive is out of place. -/
theorem value_of_evaluate (hs : Steady inputs past m) (hm : m.Resting) (hb : (m.node? b).isSome = true)
    (hpending : (m.store b).pending = []) (hblind : t.Blind) (hcalm : t.Calm) (hlocal : t.Every Action.Local)
    {r : Except ExecutionError Value} (hrun : (m.run (t.evaluate b)).1 = some r) (v : Value) :
    r = .ok v ↔ t.misplaced? (m.path b) = none ∧
      (courseTemplate t (m.path b) (m.setting b) m.clock).value? = some v := by
  cases hplaced : t.misplaced? (m.path b) with
  | some place =>
    obtain ⟨e, hfailed⟩ := run_misplaced hplaced
    rw [hfailed] at hrun
    cases hrun
    simp
  | none =>
    have hstands : m.Stands (m.tree.sessionRoute b) b (m.setting b) m.clock :=
      ⟨vacant_of_steady hs hm, hb, rfl, hpending, rfl, rfl⟩
    obtain ⟨r', m₁, hrun', hmatch, -⟩ := (follows_evalTemplate t hblind hcalm hlocal (m.path b) hstands
      (fun _ ha => ha) hstands.session_there).ends
    rw [run_evaluate hplaced, hrun'] at hrun
    cases hrun
    generalize (courseTemplate t (m.path b) (m.setting b) m.clock).value? = value at hmatch
    cases hmatch with
    | ok hv => simp [hv]
    | error => simp

/-- **Durations do not change results.** Two templates that are the same but for the durations of the sleeps of their
actions are evaluated on branches that hold the same, with no value that is still being computed, of queries that are
the same but for the durations of the sleeps of their hooks. Their actions do not depend on the log, store no values
that are still being computed, and use no branches but their own and those made from them; what they see of other
evaluations that they start is their value, or that they fail, but not which of several failures there came first. Then
both evaluations come to the same value, or both fail. The value is that of the course: the fields of an object are in
the order of the template, and the elements of a list in the order of the list, whichever has come to its end first. -/
theorem evaluate_retimed (hs : Steady inputs past m) (hs' : Steady inputs' past' m') (hm : m.Resting) (hm' : m'.Resting)
    (hn : m.node? b = some n) (hn' : m'.node? b' = some n') (hsame : n.Same n') (hpending : n.store.pending = [])
    (hinputs : (m.inputsAt b).Retimed (m'.inputsAt b')) (ht : t.Retimed t') (hblind : t.Blind) (hblind' : t'.Blind)
    (hcalm : t.Calm) (hcalm' : t'.Calm) (hlocal : t.Every Action.Local) :
    ∃ r r', (m.run (t.evaluate b)).1 = some r ∧ (m'.run (t'.evaluate b')).1 = some r' ∧ SameValue r r' ∧
      ∀ v, r = .ok v ↔ t.misplaced? (m.path b) = none ∧
        (courseTemplate t (m.path b) (m.setting b) m.clock).value? = some v := by
  have hagree : Agrees (.found b b') m m' :=
    agrees_found (vacant_of_steady hs hm) (vacant_of_steady hs' hm') hn hn' hsame hpending hinputs
  have hretimed : Prog.Retimed (.found b b') [] [] (fun _ => SameValue) (t.evaluate b) (t'.evaluate b') :=
    ht.evaluate hblind hblind' hcalm hcalm' ⟨rfl, rfl⟩
  obtain ⟨L, r, r', m₁, m₁', -, hrun, hrun', hr, -⟩ :=
    run_retimed hretimed rfl rfl (calm_evaluate hcalm b) (calm_evaluate hcalm' b') hagree
  have hrun₁ : (m.run (t.evaluate b)).1 = some r := congrArg Prod.fst hrun
  exact ⟨r, r', hrun₁, congrArg Prod.fst hrun', hr,
    value_of_evaluate hs hm (hn ▸ rfl) (store_of_node? hn ▸ hpending) hblind hcalm hlocal hrun₁⟩

end Machine

/-! ## Two siblings that take their time -/

/-- Answers a value after some time. -/
def answeringAfter (ms : Nat) (v : Value) : Action := do
  Prog.pause ms
  return .ok (.value v)

/-- Answers what the hooks of a name make of null. -/
def askingHooks (name : String) : Action := do
  return (← Prog.runHook [] name .null).map .value

theorem blind_askingHooks (name : String) : (askingHooks name).Blind := by
  refine (alike_runHook name .null [] []).bind fun r r' hr => ?_
  subst hr
  refine .done ?_
  cases r with
  | ok v => exact .ok rfl
  | error e => exact .error (EvalError.like_refl e)

theorem local_askingHooks (name : String) : (askingHooks name).Local := by
  intro T own hown
  rw [← List.append_nil own] at hown
  refine (uses_runHook name .null hown).bind fun r _ => .done fun output heq further hfurther => ?_
  subst hfurther
  cases r with
  | ok v => cases heq
  | error e => cases heq

theorem retimed_askingHooks (name : String) : (askingHooks name).Retimed (askingHooks name) := by
  intro K own own' hown
  rw [← List.append_nil own, ← List.append_nil own'] at hown
  refine (retimed_runHook (K.met_of_made _ _ hown) name .null).bind fun L r r' _ hr => .done ?_
  subst hr
  cases r with
  | ok v => exact .ok (.value v)
  | error e => exact .error trivial

/-- A query with a hook that answers after some time. -/
def Inputs.greeting (ms : Nat) : Inputs :=
  { Inputs.blank with hooks := Hooks.empty.register "greet" fun _ => .sleep ms (.answer (.string "hello")) }

theorem retimed_greeting (ms ms' : Nat) : (Inputs.greeting ms).Retimed (Inputs.greeting ms') :=
  ⟨.cons ⟨rfl, .cons (fun _ => .sleep ms ms' (.answer _)) .nil⟩ .nil, rfl⟩

/-- A list of an action that takes its time and one that asks hooks. -/
def takingTurns (ms : Nat) : Template :=
  .list [.action (answeringAfter ms (.string "first")), .action (askingHooks "greet")]

theorem retimed_takingTurns (ms ms' : Nat) : (takingTurns ms).Retimed (takingTurns ms') :=
  ⟨fun _ _ _ _ => .sleep ms ms' (.done (.ok (.value _))), retimed_askingHooks _, trivial⟩

theorem blind_takingTurns (ms : Nat) : (takingTurns ms).Blind :=
  ⟨.sleep ms (.done (.ok rfl)), blind_askingHooks _, trivial⟩

theorem calm_takingTurns (ms : Nat) : (takingTurns ms).Calm :=
  ⟨trivial, (calm_runHook "greet" .null []).bind fun _ => trivial, trivial⟩

theorem local_takingTurns (ms : Nat) : (takingTurns ms).Every Action.Local := by
  refine ⟨fun T own _ => .sleep (.done fun output heq further hfurther => ?_), local_askingHooks _, trivial⟩
  subst hfurther
  cases heq

/-- The list is the same where the hooks are done before the first action as where nothing takes any time. -/
theorem evaluate_retimed_siblings :
    ((Machine.start (.greeting 1)).run ((takingTurns 2).evaluate [])).1 =
        some (.ok (.list [.string "first", .string "hello"])) ∧
      ((Machine.start (.greeting 0)).run ((takingTurns 0).evaluate [])).1 =
        some (.ok (.list [.string "first", .string "hello"])) := by
  have hinstant : ((Machine.start (.greeting 0)).run ((takingTurns 0).evaluate [])).1 =
      some (.ok (.list [.string "first", .string "hello"])) :=
    congrArg Prod.fst (Machine.drive_of_result rfl _)
  have hroot (ms : Nat) :
      (Machine.start (.greeting ms)).node? [] = some ⟨some ⟨.greeting ms, []⟩, .empty, .root, [], 0⟩ := rfl
  obtain ⟨r, r', hrun, hrun', hsame, -⟩ := Machine.evaluate_retimed (Machine.steady_start (.greeting 1))
    (Machine.steady_start (.greeting 0)) (Machine.resting_start _) (Machine.resting_start _) (hroot 1) (hroot 0)
    ⟨rfl, rfl, rfl⟩ rfl (retimed_greeting 1 0) (retimed_takingTurns 2 0) (blind_takingTurns 2) (blind_takingTurns 0)
    (calm_takingTurns 2) (calm_takingTurns 0) (local_takingTurns 2)
  cases hrun'.symm.trans hinstant
  cases hsame with
  | ok hv => exact ⟨hv ▸ hrun, hinstant⟩

end MediaQuery
