import MediaQuery.Proofs.Template.Course

/-!
# Evaluations go as their courses say

On any branch whose values have all come to an end, the evaluation of a template goes as its course says
(`follows_evalTemplate`), and so do the directives of an object and the tenants of fields, elements and items on
machines of their own.
-/

namespace MediaQuery

open Machine

variable {m m₀ : Machine} {s b : Route} {g : Setting} {t : Nat} {α β : Type}

/-- Whatever branch a program is run on, it goes as told by what the branch offers. -/
def Follows (k : Route → Prog (Except ExecutionError α)) (c : Setting → Nat → Course α) : Prop :=
  ∀ ⦃m m₀ : Machine⦄ ⦃s b : Route⦄ ⦃g : Setting⦄ ⦃t : Nat⦄, m.Stands s b g t → m₀.Grows m →
    (m₀.node? s).isSome = true → Goes s m₀ (k b) m (fun v _ v' => v = v') (c g t)

/-! ## Directives -/

theorem goes_runSetup {setup : Option Action} (hblind : ∀ action ∈ setup, action.Blind)
    (hcalm : ∀ action ∈ setup, action.Calm) (hlocal : ∀ action ∈ setup, action.Local) (path : Path)
    (h : m.Stands s b g t) (hgrows : m₀.Grows m) :
    Goes s m₀ (runSetup setup b path) m (fun x m' a => x.2 = a.value ∧ Leaves s m₀ x.1 m' a)
      (courseSetup setup path g t) := by
  cases setup with
  | none => exact goes_done ⟨rfl, hgrows, s, h, rfl⟩
  | some action =>
    have hexecute := goes_executeAction (hblind action rfl) (hcalm action rfl) (hlocal action rfl)
      (path.directive "setup") h hgrows
    exact hexecute.map (calm_executeAction (hcalm action rfl) b _) h.vacant.rest _ _
      fun c m' a ⟨⟨hc, _⟩, hleaves⟩ => ⟨congrArg Option.isSome hc.1, hleaves.grows, hleaves.stands⟩

theorem goes_mergeIncluded (setupWrote : Bool) (path : Path) (h : m.Stands s b g t) (hgrows : m₀.Grows m)
    {c c' : Completed} (hc : c.value = c'.value) :
    Goes s m₀ (mergeIncluded setupWrote b path c) m (fun x m' a => x.2 = a.value ∧ Leaves s m₀ x.1 m' a)
      (courseMerge setupWrote path c' g t) := by
  unfold mergeIncluded courseMerge
  obtain rfl := h.clock
  rw [hc]
  cases c'.value with
  | none => exact goes_throw _ _ _
  | some v =>
    cases v with
    | map entries =>
      exact goes_fork h hgrows path fun i m₁ h₁ hgrows₁ => goes_setAll h₁ hgrows₁ _ fun m₂ h₂ hgrows₂ =>
        goes_done ⟨rfl, hgrows₂, s, h₂, rfl⟩
    | _ => exact goes_throw _ _ _

theorem goes_runInclude {action? : Option Action} (hblind : ∀ action ∈ action?, action.Blind)
    (hcalm : ∀ action ∈ action?, action.Calm) (hlocal : ∀ action ∈ action?, action.Local) (setupWrote : Bool)
    (path : Path) (h : m.Stands s b g t) (hgrows : m₀.Grows m) :
    Goes s m₀ (runInclude action? setupWrote b path) m (fun x m' a => x.2 = a.value ∧ Leaves s m₀ x.1 m' a)
      (courseInclude action? setupWrote path g t) := by
  cases action? with
  | none => exact goes_done ⟨rfl, hgrows, s, h, rfl⟩
  | some action =>
    rw [runInclude_some]
    exact (goes_executeAction (hblind action rfl) (hcalm action rfl) (hlocal action rfl) _ h hgrows).andThen
      (calm_executeAction (hcalm action rfl) b _) (fun c => calm_mergeIncluded setupWrote b path c) h.vacant.rest
      fun c m' a _ ⟨⟨hc, hstands⟩, hleaves⟩ => goes_mergeIncluded setupWrote path hstands hleaves.grows hc.1

/-! ## Objects -/

/-- An object goes as told if its fields do. -/
theorem follows_evalObject {directives : Directives} (hblind : directives.Blind) (hcalm : directives.Every Prog.Calm)
    (hlocal : directives.Every Action.Local) (keys : List String)
    {fields : Route → List (Prog (Except ExecutionError Value))} {tenants : List (Tenant Value)}
    {courses : Setting → Nat → List (Course Value)} (hlodged : ∀ b, List.Forall₂ (Lodged b) tenants (fields b))
    (hparts : ∀ b, ∀ p ∈ fields b, p.Calm) (hhomes : ∀ tenant ∈ tenants, tenant.program.Calm)
    (hcourses : ∀ g t, g.store.pending = [] → List.Forall₂ (Tenant.Goes g t) tenants (courses g t)) (path : Path) :
    Follows (fun b => evalObject directives keys fields b path) (courseObject directives keys courses path) := by
  intro m m₀ s b g t h hgrows hs
  have hparallel (included : List (String × Value)) (b : Route) : (evalParts included keys (fields b)).Calm :=
    (Prog.calm_parallel (hparts b)).andThen fun _ => trivial
  refine Goes.goOn (fun x d => x.2 = d) Prod.fst
    (goes_runSetup hblind.setup hcalm.setup hlocal.setup path h hgrows) (calm_runSetup hcalm.setup b path)
    (fun x => (calm_runInclude hcalm.include? x.2 x.1 path).andThen fun y => hparallel y.2 y.1) h.vacant.rest hs ?_
  rintro ⟨own, wrote⟩ _ m₁ m₂ s₁ g₁ t₁ rfl h₁ hgrows₁ hs₁
  refine Goes.goOn (fun x d => x.2 = d) Prod.fst
    (goes_runInclude hblind.include? hcalm.include? hlocal.include? wrote path h₁ hgrows₁)
    (calm_runInclude hcalm.include? wrote own path) (fun y => hparallel y.2 y.1) h₁.vacant.rest hs₁ ?_
  rintro ⟨merged, included⟩ _ m₃ m₄ s₃ g₃ t₃ rfl h₃ hgrows₃ -
  have hfields := goes_parallel h₃ hgrows₃ (hlodged merged) (hparts merged) hhomes (hcourses g₃ t₃ h₃.pending)
  exact hfields.thenValue (Prog.calm_parallel (hparts merged)) h₃.vacant.rest _ _ fun values _ _ hvalues =>
    congrArg (fun values => Value.map (assemble included (keys.zip values))) hvalues

/-! ## Collections -/

section ArrayMap

variable {element : Route → Path → Prog (Except ExecutionError Value)} {course : Path → Setting → Nat → Course Value}
  (hblind : ∀ route branch path, Prog.Alike route (SameResult (ExecutionError.Like route) Eq)
    (element (route ++ branch) path) (element branch path))
  (hcalm : ∀ branch path, (element branch path).Calm)
  (hcourse : ∀ path, Follows (fun b => element b path) (course path))
include hcourse

/-- An item goes as the object does where the item is the current value. -/
theorem goes_itemTenant (hpending : g.store.pending = []) (path : Path) (t : Nat) (i : Nat) (item : Value) :
    Tenant.Goes g t (itemTenant element path i item)
      (course (path.child (.index i)) (g.write currentKey item) t) := by
  have hstands := stands_alone hpending (path.child (.index i)) t
  exact tenant_goes (goes_set hstands (fun _ ha => ha) currentKey item fun m' h' hgrows' =>
    hcourse (path.child (.index i)) h' hgrows' rfl) []

include hblind hcalm

/-- The items of a collection go side by side. -/
theorem goes_spreadItems (path : Path) (h : m.Stands s b g t) (hgrows : m₀.Grows m) {c c' : Completed}
    (hb : c.branch = b) (hc : c.value = c'.value) :
    Goes s m₀ (spreadItems element path c) m (fun v _ v' => v = v') (courseSpread course path c' g t) := by
  unfold spreadItems courseSpread
  rw [hb, hc]
  cases sourceItems? c'.value with
  | some items =>
    refine goes_parallel h hgrows (lodged_mapIdx hblind b path items) (fun p hp => ?_) (fun tenant ht => ?_) ?_
    · obtain ⟨i, hi, rfl⟩ := List.mem_mapIdx.1 hp
      exact calm_evalItem hcalm b path i _
    · obtain ⟨i, hi, rfl⟩ := List.mem_mapIdx.1 ht
      exact calm_itemTenant hcalm path i _
    · rw [List.forall₂_iff_get]
      refine ⟨by simp, fun i hi hi' => ?_⟩
      simpa using goes_itemTenant hcourse h.pending path t i _
  | none =>
    rw [← h.clock]
    exact goes_throw _ _ _

/-- An element with `arrayMap` goes as told on its fork. -/
theorem goes_arrayMapTenant {action : Action} (hcalm' : action.Calm) (hlocal : action.Local)
    (hpending : g.store.pending = []) (path : Path) (t : Nat) :
    Tenant.Goes g t
      ⟨some (.place (path.directive "array_map")), [path.directive "array_map"],
        (actOn action [] (path.directive "array_map")).bind (ExceptT.bindCont (spreadItems element path))⟩
      (courseArrayMap action course path g t) := by
  have halone := goes_alone (t := t) hcalm' hlocal (path.directive "array_map") hpending
  have hgoes := Goes.goOn (fun x d => d = x) Completed.branch halone (calm_actOn hcalm' [] _)
    (fun completed => calm_spreadItems hcalm path completed) (stands_alone hpending _ t).vacant.rest rfl
    fun x d m' m₁ s' g' t' hd h' hgrows' _ =>
      goes_spreadItems hblind hcalm hcourse path h' hgrows' rfl (congrArg Completed.value hd.symm)
  have hentering : courseArrayMap action course path g t =
      ((courseAlone action (path.directive "array_map") g t).goOn (courseSpread course path)).entering t
        [path.directive "array_map"] := Course.andThen_entering ..
  rw [hentering]
  exact tenant_goes hgoes _

end ArrayMap

/-! ## The evaluator -/

/-- A template goes as told where it stands if it does so on its own branch. -/
theorem goes_tenant {template : Template} (hcalm : template.Calm) (hlocal : template.Every Action.Local) {path : Path}
    (h : Follows (fun b => evalTemplate template b path) (courseTemplate template path))
    (hpending : g.store.pending = []) (t : Nat) :
    Tenant.Goes g t (template.tenant path) (courseTemplate template path g t) := by
  have hown := tenant_goes (h (stands_alone hpending path t) (fun _ ha => ha) rfl) []
  cases template with
  | scalar v =>
    have hsilent : upToFailure (chronology []) = [] := congrArg upToFailure Story.chronology_nil
    exact ⟨fun n _ => (story_done [] v _).trans hsilent.symm, nofun,
      fun n _ => ⟨.ok v, congrArg Prod.fst (run_done _ _), rfl⟩⟩
  | action action =>
    have halone := goes_alone (t := t) hcalm hlocal path hpending
    have hleaf := halone.map (S := fun v _ v' => v = v') (calm_actOn hcalm [] path)
      (stands_alone hpending path t).vacant.rest leafValue (fun a => leafValue a.value)
      fun c _ a ⟨hc, _⟩ => congrArg leafValue hc.symm
    exact tenant_goes hleaf [path]
  | object directives fields => exact hown
  | list items => exact hown

/-- So does an element of a list that is no collection of its own. -/
theorem goes_singleTenant {template : Template} (hcalm : template.Calm) (hlocal : template.Every Action.Local)
    {path : Path} (h : Follows (fun b => evalTemplate template b path) (courseTemplate template path))
    (hpending : g.store.pending = []) (t : Nat) :
    Tenant.Goes g t ((template.tenant path).map ([·])) ((courseTemplate template path g t).map ([·])) :=
  (goes_tenant hcalm hlocal h hpending t).map (calm_tenant hcalm path) _

mutual

/-- **The evaluation of a template goes as its course says.** -/
theorem follows_evalTemplate : (template : Template) → template.Blind → template.Calm → template.Every Action.Local →
    (path : Path) → Follows (fun b => evalTemplate template b path) (courseTemplate template path)
  | .scalar _, _, _, _, _, _, _, _, _, _, _, _, _, _ => goes_done rfl
  | .action _, hblind, hcalm, hlocal, path, _, _, _, b, _, _, h, hgrows, _ =>
    (goes_executeAction hblind hcalm hlocal path h hgrows).map (calm_executeAction hcalm b path) h.vacant.rest _ _
      fun c _ a ⟨⟨hc, _⟩, _⟩ => by unfold leafValue; rw [hc.1, hc.2]
  | .object _ fields, hblind, hcalm, hlocal, path, _, _, _, _, _, _, h, hgrows, hs =>
    follows_evalObject hblind.1 hcalm.1 hlocal.1 _ (fun b => lodged_evalFields hblind.2 b path)
      (fun b => calm_evalFields fields hcalm.2 b path) (calm_fieldTenants hcalm.2 path)
      (fun _ t hpending => goes_fieldTenants fields hblind.2 hcalm.2 hlocal.2 path hpending t) path h hgrows hs
  | .list items, hblind, hcalm, hlocal, path, _, _, _, b, _, t, h, hgrows, _ =>
    (goes_parallel h hgrows (lodged_evalItems hblind b path 0) (calm_evalItems items hcalm b path 0)
      (calm_elementTenants hcalm path 0) (goes_elementTenants items hblind hcalm hlocal path 0 h.pending t)).map
      (Prog.calm_parallel (calm_evalItems items hcalm b path 0)) h.vacant.rest _ _
      fun _ _ _ hvalues => congrArg (fun values => Value.list (flattenItems values)) hvalues

theorem goes_fieldTenants : (fields : List (String × Template)) → blindFields fields → everyField Prog.Calm fields →
    everyField Action.Local fields → (path : Path) → ∀ {g : Setting}, g.store.pending = [] → (t : Nat) →
    List.Forall₂ (Tenant.Goes g t) (fieldTenants fields path) (courseFields fields path g t)
  | [], _, _, _, _, _, _, _ => .nil
  | (_, template) :: rest, hblind, hcalm, hlocal, path, _, hpending, t =>
    .cons (goes_tenant hcalm.1 hlocal.1 (follows_evalTemplate template hblind.1 hcalm.1 hlocal.1 _) hpending t)
      (goes_fieldTenants rest hblind.2 hcalm.2 hlocal.2 path hpending t)

theorem goes_elementTenants : (items : List Template) → blindItems items → everyItem Prog.Calm items →
    everyItem Action.Local items → (path : Path) → (i : Nat) → ∀ {g : Setting}, g.store.pending = [] → (t : Nat) →
    List.Forall₂ (Tenant.Goes g t) (elementTenants items path i) (courseItems items path i g t)
  | [], _, _, _, _, _, _, _, _ => .nil
  | .object ⟨_, _, some _⟩ fields :: rest, hblind, hcalm, hlocal, path, i, _, hpending, t =>
    .cons
      (goes_arrayMapTenant (alike_element hblind.1) (calm_evalTemplate _ hcalm.1.element)
        (fun path => follows_evalObject hblind.1.element.1 hcalm.1.element.1 hlocal.1.element.1 _
          (fun b => lodged_evalFields hblind.1.2 b path) (fun b => calm_evalFields fields hcalm.1.2 b path)
          (calm_fieldTenants hcalm.1.2 path)
          (fun _ t hpending => goes_fieldTenants fields hblind.1.2 hcalm.1.2 hlocal.1.2 path hpending t) path)
        (hcalm.1.1.arrayMap _ rfl) (hlocal.1.1.arrayMap _ rfl) hpending _ t)
      (goes_elementTenants rest hblind.2 hcalm.2 hlocal.2 path (i + 1) hpending t)
  | .object ⟨setup, include?, none⟩ fields :: rest, hblind, hcalm, hlocal, path, i, _, hpending, t =>
    .cons (goes_singleTenant hcalm.1 hlocal.1
        (follows_evalTemplate (.object ⟨setup, include?, none⟩ fields) hblind.1 hcalm.1 hlocal.1 _) hpending t)
      (goes_elementTenants rest hblind.2 hcalm.2 hlocal.2 path (i + 1) hpending t)
  | .scalar v :: rest, hblind, hcalm, hlocal, path, i, _, hpending, t =>
    .cons (goes_singleTenant hcalm.1 hlocal.1
        (follows_evalTemplate (.scalar v) hblind.1 hcalm.1 hlocal.1 _) hpending t)
      (goes_elementTenants rest hblind.2 hcalm.2 hlocal.2 path (i + 1) hpending t)
  | .action action :: rest, hblind, hcalm, hlocal, path, i, _, hpending, t =>
    .cons (goes_singleTenant hcalm.1 hlocal.1
        (follows_evalTemplate (.action action) hblind.1 hcalm.1 hlocal.1 _) hpending t)
      (goes_elementTenants rest hblind.2 hcalm.2 hlocal.2 path (i + 1) hpending t)
  | .list items :: rest, hblind, hcalm, hlocal, path, i, _, hpending, t =>
    .cons (goes_singleTenant hcalm.1 hlocal.1
        (follows_evalTemplate (.list items) hblind.1 hcalm.1 hlocal.1 _) hpending t)
      (goes_elementTenants rest hblind.2 hcalm.2 hlocal.2 path (i + 1) hpending t)

end

/-! ## Directives out of place -/

namespace Machine

variable {template : Template} {place : Path}

theorem run_evaluate_eq (template : Template) (b : Route) (m : Machine) :
    m.run (template.evaluate b) = m.run
      (match template.misplaced? (m.path b) with
      | some place => (Prog.log b).bind fun log => .done (.error (EvalError.arrayMapOutsideList.wrap place log b))
      | none => evalTemplate template b (m.path b)) := rfl

theorem run_evaluate (hplaced : template.misplaced? (m.path b) = none) :
    m.run (template.evaluate b) = m.run (evalTemplate template b (m.path b)) := by
  rw [run_evaluate_eq, hplaced]

/-- A directive out of place is a failure. -/
theorem run_misplaced (hplaced : template.misplaced? (m.path b) = some place) :
    ∃ e, m.run (template.evaluate b) = (some (.error e), m) := by
  rw [run_evaluate_eq, hplaced]
  exact ⟨_, drive_of_result rfl m⟩

end Machine

end MediaQuery
