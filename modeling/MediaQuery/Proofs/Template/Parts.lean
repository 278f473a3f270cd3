import MediaQuery.Proofs.Machine.Parallel
import MediaQuery.Proofs.Template.Blind

/-!
# The parts of templates on forks of their own

Every part of a template is a value or runs on a fork of its own, where it does what its tenant does on a machine of its
own: the fields of an object (`lodged_evalFields`), the elements of a list (`lodged_evalItems`) and the items of the
collection of `arrayMap` (`lodged_mapIdx`).
-/

namespace MediaQuery

open Prog

variable {β γ : Type} {branch : Route} {options : ForkOptions} {paths : List Path}
  {p q : Prog (Except ExecutionError β)}

/-! ## Programs on forks -/

/-- Failures may be told apart less. -/
theorem SameResult.sameBare {route : Route} {R : β → β → Prop} {r r' : Except ExecutionError β}
    (h : SameResult (ExecutionError.Like route) R r r') : SameResult ExecutionError.SameBare R r r' := by
  cases h with
  | ok h => exact .ok h
  | error h => exact .error h.sameBare

theorem Lodges.map (h : Lodges (fun _ => Eq) branch options q paths p) (f : β → γ) :
    Lodges (fun _ => Eq) branch options (q.bind fun r => .done (r.map f)) paths
      (p.bind fun r => .done (r.map f)) := by
  induction h with
  | fork h => exact .fork fun i => (h i).bind fun _ _ hr => .done (hr.map fun _ _ => congrArg f)
  | enter path _ ih => exact .enter path ih

theorem Lodged.map {tenant : Tenant β} (h : Lodged branch tenant p) (f : β → γ) :
    Lodged branch (tenant.map f) (p.bind fun r => .done (r.map f)) := by
  cases h with
  | value v => exact .value (f v)
  | fork h => exact .fork (h.map f)

/-- A program on a fresh fork that does there what it does on its own branch. -/
theorem lodges_of_alike {k : Route → Prog (Except ExecutionError β)} {R : Route → β → β → Prop}
    (h : ∀ route, Alike route (SameResult (ExecutionError.Like route) (R route)) (k (route ++ [])) (k []))
    (options : ForkOptions) : Lodges R branch options (k []) [] ((fork branch options).bind k) := by
  refine .fork fun i => ?_
  have halike := h (branch ++ [i])
  rw [List.append_nil] at halike
  exact halike.mono fun _ _ => SameResult.sameBare

/-- An action on its fork. -/
theorem lodges_execute {action : Action} (h : action.Blind) (branch : Route) (path : Path) :
    Lodges Completed.Like branch (.place path) (actOn action [] path) [path] (executeAction action branch path) :=
  .enter path (lodges_of_alike (k := fun own => actOn action own path) (fun _ => h.actOn [] path) (.place path))

/-- An action on its fork, and what comes after it. -/
theorem lodges_executeThen {action : Action} (h : action.Blind) (path : Path)
    {k : Except ExecutionError Completed → Prog (Except ExecutionError β)}
    (hk : ∀ route r r', SameResult (ExecutionError.Like route) (Completed.Like route) r r' →
      Alike route (SameResult (ExecutionError.Like route) Eq) (k r) (k r')) :
    Lodges (fun _ => Eq) branch (.place path) ((actOn action [] path).bind k) [path]
      ((executeAction action branch path).bind k) :=
  .enter path (lodges_of_alike (k := fun own => (actOn action own path).bind k)
    (fun route => (h.actOn [] path).bind (hk route)) (.place path))

/-! ## Fields -/

/-- What a template does where it stands: it is a value, an action on its fork, or an object or a list on a fork made
for it. -/
def Template.tenant (t : Template) (path : Path) : Tenant Value :=
  match t with
  | .scalar v => ⟨none, [], .done (.ok v)⟩
  | .action a => ⟨some (.place path), [path], (actOn a [] path).bind fun r => .done (r.map leafValue)⟩
  | .object directives fields => ⟨some (.place path), [], evalTemplate (.object directives fields) [] path⟩
  | .list items => ⟨some (.place path), [], evalTemplate (.list items) [] path⟩

theorem lodged_onFork (t : Template) (h : t.Blind) (branch : Route) (path : Path) :
    Lodged branch (t.tenant path) (onFork t branch path (evalTemplate t)) := by
  have hfork : Lodges (fun _ => Eq) branch (.place path) (evalTemplate t [] path) []
      ((fork branch (.place path)).bind fun own => evalTemplate t own path) :=
    lodges_of_alike (k := fun own => evalTemplate t own path) (fun route => alike_evalTemplate t h [] path) _
  cases t with
  | scalar v => exact .value v
  | action action =>
    refine .fork (lodges_executeThen h path fun route r r' hr => .done (hr.map fun c c' hc => ?_))
    unfold leafValue
    rw [hc.value, hc.raw]
  | object directives fields => exact .fork hfork
  | list items => exact .fork hfork

theorem evalFields_eq_map (fields : List (String × Template)) (branch : Route) (path : Path) :
    evalFields fields branch path = fields.map fun e =>
      onFork e.2 branch (path.child (.key (outputKey e.1))) (evalTemplate e.2) := by
  induction fields with
  | nil => rfl
  | cons e rest ih =>
    rw [evalFields, ih]
    rfl

/-- The tenants of the fields of an object. -/
def fieldTenants (fields : List (String × Template)) (path : Path) : List (Tenant Value) :=
  fields.map fun e => e.2.tenant (path.child (.key (outputKey e.1)))

theorem lodged_evalFields {fields : List (String × Template)} (h : blindFields fields) (branch : Route) (path : Path) :
    List.Forall₂ (Lodged branch) (fieldTenants fields path) (evalFields fields branch path) := by
  rw [evalFields_eq_map]
  induction fields with
  | nil => exact .nil
  | cons e rest ih => exact .cons (lodged_onFork e.2 h.1 branch _) (ih h.2)

/-! ## Items of a collection -/

/-- The tenant of an item of a collection. -/
def itemTenant (element : Route → Path → Prog (Except ExecutionError Value)) (path : Path) (i : Nat) (item : Value) :
    Tenant Value :=
  ⟨some (.place (path.child (.index i))), [],
    ExceptT.run (ExceptT.lift (Prog.set [] currentKey item) >>= fun _ =>
      ExceptT.mk (element [] (path.child (.index i))))⟩

section ArrayMap

variable {element : Route → Path → Prog (Except ExecutionError Value)} (helement : ∀ route branch path,
  Alike route (SameResult (ExecutionError.Like route) Eq) (element (route ++ branch) path) (element branch path))
include helement

theorem lodged_evalItem (branch : Route) (path : Path) (i : Nat) (item : Value) :
    Lodged branch (itemTenant element path i item) (evalItem element branch path i item) := by
  let k (own : Route) : Prog (Except ExecutionError Value) :=
    ExceptT.run (ExceptT.lift (Prog.set own currentKey item) >>= fun _ =>
      ExceptT.mk (element own (path.child (.index i))))
  refine .fork (lodges_of_alike (k := k) (fun route => ?_) (.place (path.child (.index i))))
  exact (Alike.perform (.set [] currentKey item) rfl).andThenLift fun _ _ _ => helement route [] _

theorem lodged_mapIdx (branch : Route) (path : Path) (items : List Value) :
    List.Forall₂ (Lodged branch) (items.mapIdx (itemTenant element path))
      (items.mapIdx (evalItem element branch path)) := by
  rw [List.forall₂_iff_get]
  refine ⟨by simp, fun i hi hi' => ?_⟩
  simpa using lodged_evalItem helement branch path i _

theorem lodged_evalArrayMap {action : Action} (h : action.Blind) (branch : Route) (path : Path) :
    Lodged branch
      ⟨some (.place (path.directive "array_map")), [path.directive "array_map"],
        (actOn action [] (path.directive "array_map")).bind (ExceptT.bindCont (spreadItems element path))⟩
      (evalArrayMap action element branch path) := by
  rw [evalArrayMap_eq]
  refine .fork (lodges_executeThen h _ fun route r r' hr => ?_)
  cases hr with
  | ok hc => exact alike_spreadItems (helement route) hc path
  | error he => exact .done (.error he)

end ArrayMap

/-- An object with other directives than `arrayMap`. -/
theorem Template.Blind.element {setup include? arrayMap : Option Action} {fields : List (String × Template)}
    (h : (Template.object ⟨setup, include?, arrayMap⟩ fields).Blind) :
    (Template.object ⟨setup, include?, none⟩ fields).Blind := ⟨⟨h.1.setup, h.1.include?, nofun⟩, h.2⟩

/-- It does below any route what it does on its own branch. -/
theorem alike_element {setup include? arrayMap : Option Action} {fields : List (String × Template)}
    (h : (Template.object ⟨setup, include?, arrayMap⟩ fields).Blind) (route branch : Route) (path : Path) :
    Alike route (SameResult (ExecutionError.Like route) Eq)
      (evalTemplate (.object ⟨setup, include?, none⟩ fields) (route ++ branch) path)
      (evalTemplate (.object ⟨setup, include?, none⟩ fields) branch path) :=
  alike_evalTemplate (.object ⟨setup, include?, none⟩ fields) h.element branch path

/-! ## Elements -/

/-- The tenant of an element of a list, with all that it gives. -/
def Template.elementTenant (t : Template) (path : Path) : Tenant (List Value) :=
  match t with
  | .object ⟨setup, include?, some arrayMap⟩ fields =>
    ⟨some (.place (path.directive "array_map")), [path.directive "array_map"],
      (actOn arrayMap [] (path.directive "array_map")).bind
        (ExceptT.bindCont (spreadItems (evalTemplate (.object ⟨setup, include?, none⟩ fields)) path))⟩
  | t => (t.tenant path).map ([·])

/-- The tenants of the elements of a list, the first of which has the given position. -/
def elementTenants (items : List Template) (path : Path) (i : Nat) : List (Tenant (List Value)) :=
  match items with
  | [] => []
  | t :: rest => t.elementTenant (path.child (.index i)) :: elementTenants rest path (i + 1)

/-- An element of a list stands on a fork of its own. -/
theorem lodged_evalItems {items : List Template} (h : blindItems items) (branch : Route) (path : Path) (i : Nat) :
    List.Forall₂ (Lodged branch) (elementTenants items path i) (evalItems items branch path i) := by
  induction items generalizing i with
  | nil => exact .nil
  | cons t rest ih =>
    have hsingle : Lodged branch ((t.tenant (path.child (.index i))).map ([·]))
        ((onFork t branch (path.child (.index i)) (evalTemplate t)).bind fun r => .done (r.map ([·]))) :=
      (lodged_onFork t h.1 branch _).map ([·])
    cases t with
    | object directives fields =>
      obtain ⟨setup, include?, arrayMap⟩ := directives
      cases arrayMap with
      | none => exact .cons hsingle (ih h.2 (i + 1))
      | some action =>
        exact .cons (lodged_evalArrayMap (alike_element h.1) (h.1.1.arrayMap action rfl) branch _) (ih h.2 (i + 1))
    | _ => exact .cons hsingle (ih h.2 (i + 1))

/-! ## Forks of their own -/

theorem SameResult.sameValue {E : ExecutionError → ExecutionError → Prop} {r r' : Except ExecutionError β}
    (h : SameResult E Eq r r') : SameValue r r' := by
  cases h with
  | ok h => exact .ok h
  | error _ => exact .error trivial

theorem Lodges.forks (h : Lodges (fun _ => Eq) branch options q paths p) : Forks branch options q p := by
  induction h with
  | fork h => exact .fork fun i => (h i).mono fun _ _ => SameResult.sameValue
  | enter path _ ih => exact .enter path ih

theorem Lodged.ownFork {tenant : Tenant β} (h : Lodged branch tenant p) : OwnFork branch p := by
  cases h with
  | value v => exact .inl ⟨v, rfl⟩
  | fork h => exact .inr ⟨_, _, h.forks⟩

/-- Programs that are lodged on a branch run on forks of their own. -/
theorem ownFork_of_lodged {tenants : List (Tenant β)} {parts : List (Prog (Except ExecutionError β))}
    (h : List.Forall₂ (Lodged branch) tenants parts) : ∀ p ∈ parts, OwnFork branch p := by
  intro p hp
  obtain ⟨tenant, -, hlodged⟩ := Machine.exists_of_mem_right h hp
  exact hlodged.ownFork

theorem evalItems_cons (t : Template) (rest : List Template) (branch : Route) (path : Path) (i : Nat) :
    ∃ p, evalItems [t] branch path i = [p] ∧
      evalItems (t :: rest) branch path i = p :: evalItems rest branch path (i + 1) := by
  cases t with
  | object directives fields =>
    obtain ⟨setup, include?, arrayMap⟩ := directives
    cases arrayMap with
    | none => exact ⟨_, rfl, rfl⟩
    | some action => exact ⟨_, rfl, rfl⟩
  | _ => exact ⟨_, rfl, rfl⟩

/-- The program of an element is the same in a list of its own. -/
theorem getElem?_evalItems {items : List Template} {t : Template} {i j : Nat} (h : items[j]? = some t) (branch : Route)
    (path : Path) : ∃ p, (evalItems items branch path i)[j]? = some p ∧ evalItems [t] branch path (i + j) = [p] := by
  induction items generalizing i j with
  | nil => cases h
  | cons t' rest ih =>
    obtain ⟨first, halone, hcons⟩ := evalItems_cons t' rest branch path i
    rw [hcons]
    cases j with
    | zero =>
      cases h
      exact ⟨first, rfl, halone⟩
    | succ j =>
      obtain ⟨p, hp, halone⟩ := ih (i := i + 1) h
      refine ⟨p, hp, ?_⟩
      rwa [Nat.add_right_comm] at halone

theorem length_evalItems (items : List Template) (branch : Route) (path : Path) (i : Nat) :
    (evalItems items branch path i).length = items.length := by
  induction items generalizing i with
  | nil => rfl
  | cons t rest ih =>
    obtain ⟨first, -, hcons⟩ := evalItems_cons t rest branch path i
    rw [hcons, List.length_cons, ih, List.length_cons]

/-! ## Elements with and without `arrayMap` -/

/-- The `arrayMap` of a template, if it is an object that has one. -/
def Template.arrayMap? : Template → Option Action
  | .object directives _ => directives.arrayMap
  | _ => none

theorem Template.eq_of_arrayMap? {t : Template} {action : Action} (h : t.arrayMap? = some action) :
    ∃ setup include? fields, t = .object ⟨setup, include?, some action⟩ fields := by
  cases t with
  | object directives fields => exact ⟨directives.setup, directives.include?, fields, by rw [← h]; rfl⟩
  | _ => cases h

theorem evalItems_single {t : Template} (ht : t.arrayMap? = none) (rest : List Template) (branch : Route) (path : Path)
    (i : Nat) : evalItems (t :: rest) branch path i =
      (do return (← onFork t branch (path.child (.index i)) (evalTemplate t)).map ([·])) ::
        evalItems rest branch path (i + 1) := by
  cases t with
  | object directives fields =>
    obtain ⟨setup, include?, arrayMap⟩ := directives
    obtain rfl : arrayMap = none := ht
    rfl
  | _ => rfl

theorem evalItems_spread (setup include? : Option Action) (action : Action) (fields : List (String × Template))
    (rest : List Template) (branch : Route) (path : Path) (i : Nat) :
    evalItems (.object ⟨setup, include?, some action⟩ fields :: rest) branch path i =
      evalArrayMap action (evalTemplate (.object ⟨setup, include?, none⟩ fields)) branch (path.child (.index i)) ::
        evalItems rest branch path (i + 1) := by
  have helement : evalTemplate (.object ⟨setup, include?, none⟩ fields) = fun b p =>
      evalObject ⟨setup, include?, none⟩ (fields.map fun e => outputKey e.1) (fun b => evalFields fields b p) b p := by
    funext b p
    rw [evalTemplate]
  rw [evalItems, helement]

end MediaQuery
