import MediaQuery.Proofs.Machine.Recorded
import MediaQuery.Proofs.Template.Faithful
import MediaQuery.Proofs.Template.Origin

/-!
# Where `arrayMap` may stand

`arrayMap` has a meaning only at an object that is an element of a list. Before anything is evaluated the template is
searched for one that stands elsewhere (`misplaced?_eq`), and if there is one, nothing is done (`placement_of_run`). If
there is none, it does not matter what would become of one that stands elsewhere (`evalTemplate_eq_expand`): none is
ever passed over.
-/

namespace MediaQuery

open Machine (Moment Steady)

/-! ## The objects of a template -/

/-- An object of a template: where it stands, whether it is an element of a list there, and its directives. -/
structure Occurrence : Type 1 where
  place : Path
  element : Bool
  directives : Directives

/-- Whether it has an `arrayMap` that has no meaning where it stands. -/
def Occurrence.misplaced (o : Occurrence) : Bool := o.directives.arrayMap.isSome && !o.element

mutual

/-- The objects of a template that stands at a path, as an element of a list or not, in the order of the document. -/
def Template.objects (path : Path) (element : Bool) : Template → List Occurrence
  | .scalar _ => []
  | .action _ => []
  | .object directives fields => ⟨path, element, directives⟩ :: objectsOfFields path fields
  | .list items => objectsOfItems path 0 items

/-- The objects in the fields of an object. -/
def objectsOfFields (path : Path) : List (String × Template) → List Occurrence
  | [] => []
  | (key, t) :: rest => t.objects (path.child (.key (outputKey key))) false ++ objectsOfFields path rest

/-- The objects in the elements of a list, the first of which has the given position. -/
def objectsOfItems (path : Path) (i : Nat) : List Template → List Occurrence
  | [] => []
  | t :: rest => t.objects (path.child (.index i)) true ++ objectsOfItems path (i + 1) rest

end

/-- The place of the first of some objects with a misplaced directive. -/
def firstMisplaced (objects : List Occurrence) : Option Path := (objects.find? Occurrence.misplaced).map Occurrence.place

theorem firstMisplaced_append (objects objects' : List Occurrence) :
    firstMisplaced (objects ++ objects') = (firstMisplaced objects).or (firstMisplaced objects') := by
  unfold firstMisplaced
  rw [List.find?_append, Option.map_or]

/-- An element of a list is never misplaced itself. -/
theorem firstMisplaced_element (path : Path) (directives : Directives) (objects : List Occurrence) :
    firstMisplaced (⟨path, true, directives⟩ :: objects) = firstMisplaced objects := by
  simp [firstMisplaced, Occurrence.misplaced]

theorem firstMisplaced_eq_none {objects : List Occurrence} :
    firstMisplaced objects = none ↔ ∀ o ∈ objects, o.misplaced = false := by
  simp [firstMisplaced]

mutual

/-- **The search finds the first misplaced directive in the order of the document.** -/
theorem misplaced?_eq : (t : Template) → (path : Path) → t.misplaced? path = firstMisplaced (t.objects path false)
  | .scalar _, _ => rfl
  | .action _, _ => rfl
  | .object ⟨_, _, some _⟩ _, _ => rfl
  | .object ⟨_, _, none⟩ fields, path => misplacedField?_eq fields path
  | .list items, path => misplacedItem?_eq items path 0

theorem misplacedField?_eq : (fields : List (String × Template)) → (path : Path) →
    misplacedField? path fields = firstMisplaced (objectsOfFields path fields)
  | [], _ => rfl
  | (key, t) :: rest, path => by
    rw [misplacedField?, objectsOfFields, firstMisplaced_append, misplaced?_eq t, misplacedField?_eq rest]

theorem misplacedItem?_eq : (items : List Template) → (path : Path) → (i : Nat) →
    misplacedItem? path i items = firstMisplaced (objectsOfItems path i items)
  | [], _, _ => rfl
  | .object directives fields :: rest, path, i => by
    rw [misplacedItem?, objectsOfItems, firstMisplaced_append, Template.objects, firstMisplaced_element,
      misplacedField?_eq fields, misplacedItem?_eq rest]
  | .scalar v :: rest, path, i => by
    rw [objectsOfItems, firstMisplaced_append, ← misplacedItem?_eq rest]
    rfl
  | .action action :: rest, path, i => by
    rw [objectsOfItems, firstMisplaced_append, ← misplacedItem?_eq rest]
    rfl
  | .list items :: rest, path, i => by
    rw [objectsOfItems, firstMisplaced_append, ← misplacedItem?_eq rest, Template.objects, ← misplacedItem?_eq items]
    rfl

end

/-! ## No directive is passed over -/

mutual

/-- Evaluates a template where it is given what becomes of an object with `arrayMap` that is no element of a list. -/
def expandTemplate (astray : Directives → Route → Path → Prog (Except ExecutionError Value)) :
    Template → Route → Path → Prog (Except ExecutionError Value)
  | .scalar v, _, _ => return .ok v
  | .action action, branch, path => evalLeaf action branch path
  | .object directives fields, branch, path =>
    if directives.arrayMap.isSome then astray directives branch path
    else evalObject directives (fields.map fun e => outputKey e.1) (fun b => expandFields astray fields b path) branch path
  | .list items, branch, path => do
    return (← Prog.parallel (expandItems astray items branch path 0)).map fun values => .list (flattenItems values)

/-- The programs of the fields of an object. -/
def expandFields (astray : Directives → Route → Path → Prog (Except ExecutionError Value)) :
    List (String × Template) → Route → Path → List (Prog (Except ExecutionError Value))
  | [], _, _ => []
  | (key, t) :: rest, branch, path =>
    onFork t branch (path.child (.key (outputKey key))) (expandTemplate astray t) :: expandFields astray rest branch path

/-- The programs of the elements of a list: one with `arrayMap` is expanded. -/
def expandItems (astray : Directives → Route → Path → Prog (Except ExecutionError Value)) :
    List Template → Route → Path → Nat → List (Prog (Except ExecutionError (List Value)))
  | [], _, _, _ => []
  | t :: rest, branch, path, i =>
    (match t with
      | .object ⟨setup, include?, some arrayMap⟩ fields =>
        evalArrayMap arrayMap
          (fun b p => evalObject ⟨setup, include?, none⟩ (fields.map fun e => outputKey e.1)
            (fun b => expandFields astray fields b p) b p)
          branch (path.child (.index i))
      | t => do
        return (← onFork t branch (path.child (.index i)) (expandTemplate astray t)).map ([·])) ::
      expandItems astray rest branch path (i + 1)

end

section Expand

variable {astray : Directives → Route → Path → Prog (Except ExecutionError Value)} {place : Path}

mutual

/-- **A template without misplaced directives is evaluated the same whatever would become of one.** -/
theorem evalTemplate_eq_expand : (t : Template) → (place : Path) → t.misplaced? place = none →
    evalTemplate t = expandTemplate astray t
  | .scalar _, _, _ => rfl
  | .action _, _, _ => rfl
  | .object ⟨_, _, some _⟩ _, _, h => by cases h
  | .object ⟨setup, include?, none⟩ fields, place, h => by
    funext branch path
    have hfields (b : Route) : evalFields fields b path = expandFields astray fields b path :=
      evalFields_eq_expand fields place h b path
    simp only [evalTemplate, expandTemplate, hfields]
    rfl
  | .list items, place, h => by
    funext branch path
    rw [evalTemplate, expandTemplate, evalItems_eq_expand items place 0 h]

theorem evalFields_eq_expand : (fields : List (String × Template)) → (place : Path) →
    misplacedField? place fields = none → (branch : Route) → (path : Path) →
    evalFields fields branch path = expandFields astray fields branch path
  | [], _, _, _, _ => rfl
  | (key, t) :: rest, place, h, branch, path => by
    obtain ⟨hfirst, hrest⟩ := Option.or_eq_none_iff.1 h
    rw [evalFields, expandFields, evalTemplate_eq_expand t _ hfirst, evalFields_eq_expand rest place hrest]

theorem evalItems_eq_expand : (items : List Template) → (place : Path) → (j : Nat) →
    misplacedItem? place j items = none → (branch : Route) → (path : Path) → (i : Nat) →
    evalItems items branch path i = expandItems astray items branch path i
  | [], _, _, _, _, _, _ => rfl
  | .object ⟨setup, include?, some action⟩ fields :: rest, place, j, h, branch, path, i => by
    obtain ⟨hfirst, hrest⟩ := Option.or_eq_none_iff.1 h
    have hfields (b : Route) (p : Path) : evalFields fields b p = expandFields astray fields b p :=
      evalFields_eq_expand fields _ hfirst b p
    simp only [evalItems, expandItems, hfields, evalItems_eq_expand rest place (j + 1) hrest]
  | .object ⟨setup, include?, none⟩ fields :: rest, place, j, h, branch, path, i => by
    obtain ⟨hfirst, hrest⟩ := Option.or_eq_none_iff.1 h
    have helement : evalTemplate (.object ⟨setup, include?, none⟩ fields) = expandTemplate astray _ :=
      evalTemplate_eq_expand (.object ⟨setup, include?, none⟩ fields) (place.child (.index j)) hfirst
    simp only [evalItems, expandItems, helement, evalItems_eq_expand rest place (j + 1) hrest]
  | .scalar v :: rest, place, j, h, branch, path, i => by
    obtain ⟨hfirst, hrest⟩ := Option.or_eq_none_iff.1 h
    simp only [evalItems, expandItems, evalTemplate_eq_expand (.scalar v) _ hfirst,
      evalItems_eq_expand rest place (j + 1) hrest]
  | .action action :: rest, place, j, h, branch, path, i => by
    obtain ⟨hfirst, hrest⟩ := Option.or_eq_none_iff.1 h
    simp only [evalItems, expandItems, evalTemplate_eq_expand (.action action) _ hfirst,
      evalItems_eq_expand rest place (j + 1) hrest]
  | .list items :: rest, place, j, h, branch, path, i => by
    obtain ⟨hfirst, hrest⟩ := Option.or_eq_none_iff.1 h
    simp only [evalItems, expandItems, evalTemplate_eq_expand (.list items) _ hfirst,
      evalItems_eq_expand rest place (j + 1) hrest]

end

end Expand

/-! ## Evaluations -/

variable {inputs : Inputs} {past : List Machine.Event} {m m' : Machine} {t : Template} {branch : Route}

/-- **`arrayMap` is rejected exactly where it has no meaning.** If an object of the template that is no element of a
list has the directive, the evaluation fails at the place of the first such object in the order of the document, and
the machine is as it was. Otherwise the evaluation passes over no directive, whatever would become of one out of place;
and it fails with that error only if an action of the template, which it has run, has failed with it. -/
theorem placement_of_run (h : Steady inputs past m) (t : Template) (branch : Route) :
    (∀ place, firstMisplaced (t.objects (m.path branch) false) = some place → m.run (t.evaluate branch) =
      (some (.error (EvalError.arrayMapOutsideList.wrap place (m.session branch).log branch)), m)) ∧
    ((∀ o ∈ t.objects (m.path branch) false, o.misplaced = false) →
      (∀ astray, m.run (t.evaluate branch) = m.run (expandTemplate astray t branch (m.path branch))) ∧
      ∀ e m', m.run (t.evaluate branch) = (some (.error e), m') → e.cause = .arrayMapOutsideList →
        ∃ past', ∃ action ∈ t.actions, ∃ b path, Moment.Meanwhile ⟨past, m⟩ ⟨past', m'⟩ fun x y =>
          (executeAction action b path).Leads [] x (.error e) y ∧ Breaks action [] path x y e) := by
  constructor
  · intro place hplace
    rw [Machine.run_evaluate_eq, misplaced?_eq, hplace]
    exact Machine.drive_of_result rfl m
  · intro hplaced
    have hnone : t.misplaced? (m.path branch) = none := by
      rw [misplaced?_eq]
      exact firstMisplaced_eq_none.2 hplaced
    rw [Machine.run_evaluate hnone]
    refine ⟨fun astray => by rw [evalTemplate_eq_expand t _ hnone], fun e m' hrun hcause => ?_⟩
    obtain ⟨past', -, hleads⟩ := Machine.leads_of_run h hrun
    have hstems := stems_evalTemplate t branch _ _ _ hleads
    cases hstems with
    | @action action ha b path hmeanwhile =>
      obtain ⟨x₁, y₁, hbefore, hfails, hafter⟩ := hmeanwhile
      exact ⟨past', action, ha, b, path, x₁, y₁, hbefore, ⟨hfails, breaks_of_executeAction hfails⟩, hafter⟩
    | rejected hrejects =>
      rw [hcause] at hrejects
      exact hrejects.elim

/-! ## Two objects with `arrayMap` -/

/-- Answers an empty collection. -/
def nothingToMap : Action := .done (.ok (.value (.list [])))

/-- An element with `arrayMap`, and in it a field with one. -/
def mappedField : Template :=
  .object .none [("a", .list [.object ⟨none, none, some nothingToMap⟩ [("__b", .object ⟨none, none, some nothingToMap⟩ [])]])]

/-- The field is found, though there would be no item to evaluate it for. -/
theorem placement_of_mappedField : Steady .blank [] (.start .blank) ∧
    firstMisplaced (mappedField.objects .root false) =
      some (((Path.root.child (.key "a")).child (.index 0)).child (.key "_b")) ∧
    (Machine.start .blank).run (mappedField.evaluate []) =
      (some (.error (EvalError.arrayMapOutsideList.wrap
        (((Path.root.child (.key "a")).child (.index 0)).child (.key "_b")) [] [])), .start .blank) := by
  have hplace : firstMisplaced (mappedField.objects .root false) =
      some (((Path.root.child (.key "a")).child (.index 0)).child (.key "_b")) := by rfl
  exact ⟨Machine.steady_start _, hplace, (placement_of_run (Machine.steady_start .blank) mappedField []).1 _ hplace⟩

/-- Fails as if a directive were out of place. -/
def pretending : Action := .done (.error .arrayMapOutsideList)

/-- An action can fail with the same error where there is no object at all. -/
theorem outside_without_objects : (∀ o ∈ (Template.action pretending).objects .root false, o.misplaced = false) ∧
    ∃ e m', (Machine.start .blank).run ((Template.action pretending).evaluate []) = (some (.error e), m') ∧
      e.cause = .arrayMapOutsideList :=
  ⟨nofun, _, _, Machine.drive_of_result rfl _, rfl⟩

end MediaQuery
