import MediaQuery.Proofs.Template.CurrentValue
import MediaQuery.Proofs.Template.Passage

/-!
# What the elements of a list contribute

A list that has been evaluated is the concatenation of what its elements contribute, in their order
(`listed_of_evaluation`). A plain element contributes its value, or nothing if that is excluded. An element with
`arrayMap` contributes one object for each item of the collection that its action answers, whatever that item is: the
rest of the element is evaluated on a new fork that holds the item as its current value (`EvaluatedFor`,
`holdsItem_itemFork`). So nothing is lost, doubled or moved, and the number of values is known from the portions
(`size_of_contributes`).
-/

namespace MediaQuery

open Machine (Moment Steady)

open Prog

/-! ## Portions -/

/-- What an element of a list contributes: its value, or an object for each item of a collection. -/
inductive Portion where
  | single (value : Value)
  | spread (source : List Value) (objects : List (List (String × Value)))

namespace Portion

/-- The values of a portion; a single one is left out if it is excluded. -/
def values : Portion → List Value
  | .single v => if v.isExclude then [] else [v]
  | .spread _ objects => objects.map .map

/-- The number of values that are expected: those of the collection, or one unless it is excluded. -/
def size : Portion → Nat
  | .single v => if v.isExclude then 0 else 1
  | .spread source _ => source.length

end Portion

/-- The values of a list, portion by portion. -/
def contents (portions : List Portion) : List Value := portions.flatMap Portion.values

/-- The number of values that are expected of a list. -/
def totalSize : List Portion → Nat
  | [] => 0
  | portion :: rest => portion.size + totalSize rest

theorem length_contents {portions : List Portion} (h : ∀ portion ∈ portions, portion.values.length = portion.size) :
    (contents portions).length = totalSize portions := by
  induction portions with
  | nil => rfl
  | cons portion rest ih =>
    have hfirst := h portion List.mem_cons_self
    have hrest := ih fun other hother => h other (List.mem_cons_of_mem _ hother)
    unfold contents at hrest ⊢
    rw [List.flatMap_cons, List.length_append, hfirst, hrest, totalSize]

theorem flattenItems_cons (first : List Value) (rest : List (List Value)) :
    flattenItems (first :: rest) = (first.filter fun v => !v.isExclude) ++ flattenItems rest := by
  simp [flattenItems]

/-- The values of an element that is one value. -/
theorem flattenItems_single (v : Value) (rest : List (List Value)) :
    flattenItems ([v] :: rest) = (Portion.single v).values ++ flattenItems rest := by
  rw [flattenItems_cons]
  cases hv : v.isExclude with
  | true => simp [Portion.values, hv]
  | false => simp [Portion.values, hv]

/-- Objects are never excluded. -/
theorem flattenItems_objects (source : List Value) (objects : List (List (String × Value))) (rest : List (List Value)) :
    flattenItems (objects.map .map :: rest) = (Portion.spread source objects).values ++ flattenItems rest := by
  have hkept : (objects.map Value.map).filter (fun v => !v.isExclude) = objects.map Value.map := by
    apply List.filter_eq_self.2
    intro v hv
    obtain ⟨entries, -, rfl⟩ := List.mem_map.1 hv
    rfl
  rw [flattenItems_cons, hkept]
  rfl

/-! ## Items -/

variable {base branch : Route} {path place : Path} {x y : Moment} {v : Value}

/-- The fork of a branch for an item of a collection, and the machine on which the item is its current value. -/
def itemFork (base branch : Route) (place : Path) (item : Value) (m : Machine) : Route × Machine :=
  let forked := m.addChild (base ++ branch) fun c => c.forkOf (.place place)
  (branch ++ [forked.1],
    forked.2.modifyStore (base ++ (branch ++ [forked.1])) fun s => s.write currentKey (.ready item))

/-- A branch is new on the second machine, and it holds there what the other branch holds on the first, but the item as
its current value. -/
structure HoldsItem (m : Machine) (a own : Route) (place : Path) (item : Value) (m' : Machine) : Prop where
  new : m.node? own = none
  there : (m'.node? own).isSome = true
  path : m'.path own = place
  slot : ∀ key, m'.slot? own key = if key = currentKey then some (.ready item) else m.slot? a key

/-- The fork for an item holds it. -/
theorem holdsItem_itemFork {m : Machine} (hb : (m.node? (base ++ branch)).isSome = true) {place : Path}
    (hplace : place.step = none) (item : Value) :
    HoldsItem m (base ++ branch) (base ++ (itemFork base branch place item m).1) place item
      (itemFork base branch place item m).2 := by
  obtain ⟨n, hn⟩ := Option.isSome_iff_exists.1 hb
  have hthere := Machine.there_fork hb (.place place)
  have hposition : (m.addChild (base ++ branch) fun c => c.forkOf (.place place)).1 = n.degree :=
    Machine.addChild_position hn
  unfold itemFork
  dsimp only
  rw [← List.append_assoc]
  constructor
  · rw [hposition]
    exact Machine.node?_next hn
  · rw [Machine.isSome_node?_modifyStore]
    exact hthere
  · have hjoin : place.join [] = place := by
      show (⟨place.segments ++ [], none⟩ : Path) = place
      rw [List.append_nil, ← hplace]
    rw [Machine.path_eq, Machine.node?_modifyStore, if_pos rfl, hposition, Machine.node?_fork hn, if_neg (by simp),
      if_pos rfl]
    exact hjoin
  · intro key
    rw [Machine.slot?_write hthere, Machine.slot?_fork hn]

/-- The rest of an element is evaluated for an item, on the fork for it, and comes to an object. -/
def EvaluatedFor (rest : Template) (base branch : Route) (place : Path) (item : Value) (object : List (String × Value))
    (x y : Moment) : Prop :=
  ∃ own begun, x.Before begun ∧ (own, begun.machine) = itemFork base branch place item x.machine ∧
    ((x.machine.node? (base ++ branch)).isSome = true →
      HoldsItem x.machine (base ++ branch) (base ++ own) place item begun.machine) ∧
    (evalTemplate rest own place).Leads base begun (.ok (.map object)) y

/-- An object that has been evaluated is a map. -/
theorem map_of_leads {directives : Directives} {fields : List (String × Template)}
    (h : (evalTemplate (.object directives fields) branch path).Leads base x (.ok v) y) :
    ∃ object, v = .map object := by
  obtain ⟨_, _, _, -, -, hv⟩ := leads_object h
  exact ⟨_, hv⟩

/-- **An item** that has got to its value has done so on its fork. -/
theorem evaluatedFor_of_leads {directives : Directives} {fields : List (String × Template)} {j : Nat} {item : Value}
    (h : (evalItem (evalTemplate (.object directives fields)) branch path j item).Leads base x (.ok v) y) :
    ∃ object, v = .map object ∧
      EvaluatedFor (.object directives fields) base branch (path.child (.index j)) item object x y := by
  obtain ⟨_, x₁, ⟨x₂, hforked, hm, rfl, rfl⟩, h⟩ := leads_andThenLift.1 h
  obtain ⟨_, begun, ⟨x₃, hset, hm', -, rfl⟩, h⟩ := leads_andThenLift.1 h
  rw [hm] at hm'
  obtain ⟨object, rfl⟩ := map_of_leads h
  refine ⟨object, rfl, _, begun, hforked.trans hset, Prod.ext rfl hm', fun hb => ?_, h⟩
  rw [hm']
  exact holdsItem_itemFork hb rfl item

/-! ## Elements -/

/-- What `arrayMap` has answered is a collection of these items: a list of them, or a selection whose nodes they are. -/
def Collects (answer : Option Value) (source : List Value) : Prop :=
  answer = some (.list source) ∨ ∃ s : Selection, answer = some (.selection s) ∧ source = s.nodes.map .selection

theorem collects_of_sourceItems? {answer : Option Value} {source : List Value} (h : sourceItems? answer = some source) :
    Collects answer source := by
  unfold sourceItems? at h
  split at h
  · cases h
    exact .inl rfl
  · next s =>
    cases h
    exact .inr ⟨s, rfl, rfl⟩
  · cases h

/-- What an element contributes that stands at a place in a list: without `arrayMap` the value that it has got to, and
with it an object for each item of the collection that its action has answered, in their order. -/
inductive Contributes (base branch : Route) (place : Path) (x y : Moment) : Template → Portion → Prop
  | single {t : Template} {v : Value} (ht : t.arrayMap? = none)
      (h : Attains base x y (onFork t branch place (evalTemplate t)) v) : Contributes base branch place x y t (.single v)
  | spread {setup include? : Option Action} {action : Action} {fields : List (String × Template)}
      {completed : Completed} {answering answered : Moment} {source : List Value}
      {objects : List (List (String × Value))} (hbefore : x.Before answering)
      (hanswer : (executeAction action branch (place.directive "array_map")).Leads base answering (.ok completed) answered)
      (hsource : Collects completed.value source)
      (hobjects : List.Forall₂ (fun item object => answered.Meanwhile y
        (EvaluatedFor (.object ⟨setup, include?, none⟩ fields) base completed.branch (place.child (.index item.2)) item.1
          object)) source.zipIdx objects) :
      Contributes base branch place x y (.object ⟨setup, include?, some action⟩ fields) (.spread source objects)

/-- Values that are objects one by one are those of a list of objects. -/
theorem exists_objects {ι : Type} {attains : ι → Value → Prop} {evaluated : ι → List (String × Value) → Prop}
    {items : List ι} {values : List Value} (h : List.Forall₂ attains items values)
    (hmap : ∀ item v, attains item v → ∃ object, v = .map object ∧ evaluated item object) :
    ∃ objects, values = objects.map .map ∧ List.Forall₂ evaluated items objects := by
  induction h with
  | nil => exact ⟨[], rfl, .nil⟩
  | cons hfirst _ ih =>
    obtain ⟨object, rfl, hevaluated⟩ := hmap _ _ hfirst
    obtain ⟨objects, rfl, hrest⟩ := ih
    exact ⟨object :: objects, rfl, .cons hevaluated hrest⟩

/-- **An element with `arrayMap`** contributes an object for each item. -/
theorem contributes_of_spread {setup include? : Option Action} {action : Action} {fields : List (String × Template)}
    {values : List Value} (h : Attains base x y
      (evalArrayMap action (evalTemplate (.object ⟨setup, include?, none⟩ fields)) branch place) values) :
    ∃ source objects, values = objects.map .map ∧
      Contributes base branch place x y (.object ⟨setup, include?, some action⟩ fields) (.spread source objects) := by
  obtain ⟨answering, y₁, hbefore, hleads, hafter⟩ := h
  obtain ⟨completed, answered, source, hanswer, hsource, hvalues⟩ := leads_items hleads
  rw [List.mapIdx_eq_zipIdx_map, List.forall₂_map_left_iff] at hvalues
  have hitems (item : Value × Nat) (v : Value) (hv : Attains base answered y₁ (evalItem
      (evalTemplate (.object ⟨setup, include?, none⟩ fields)) completed.branch place item.2 item.1) v) :
      ∃ object, v = .map object ∧ answered.Meanwhile y (EvaluatedFor (.object ⟨setup, include?, none⟩ fields) base
        completed.branch (place.child (.index item.2)) item.1 object) := by
    obtain ⟨x₁, y₂, hx, hitem, hy⟩ := hv
    obtain ⟨object, rfl, hevaluated⟩ := evaluatedFor_of_leads hitem
    exact ⟨object, rfl, x₁, y₂, hx, hevaluated, hy.trans hafter⟩
  obtain ⟨objects, rfl, hobjects⟩ := exists_objects hvalues hitems
  exact ⟨source, objects, rfl, .spread hbefore hanswer (collects_of_sourceItems? hsource) hobjects⟩

/-- **A plain element** contributes its value. -/
theorem contributes_of_single {t : Template} (ht : t.arrayMap? = none) {values : List Value}
    (h : Attains base x y (do return (← onFork t branch place (evalTemplate t)).map ([·])) values) :
    ∃ v, values = [v] ∧ Contributes base branch place x y t (.single v) := by
  obtain ⟨x₁, y₁, hbefore, hleads, hafter⟩ := h
  obtain ⟨v, hv, rfl⟩ := leads_map.1 hleads
  exact ⟨v, rfl, .single ht ⟨x₁, y₁, hbefore, hv, hafter⟩⟩

/-- The elements of a list contribute the values of the list, in their order. -/
theorem contributes_of_items {items : List Template} {i : Nat} {values : List (List Value)}
    (h : List.Forall₂ (Attains base x y) (evalItems items branch path i) values) :
    ∃ portions, List.Forall₂ (fun item portion =>
        Contributes base branch (path.child (.index item.2)) x y item.1 portion) (items.zipIdx i) portions ∧
      flattenItems values = contents portions := by
  induction items generalizing i values with
  | nil =>
    cases h
    exact ⟨[], .nil, rfl⟩
  | cons t rest ih =>
    cases ht : t.arrayMap? with
    | none =>
      rw [evalItems_single ht] at h
      obtain ⟨first, more, hfirst, hrest, rfl⟩ := List.forall₂_cons_left_iff.1 h
      obtain ⟨v, rfl, hv⟩ := contributes_of_single ht hfirst
      obtain ⟨portions, hportions, heq⟩ := ih hrest
      refine ⟨.single v :: portions, .cons hv hportions, ?_⟩
      rw [flattenItems_single, heq]
      rfl
    | some action =>
      obtain ⟨setup, include?, fields, rfl⟩ := Template.eq_of_arrayMap? ht
      rw [evalItems_spread] at h
      obtain ⟨first, more, hfirst, hrest, rfl⟩ := List.forall₂_cons_left_iff.1 h
      obtain ⟨source, objects, rfl, hspread⟩ := contributes_of_spread hfirst
      obtain ⟨portions, hportions, heq⟩ := ih hrest
      refine ⟨.spread source objects :: portions, .cons hspread hportions, ?_⟩
      rw [flattenItems_objects source, heq]
      rfl

/-- A portion has as many values as are expected of it. -/
theorem size_of_contributes {t : Template} {portion : Portion} (h : Contributes base branch place x y t portion) :
    portion.values.length = portion.size := by
  cases h with
  | single ht h =>
    unfold Portion.size Portion.values
    dsimp only
    split <;> rfl
  | spread _ _ _ hobjects =>
    have hlength := hobjects.length_eq
    rw [List.length_zipIdx] at hlength
    simp [Portion.values, Portion.size, hlength]

/-- A list that has been evaluated is what its elements contribute, one after another, and it has as many values as are
expected of them. -/
def Listed (items : List Template) (base branch : Route) (path : Path) (x : Moment) (v : Value) (y : Moment) : Prop :=
  ∃ portions, List.Forall₂ (fun item portion =>
      Contributes base branch (path.child (.index item.2)) x y item.1 portion) items.zipIdx portions ∧
    v = .list (contents portions) ∧ (contents portions).length = totalSize portions

/-- **A list** wherever it is evaluated. -/
theorem listed_of_leads {items : List Template}
    (h : (evalTemplate (.list items) branch path).Leads base x (.ok v) y) : Listed items base branch path x v y := by
  obtain ⟨values, hvalues, rfl⟩ := leads_list h
  obtain ⟨portions, hportions, heq⟩ := contributes_of_items hvalues
  refine ⟨portions, hportions, by rw [heq], length_contents fun portion hportion => ?_⟩
  obtain ⟨item, -, hcontributes⟩ := Machine.exists_of_mem_right hportions hportion
  exact size_of_contributes hcontributes

/-- **Lists lose, double and move nothing.** Whatever surrounds the evaluation of a list, its values are those that its
elements contribute, in their order: of a plain element its value, unless it is excluded, and of an element with
`arrayMap` one object for each item of the collection that the action has answered, in their order, which is the value
of the rest of the element on a fork that holds the item. So it is for every list in a template, and for a run that
evaluates one. -/
theorem listed_of_evaluation (items : List Template) :
    (∀ base branch path x v y, (evalTemplate (.list items) branch path).Leads base x (.ok v) y →
      Listed items base branch path x v y) ∧
    ∀ inputs past m branch v m', Steady inputs past m →
      m.run ((Template.list items).evaluate branch) = (some (.ok v), m') →
        ∃ past', Listed items [] branch (m.path branch) ⟨past, m⟩ v ⟨past', m'⟩ := by
  constructor
  · intro base branch path x v y h
    exact listed_of_leads h
  · intro inputs past m branch v m' h hrun
    obtain ⟨past', hleads⟩ := leads_of_run_evaluate h hrun
    exact ⟨past', listed_of_leads hleads⟩

/-- A list with an excluded element, and with one that maps a text, an excluded value and a list. -/
def mixedItems : List Template :=
  [.scalar (.string "first"), .scalar .exclude,
    .object ⟨none, none, some (answeringAction (.list [.string "a", .exclude, .list [.null]]))⟩
      [("item", .action readingAction)],
    .scalar (.string "last")]

/-- There is an object for the excluded item as well. -/
theorem listed_of_mixedItems : Steady .blank [] (.start .blank) ∧
    ∃ m', (Machine.start .blank).run ((Template.list mixedItems).evaluate []) =
        (some (.ok (.list [.string "first", .map [("item", .string "a")], .map [],
          .map [("item", .list [.null])], .string "last"])), m') ∧
      ∃ past', Listed mixedItems [] [] .root ⟨[], .start .blank⟩
        (.list [.string "first", .map [("item", .string "a")], .map [], .map [("item", .list [.null])],
          .string "last"]) ⟨past', m'⟩ := by
  have hrun : (Machine.start .blank).run ((Template.list mixedItems).evaluate []) =
      (some (.ok (.list [.string "first", .map [("item", .string "a")], .map [], .map [("item", .list [.null])],
        .string "last"])), _) := Machine.drive_of_result rfl _
  exact ⟨Machine.steady_start .blank, _, hrun,
    (listed_of_evaluation mixedItems).2 _ _ _ _ _ _ (Machine.steady_start .blank) hrun⟩

end MediaQuery
