import MediaQuery.Proofs.Machine.Local
import MediaQuery.Proofs.Template.Local
import MediaQuery.Proofs.Template.Parts

/-!
# Siblings are isolated

Whenever the evaluation of an object succeeds, each of its fields has the value that it has where all other fields are
removed, on the branch that the directives of the object have left. The same holds of the elements of a list and of
the items of the collection of `arrayMap` (`siblings_isolated`). What the fields have come to is read off the entries
of the object, where every field that is not excluded stands under its key (`lookup_assemble`).
-/

namespace MediaQuery

/-! ## The entries of an object -/

theorem assemble_cons (included : List (String × Value)) (key : String) (v : Value) (rest : List (String × Value)) :
    assemble included ((key, v) :: rest) =
      assemble (if v.isExclude then Fields.erase key included else Fields.insert key v included) rest := rfl

theorem lookup_assemble_of_not_mem {fields : List (String × Value)} {key : String} (h : key ∉ fields.map Prod.fst)
    (included : List (String × Value)) : (assemble included fields).lookup key = included.lookup key := by
  induction fields generalizing included with
  | nil => rfl
  | cons e rest ih =>
    obtain ⟨k, v⟩ := e
    rw [List.map_cons, List.mem_cons, not_or] at h
    rw [assemble_cons, ih h.2]
    split
    · rw [Fields.lookup_erase, if_neg h.1]
    · rw [Fields.lookup_insert, if_neg h.1]

/-- Every field stands under its key unless it is excluded, whatever has been included. -/
theorem lookup_assemble {fields : List (String × Value)} (h : (fields.map Prod.fst).Nodup) {key : String} {v : Value}
    (he : (key, v) ∈ fields) (included : List (String × Value)) :
    (assemble included fields).lookup key = if v.isExclude then none else some v := by
  induction fields generalizing included with
  | nil => cases he
  | cons e rest ih =>
    obtain ⟨k, w⟩ := e
    rw [List.map_cons, List.nodup_cons] at h
    rw [assemble_cons]
    rcases List.mem_cons.1 he with heq | he
    · cases heq
      rw [lookup_assemble_of_not_mem h.1]
      split
      · rw [Fields.lookup_erase, if_pos rfl]
      · rw [Fields.lookup_insert, if_pos rfl]
    · exact ih h.2 he _

theorem lookup_assemble_single (key : String) (v : Value) :
    (assemble [] [(key, v)]).lookup key = if v.isExclude then none else some v :=
  @lookup_assemble [(key, v)] (List.nodup_singleton key) key v List.mem_cons_self []

/-- A field alone stands under its key as it does among others. -/
theorem lookup_assemble_zip {keys : List String} {values : List Value} (h : keys.Nodup)
    (hlen : keys.length = values.length) {i : Nat} {key : String} {v : Value} (hkey : keys[i]? = some key)
    (hv : values[i]? = some v) (included : List (String × Value)) :
    (assemble included (keys.zip values)).lookup key = (assemble [] [(key, v)]).lookup key := by
  have hnodup : ((keys.zip values).map Prod.fst).Nodup := by rwa [List.map_fst_zip hlen.le]
  have hmem : (key, v) ∈ keys.zip values := List.mem_of_getElem? (List.getElem?_zip_eq_some.2 ⟨hkey, hv⟩)
  rw [lookup_assemble hnodup hmem, lookup_assemble_single]

/-! ## One step after another -/

theorem evalTemplate_object (directives : Directives) (fields : List (String × Template)) (branch : Route)
    (path : Path) : evalTemplate (.object directives fields) branch path =
      ExceptT.run (ExceptT.mk (directives.run branch path) >>= fun r =>
        ExceptT.mk (evalParts r.2 (fields.map fun e => outputKey e.1) (evalFields fields r.1 path))) := by
  rw [evalTemplate, evalObject_eq]

theorem evalTemplate_list (items : List Template) (branch : Route) (path : Path) :
    evalTemplate (.list items) branch path =
      ExceptT.run (ExceptT.mk (Prog.parallel (evalItems items branch path 0)) >>= fun values =>
        ExceptT.mk (.done (.ok (.list (flattenItems values))))) := by
  rw [evalTemplate]
  refine congrArg (Prog.bind _) (funext fun r => ?_)
  cases r with
  | ok values => rfl
  | error e => rfl

namespace Machine

/-! ## Alone -/

/-- Under the key of each field stands what stands there where all other fields are removed. -/
def FieldsAlone (m : Machine) (branch : Route) (path : Path) (fields : List (String × Template))
    (entries : List (String × Value)) : Prop :=
  ∀ e ∈ fields, ∃ alone, (m.run (evalTemplate (.object .none [e]) branch path)).1 = some (.ok (.map alone)) ∧
    entries.lookup (outputKey e.1) = alone.lookup (outputKey e.1)

/-- Each element of a list gives the values that it gives in its position where all other elements are removed. -/
def ElementsAlone (m : Machine) (branch : Route) (path : Path) (items : List Template) (values : List (List Value)) :
    Prop :=
  values.length = items.length ∧ ∀ i t, items[i]? = some t →
    ∃ w, values[i]? = some w ∧ (m.run (Prog.parallel (evalItems [t] branch path i))).1 = some (.ok [w])

/-- Each item of a collection gives the value that it gives in its position where all other items are removed. -/
def ItemsAlone (m : Machine) (element : Route → Path → Prog (Except ExecutionError Value)) (branch : Route)
    (path : Path) (items : List Value) (values : List Value) : Prop :=
  values.length = items.length ∧ ∀ i item, items[i]? = some item →
    ∃ w, values[i]? = some w ∧ (m.run (Prog.parallel [evalItem element branch path i item])).1 = some (.ok [w])

variable {m : Machine} {inputs : Inputs} {past : List Event} {branch : Route} {α : Type}

/-- The entries of an object whose fields have been evaluated. -/
theorem run_evalParts {included : List (String × Value)} {keys : List String}
    {parts : List (Prog (Except ExecutionError Value))} {v : Value}
    (h : (m.run (evalParts included keys parts)).1 = some (.ok v)) :
    ∃ values, (m.run (Prog.parallel parts)).1 = some (.ok values) ∧ v = .map (assemble included (keys.zip values)) := by
  obtain ⟨values, m', hvalues, hv⟩ := ok_of_run_andThen h
  rw [run_done] at hv
  cases hv
  exact ⟨values, congrArg Prod.fst hvalues, rfl⟩

theorem run_evalParts_of_ok {included : List (String × Value)} {keys : List String}
    {parts : List (Prog (Except ExecutionError Value))} {values : List Value}
    (h : (m.run (Prog.parallel parts)).1 = some (.ok values)) :
    (m.run (evalParts included keys parts)).1 = some (.ok (.map (assemble included (keys.zip values)))) := by
  have hr : m.run (Prog.parallel parts) = (some (.ok values), (m.run (Prog.parallel parts)).2) := Prod.ext h rfl
  unfold evalParts
  rw [run_andThen_of_ok hr, run_done]

/-- An object without directives that has one field. -/
theorem run_single {e : String × Template} {path : Path} {v : Value}
    (h : (m.run (Prog.parallel (evalFields [e] branch path))).1 = some (.ok [v])) :
    (m.run (evalTemplate (.object .none [e]) branch path)).1 = some (.ok (.map (assemble [] [(outputKey e.1, v)]))) := by
  have hdirectives : m.run (Directives.none.run branch path) = (some (.ok (branch, [])), m) := run_done _ m
  rw [evalTemplate_object, run_andThen_of_ok hdirectives]
  exact run_evalParts_of_ok h

/-- A collection whose items have been evaluated. -/
theorem run_spreadItems {element : Route → Path → Prog (Except ExecutionError Value)} {path : Path}
    {completed : Completed} {values : List Value}
    (h : (m.run (spreadItems element path completed)).1 = some (.ok values)) :
    ∃ items, sourceItems? completed.value = some items ∧
      (m.run (Prog.parallel (items.mapIdx (evalItem element completed.branch path)))).1 = some (.ok values) := by
  unfold spreadItems at h
  split at h
  · next items hitems => exact ⟨items, hitems, h⟩
  · have hfailed : (m.run (.done (Except.error ((EvalError.invalidArrayMapSource (foundKind completed.value)).wrap
        (path.directive "array_map") (m.session completed.branch).log completed.branch) :
          Except ExecutionError (List Value)))).1 = some (.ok values) := h
    rw [run_done] at hfailed
    cases hfailed

/-! ## Objects, lists, collections -/

section Steady

variable (hs : Steady inputs past m) (hm : m.Contained)
include hs hm

/-- Programs on forks of a branch without values that still run. -/
theorem isolated_of_ownFork {β : Type} (hb : (m.node? branch).isSome = true) (hpending : (m.store branch).pending = [])
    {parts : List (Prog (Except ExecutionError β))} (hparts : ∀ p ∈ parts, OwnFork branch p) {values : List β}
    (h : (m.run (Prog.parallel parts)).1 = some (.ok values)) :
    List.Forall₂ (fun p v => (m.run (Prog.parallel [p])).1 = some (.ok [v])) parts values := by
  obtain ⟨n, hn⟩ := Option.isSome_iff_exists.1 hb
  rw [store_of_node? hn] at hpending
  exact parallel_isolated hs hn hpending (hm.clear branch) hparts h

/-- A program that is run on a branch, and the branch that it answers. -/
theorem leaves_of_run (hb : (m.node? branch).isSome = true) {p : Prog (Except ExecutionError α)} {f : α → Route}
    (hp : ∀ T : Route → Prop, T branch → p.Uses T [] (IfOk fun a => T (f a))) {a : α} {m' : Machine}
    (h : m.run p = (some (.ok a), m')) :
    (∃ past', Steady inputs past' m') ∧ m'.Contained ∧ (m'.node? (f a)).isSome = true := by
  obtain ⟨hcontained, hanswer⟩ := hm.run (Q := fun T => IfOk fun a => T (f a)) hs fun T hT => hp T (hT branch hb)
  have hsteady := steady_run p hs
  rw [h] at hcontained hanswer hsteady
  exact ⟨hsteady, hcontained, hanswer _ rfl (fun x => (m'.node? x).isSome = true) (fun _ hx => hx) a rfl⟩

/-- What a part of several comes to, where it is taken out. -/
theorem isolated_at (hb : (m.node? branch).isSome = true) (hpending : (m.store branch).pending = [])
    {parts : List (Prog (Except ExecutionError α))} (hparts : ∀ p ∈ parts, OwnFork branch p) {values : List α}
    (h : (m.run (Prog.parallel parts)).1 = some (.ok values)) {i : Nat} {p : Prog (Except ExecutionError α)}
    (hp : parts[i]? = some p) : ∃ v, values[i]? = some v ∧ (m.run (Prog.parallel [p])).1 = some (.ok [v]) := by
  have hall := isolated_of_ownFork hs hm hb hpending hparts h
  obtain ⟨hi, rfl⟩ := List.getElem?_eq_some_iff.1 hp
  have hi' : i < values.length := hall.length_eq ▸ hi
  exact ⟨values[i], List.getElem?_eq_getElem hi', hall.get hi hi'⟩

/-- Fields that have been evaluated side by side on a branch have come to what each of them comes to alone. -/
theorem fields_isolated (hb : (m.node? branch).isSome = true) (hpending : (m.store branch).pending = [])
    {fields : List (String × Template)} (hblind : blindFields fields)
    (hnodup : (fields.map fun e => outputKey e.1).Nodup) {path : Path} {values : List Value}
    (h : (m.run (Prog.parallel (evalFields fields branch path))).1 = some (.ok values))
    (included : List (String × Value)) :
    m.FieldsAlone branch path fields (assemble included ((fields.map fun e => outputKey e.1).zip values)) := by
  intro e he
  have hown := ownFork_of_lodged (lodged_evalFields hblind branch path)
  obtain ⟨i, hi⟩ := List.mem_iff_getElem?.1 he
  have hpart : (evalFields fields branch path)[i]? =
      some (onFork e.2 branch (path.child (.key (outputKey e.1))) (evalTemplate e.2)) := by
    rw [evalFields_eq_map, List.getElem?_map, hi, Option.map_some]
  obtain ⟨v, hv, hone⟩ := isolated_at hs hm hb hpending hown h hpart
  refine ⟨_, run_single hone, lookup_assemble_zip hnodup ?_ ?_ hv included⟩
  · rw [← (isolated_of_ownFork hs hm hb hpending hown h).length_eq, evalFields_eq_map, List.length_map,
      List.length_map]
  · rw [List.getElem?_map, hi, Option.map_some]

/-- So have the elements of a list. -/
theorem elements_isolated (hb : (m.node? branch).isSome = true) (hpending : (m.store branch).pending = [])
    {items : List Template} (hblind : blindItems items) {path : Path} {values : List (List Value)}
    (h : (m.run (Prog.parallel (evalItems items branch path 0))).1 = some (.ok values)) :
    m.ElementsAlone branch path items values := by
  have hown := ownFork_of_lodged (lodged_evalItems hblind branch path 0)
  refine ⟨?_, fun i t ht => ?_⟩
  · rw [← (isolated_of_ownFork hs hm hb hpending hown h).length_eq, length_evalItems]
  · obtain ⟨p, hp, halone⟩ := getElem?_evalItems (i := 0) ht branch path
    obtain ⟨w, hw, hone⟩ := isolated_at hs hm hb hpending hown h hp
    rw [Nat.zero_add] at halone
    exact ⟨w, hw, halone ▸ hone⟩

/-- So have the items of the collection of `arrayMap`. -/
theorem items_isolated (hb : (m.node? branch).isSome = true) (hpending : (m.store branch).pending = [])
    {element : Route → Path → Prog (Except ExecutionError Value)} (helement : ∀ route branch path,
      Prog.Alike route (SameResult (ExecutionError.Like route) Eq) (element (route ++ branch) path)
        (element branch path)) {items : List Value} {path : Path} {values : List Value}
    (h : (m.run (Prog.parallel (items.mapIdx (evalItem element branch path)))).1 = some (.ok values)) :
    m.ItemsAlone element branch path items values := by
  have hown := ownFork_of_lodged (lodged_mapIdx helement branch path items)
  refine ⟨?_, fun i item hitem => ?_⟩
  · rw [← (isolated_of_ownFork hs hm hb hpending hown h).length_eq, List.length_mapIdx]
  · refine isolated_at hs hm hb hpending hown h ?_
    rw [List.getElem?_mapIdx, hitem, Option.map_some]

/-- **Siblings are isolated.** Whatever has run before, and whatever still runs:

* if an object has been evaluated, then so have its directives, and if no value of the branch that they leave still
  runs, each field has come to what it comes to there where all other fields are removed;
* if a list has been evaluated on a branch no value of which still runs, then each element has come to what it comes to
  there where all other elements are removed;
* if an object has been evaluated for the collection of `arrayMap`, then so has the action that answers it, and if no
  value of the branch that it leaves still runs, each item has come to what it comes to there where all other items are
  removed. -/
theorem siblings_isolated (hb : (m.node? branch).isSome = true) (path : Path) :
    (∀ (directives : Directives) (fields : List (String × Template)) (v : Value),
      (Template.object directives fields).Blind → directives.Local → (fields.map fun e => outputKey e.1).Nodup →
      (m.run (evalTemplate (.object directives fields) branch path)).1 = some (.ok v) →
      ∃ own included m' entries, m.run (directives.run branch path) = (some (.ok (own, included)), m') ∧
        v = .map entries ∧ ((m'.store own).pending = [] → m'.FieldsAlone own path fields entries)) ∧
    (∀ (items : List Template) (v : Value),
      (Template.list items).Blind → (m.store branch).pending = [] →
      (m.run (evalTemplate (.list items) branch path)).1 = some (.ok v) →
      ∃ values, v = .list (flattenItems values) ∧ m.ElementsAlone branch path items values) ∧
    (∀ (setup include? : Option Action) (action : Action) (fields : List (String × Template)) (values : List Value),
      (Template.object ⟨setup, include?, some action⟩ fields).Blind → action.Local →
      (m.run (evalArrayMap action (evalTemplate (.object ⟨setup, include?, none⟩ fields)) branch path)).1 =
        some (.ok values) →
      ∃ completed items m', m.run (executeAction action branch (path.directive "array_map")) =
          (some (.ok completed), m') ∧ sourceItems? completed.value = some items ∧
        ((m'.store completed.branch).pending = [] →
          m'.ItemsAlone (evalTemplate (.object ⟨setup, include?, none⟩ fields)) completed.branch path items values)) := by
  refine ⟨fun directives fields v hblind hlocal hnodup h => ?_, fun items v hblind hpending h => ?_,
    fun setup include? action fields values hblind hlocal h => ?_⟩
  · rw [evalTemplate_object] at h
    obtain ⟨⟨own, included⟩, m', hdirectives, hparts⟩ := ok_of_run_andThen h
    obtain ⟨values, hvalues, rfl⟩ := run_evalParts hparts
    refine ⟨own, included, m', _, hdirectives, rfl, fun hpending => ?_⟩
    obtain ⟨⟨past', hs'⟩, hm', hown⟩ :=
      leaves_of_run (f := fun r => r.1) hs hm hb (fun T hT => hlocal.run hT path) hdirectives
    exact fields_isolated hs' hm' hown hpending hblind.2 hnodup hvalues included
  · obtain ⟨values, m', hvalues, hv⟩ := ok_of_run_andThen (evalTemplate_list items branch path ▸ h)
    rw [run_done] at hv
    cases hv
    exact ⟨values, rfl, elements_isolated hs hm hb hpending hblind (congrArg Prod.fst hvalues)⟩
  · rw [evalArrayMap_eq] at h
    obtain ⟨completed, m', haction, hspread⟩ := ok_of_run_andThen h
    obtain ⟨items, hitems, hvalues⟩ := run_spreadItems hspread
    refine ⟨completed, items, m', haction, hitems, fun hpending => ?_⟩
    obtain ⟨⟨past', hs'⟩, hm', hown⟩ :=
      leaves_of_run (f := Completed.branch) hs hm hb (fun T hT => hlocal.execute hT _) haction
    exact items_isolated hs' hm' hown hpending (alike_element hblind) hvalues

end Steady

end Machine

/-! ## A field that looks for what its sibling has set -/

/-- Sets a key and answers a list. -/
def settingAction (key : String) : Action := do
  Prog.set [] key (.bool true)
  return .ok (.value (.list [.bool true, .bool false]))

/-- Answers whether a key is set. -/
def lookingAction (key : String) : Action := do
  return .ok (.value (.bool (← Prog.has [] key)))

theorem blind_settingAction (key : String) : (settingAction key).Blind :=
  Prog.Alike.operate (.set [] key (.bool true)) rfl fun _ => .done (.ok rfl)

theorem blind_lookingAction (key : String) : (lookingAction key).Blind :=
  Prog.Alike.operate (.has [] key) rfl fun _ => .done (.ok rfl)

theorem local_settingAction (key : String) : (settingAction key).Local := by
  intro T own hown
  refine .operate (.set [] key (.bool true)) (by simpa [Op.branch] using hown) fun _ _ => .done ?_
  intro output heq further hfurther
  cases heq
  cases hfurther

/-- Two siblings, the second of which looks for what the first has set. -/
def settingBesideLooking : List (String × Template) :=
  [("set", .action (settingAction "own")), ("found", .action (lookingAction "own"))]

/-- Directives that set something else first. -/
def settingFirst : Directives := ⟨some (settingAction "shared"), none, none⟩

/-- The second of two siblings does not find what the first has set, neither in an object nor in a list nor in the
objects for the items of a collection. -/
theorem siblings_isolated_setting :
    ((Machine.start .blank).run (settingFirst.run [] .root)).2.FieldsAlone [0] .root settingBesideLooking
        [("set", .list [.bool true, .bool false]), ("found", .bool false)] ∧
      (∃ values, flattenItems values = [.list [.bool true, .bool false], .bool false] ∧
        (Machine.start .blank).ElementsAlone [] .root (settingBesideLooking.map Prod.snd) values) ∧
      ((Machine.start .blank).run (executeAction (settingAction "shared") []
        (Path.root.directive "array_map"))).2.ItemsAlone (evalTemplate (.object .none settingBesideLooking)) [0] .root
          [.bool true, .bool false] [.map [("set", .list [.bool true, .bool false]), ("found", .bool false)],
            .map [("set", .list [.bool true, .bool false]), ("found", .bool false)]] := by
  have hblind : blindFields settingBesideLooking := ⟨blind_settingAction _, blind_lookingAction _, trivial⟩
  have hsetup : ∀ action ∈ settingFirst.setup, action = settingAction "shared" := fun _ h => (Option.some.inj h).symm
  obtain ⟨hobject, hlist, hcollection⟩ := Machine.siblings_isolated (Machine.steady_start .blank)
    (Machine.contained_start .blank) (show ((Machine.start .blank).node? []).isSome = true from rfl) .root
  refine ⟨?_, ?_, ?_⟩
  · obtain ⟨own, included, m', entries, hdirectives, hv, hall⟩ := hobject settingFirst settingBesideLooking _
      ⟨⟨fun action h => hsetup action h ▸ blind_settingAction _, nofun, nofun⟩, hblind⟩
      ⟨fun action h => hsetup action h ▸ local_settingAction _, nofun, nofun⟩ (by decide)
      (congrArg Prod.fst (Machine.drive_of_result rfl _))
    have hrun : (Machine.start .blank).run (settingFirst.run [] .root) = _ := Machine.drive_of_result rfl _
    rw [hrun] at hdirectives ⊢
    cases hdirectives
    cases hv
    exact hall rfl
  · obtain ⟨values, hv, hall⟩ := hlist (settingBesideLooking.map Prod.snd) _
      ⟨blind_settingAction _, blind_lookingAction _, trivial⟩ rfl (congrArg Prod.fst (Machine.drive_of_result rfl _))
    exact ⟨values, (Value.list.inj hv).symm, hall⟩
  · obtain ⟨completed, items, m', haction, hitems, hall⟩ := hcollection none none (settingAction "shared")
      settingBesideLooking _ ⟨⟨nofun, nofun, fun action h => (Option.some.inj h) ▸ blind_settingAction _⟩, hblind⟩
      (local_settingAction _) (congrArg Prod.fst (Machine.drive_of_result rfl _))
    have hrun : (Machine.start .blank).run (executeAction (settingAction "shared") []
      (Path.root.directive "array_map")) = _ := Machine.drive_of_result rfl _
    rw [hrun] at haction ⊢
    cases haction
    cases hitems
    exact hall rfl

end MediaQuery
