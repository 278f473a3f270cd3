import MediaQuery.Proofs.Template.Outcome

/-!
# Excluded values

A field or an element whose value is excluded is left out, and a field takes what has been included under its key with
it. What `include` has answered is merged as it is. So no list that a template assembles has an excluded element, at any
depth, and a map has an excluded entry only where `include` has answered it under a key of no field
(`Template.unmarked_of_run`); if it answers none, there is none (`isExclude_of_unmarked`).
-/

namespace MediaQuery

/-! ## Putting an object together -/

/-- What an insertion leaves: the new entry and old ones, which are of other names if each name was there once. -/
theorem Fields.of_mem_insert {α : Type*} {name : String} {value : α} {fields : List (String × α)} {e : String × α}
    (h : e ∈ Fields.insert name value fields) :
    e = (name, value) ∨ e ∈ fields ∧ ((Fields.names fields).Nodup → e.1 ≠ name) := by
  induction fields with
  | nil => exact .inl (List.mem_singleton.1 h)
  | cons f rest ih =>
    obtain ⟨n, w⟩ := f
    unfold Fields.insert at h
    split at h
    · next hn =>
      rcases List.mem_cons.1 h with rfl | hmem
      · exact .inl (by rw [hn])
      · refine .inr ⟨List.mem_cons_of_mem _ hmem, fun hnodup he => (List.nodup_cons.1 hnodup).1 ?_⟩
        rw [hn, ← he]
        show e.1 ∈ _
        exact List.mem_map_of_mem hmem
    · next hn =>
      rcases List.mem_cons.1 h with rfl | hmem
      · exact .inr ⟨List.mem_cons_self, fun _ => hn⟩
      · exact (ih hmem).imp_right fun hold =>
          ⟨List.mem_cons_of_mem _ hold.1, fun hnodup => hold.2 (List.nodup_cons.1 hnodup).2⟩

theorem Fields.nodup_erase {α : Type*} {fields : List (String × α)} (name : String)
    (h : (Fields.names fields).Nodup) : (Fields.names (Fields.erase name fields)).Nodup :=
  h.sublist (List.filter_sublist.map _)

/-- **What an object is put together from.** Every entry is a field that is not excluded, or one that has been
included; and a field overrides or removes what has been included under its key. -/
theorem of_mem_assemble {included fields : List (String × Value)} {e : String × Value}
    (h : e ∈ assemble included fields) :
    e ∈ fields ∧ e.2.isExclude = false ∨
      e ∈ included ∧ ((Fields.names included).Nodup → e.1 ∉ Fields.names fields) := by
  induction fields generalizing included with
  | nil => exact .inr ⟨h, fun _ => List.not_mem_nil⟩
  | cons f rest ih =>
    have hrest : e ∈ assemble
        (if f.2.isExclude then Fields.erase f.1 included else Fields.insert f.1 f.2 included) rest := h
    rcases ih hrest with ⟨hmem, he⟩ | ⟨hmem, hname⟩
    · exact .inl ⟨List.mem_cons_of_mem _ hmem, he⟩
    · cases hf : f.2.isExclude with
      | true =>
        rw [hf, if_pos rfl] at hmem hname
        have hold := List.mem_filter.1 hmem
        refine .inr ⟨hold.1, fun hnodup hin => ?_⟩
        rcases List.mem_cons.1 hin with he | hin
        · exact absurd he (of_decide_eq_true hold.2)
        · exact hname (Fields.nodup_erase f.1 hnodup) hin
      | false =>
        rw [hf, if_neg Bool.false_ne_true] at hmem hname
        rcases Fields.of_mem_insert hmem with rfl | ⟨hold, hne⟩
        · exact .inl ⟨List.mem_cons_self, hf⟩
        · refine .inr ⟨hold, fun hnodup hin => ?_⟩
          rcases List.mem_cons.1 hin with he | hin
          · exact hne hnodup he
          · exact hname (Fields.nodup_insert hnodup) hin

/-! ## Where entries and elements come from -/

/-- An entry that an object has from its `include`: it is in a map that has been answered, not as the current value, and
under a key of no field. -/
def Brings (answers : Action → List (String × Value) → Prop) (include? : Option Action) (keys : List String)
    (e : String × Value) : Prop :=
  ∃ action entries, include? = some action ∧ answers action entries ∧ e ∈ entries ∧ e.1 ≠ currentKey ∧
    ((Fields.names entries).Nodup → e.1 ∉ keys)

section Unmarked

variable (answers : Action → List (String × Value) → Prop)

mutual

/-- A value that a template may have assembled, where `answers` says what includes have answered: every entry of a map
is that of a field, and then it is not excluded, or one that has been included; and no element of a list is excluded. -/
def Template.Unmarked : Template → Value → Prop
  | .scalar v, value => value = v
  | .action _, _ => True
  | .object directives fields, value => ∃ entries, value = .map entries ∧ ∀ e ∈ entries,
    unmarkedField fields e ∨ Brings answers directives.include? (fields.map fun e => outputKey e.1) e
  | .list items, value => ∃ values, value = .list values ∧ ∀ v ∈ values, v.isExclude = false ∧ unmarkedItem items v

/-- An entry of one of the fields. -/
def unmarkedField : List (String × Template) → String × Value → Prop
  | [], _ => False
  | (key, t) :: rest, e => e.1 = outputKey key ∧ e.2.isExclude = false ∧ t.Unmarked e.2 ∨ unmarkedField rest e

/-- A value of one of the elements; one with `arrayMap` has any number of them. -/
def unmarkedItem : List Template → Value → Prop
  | [], _ => False
  | t :: rest, v => t.Unmarked v ∨ unmarkedItem rest v

end

end Unmarked

variable {answers : Action → List (String × Value) → Prop}

theorem isExclude_of_unmarkedField {fields : List (String × Template)} {e : String × Value}
    (h : unmarkedField answers fields e) : e.2.isExclude = false := by
  induction fields with
  | nil => exact h.elim
  | cons f rest ih =>
    rcases h with ⟨-, he, -⟩ | h
    · exact he
    · exact ih h

/-- An object whose `include` answers no excluded values has no excluded entry. -/
theorem isExclude_of_unmarked {directives : Directives} {fields : List (String × Template)}
    {entries : List (String × Value)} (h : (Template.object directives fields).Unmarked answers (.map entries))
    (hincluded : ∀ action ∈ directives.include?, ∀ included, answers action included →
      ∀ e ∈ included, e.2.isExclude = false) : ∀ e ∈ entries, e.2.isExclude = false := by
  obtain ⟨_, heq, hentries⟩ := h
  cases heq
  intro e he
  rcases hentries e he with hfield | ⟨action, included, haction, hanswers, hmem, -⟩
  · exact isExclude_of_unmarkedField hfield
  · exact hincluded action haction included hanswers e hmem

/-- The values of an element and those of the ones after it. -/
theorem unmarkedItem_cons {t : Template} {rest : List Template} {first : List Value} {more : List (List Value)}
    (hfirst : ∀ v ∈ first, t.Unmarked answers v) (hmore : ∀ v ∈ more.flatten, unmarkedItem answers rest v) :
    ∀ v ∈ (first :: more).flatten, unmarkedItem answers (t :: rest) v := by
  intro v hv
  rw [List.flatten_cons, List.mem_append] at hv
  exact hv.imp (hfirst v) (hmore v)

/-! ## Evaluations -/

/-- A map that an action may answer on a machine that has come of the given one. -/
def Answers (base : Route) (m : Machine) (action : Action) (entries : List (String × Value)) : Prop :=
  ∃ branch path m₁ completed m₂, m.Evolves m₁ ∧ (executeAction action branch path).ComesTo base m₁ (.ok completed) m₂ ∧
    completed.value = some (.map entries)

variable {base branch : Route} {path : Path} {m₀ m m' : Machine} {v : Value}

/-- What has been included comes from what the action has answered. -/
theorem answers_of_runInclude {include? : Option Action} {setupWrote : Bool} {r : Route × List (String × Value)}
    (hm : m₀.Evolves m) (h : (runInclude include? setupWrote branch path).ComesTo base m (.ok r) m') :
    r.2 = [] ∨ ∃ action entries, include? = some action ∧ Answers base m₀ action entries ∧
      r.2 = entries.filter fun e => e.1 ≠ currentKey := by
  cases include? with
  | none => exact .inl (congrArg Prod.snd (Except.ok.inj h.1))
  | some action =>
    obtain ⟨completed, m₁, haction, hmerge⟩ := comesTo_runInclude h
    obtain ⟨entries, merged, m₂, hvalue, -, -, rfl⟩ := comesTo_mergeIncluded hmerge
    exact .inr ⟨action, entries, rfl, ⟨branch, _, m, completed, m₁, hm, haction, hvalue⟩, rfl⟩

/-- **An object.** Its entries are those of fields, and those that have been included. -/
theorem unmarked_evalObject {directives : Directives} {keys : List String}
    {fields : Route → List (Prog (Except ExecutionError Value))} {good : String × Value → Prop}
    (hfields : ∀ branch m m' values, m₀.Evolves m → List.Forall₂ (Gives base m m') (fields branch) values →
      values.length = keys.length ∧ ∀ e ∈ keys.zip values, e.2.isExclude = false → good e)
    (hm : m₀.Evolves m) (h : (evalObject directives keys fields branch path).ComesTo base m (.ok v) m') :
    ∃ entries, v = .map entries ∧ ∀ e ∈ entries, good e ∨ Brings (Answers base m₀) directives.include? keys e := by
  obtain ⟨s, m₁, r, m₂, values, hsetup, hinclude, hvalues, rfl⟩ := comesTo_evalObject h
  have hm₁ := hm.trans hsetup.evolves
  obtain ⟨hlength, hgood⟩ := hfields r.1 m₂ m' values (hm₁.trans hinclude.evolves) hvalues
  have hnames : Fields.names (keys.zip values) = keys := List.map_fst_zip (by omega)
  refine ⟨_, rfl, fun e he => ?_⟩
  rcases of_mem_assemble he with ⟨hmem, hex⟩ | ⟨hmem, hname⟩
  · exact .inl (hgood e hmem hex)
  · rw [hnames] at hname
    rcases answers_of_runInclude hm₁ hinclude with hnone | ⟨action, entries, haction, hanswers, hr⟩
    · rw [hnone] at hmem
      cases hmem
    · rw [hr] at hmem hname
      have hin := List.mem_filter.1 hmem
      exact .inr ⟨action, entries, haction, hanswers, hin.1, of_decide_eq_true hin.2, fun hnodup =>
        hname (hnodup.sublist (List.filter_sublist.map _))⟩

/-- An element of a list that is no collection of its own. -/
theorem unmarked_single {t : Template} {first : List Value} {eval : Route → Path → Prog (Except ExecutionError Value)}
    (heval : ∀ branch m m' v, m₀.Evolves m → (eval branch path).ComesTo base m (.ok v) m' →
      t.Unmarked (Answers base m₀) v) (hm : m₀.Evolves m)
    (h : Gives base m m' (do return (← onFork t branch path eval).map ([·])) first) :
    ∀ v ∈ first, t.Unmarked (Answers base m₀) v := by
  obtain ⟨m₁, m₂, hbefore, hcomes, -⟩ := h
  obtain ⟨v, hv, rfl⟩ := Prog.comesTo_map.1 hcomes
  obtain ⟨own, m₃, hfork, hcomes'⟩ := comesTo_onFork hv
  exact List.forall_mem_singleton.2 (heval own m₃ m₂ v ((hm.trans hbefore).trans hfork) hcomes')

/-- An element with `arrayMap`, one object for each item. -/
theorem unmarked_spread {action : Action} {element : Route → Path → Prog (Except ExecutionError Value)} {t : Template}
    {first : List Value} (helement : ∀ branch path m m' v, m₀.Evolves m →
      (element branch path).ComesTo base m (.ok v) m' → t.Unmarked (Answers base m₀) v) (hm : m₀.Evolves m)
    (h : Gives base m m' (evalArrayMap action element branch path) first) :
    ∀ v ∈ first, t.Unmarked (Answers base m₀) v := by
  intro v hv
  obtain ⟨m₁, m₂, hbefore, hcomes, -⟩ := h
  obtain ⟨completed, m₃, items, haction, -, hitems⟩ := comesTo_evalArrayMap hcomes
  obtain ⟨k, hk, rfl⟩ := List.mem_iff_getElem.1 hv
  obtain ⟨m₄, m₅, hbehind, hitem, -⟩ := hitems.get (hitems.length_eq ▸ hk) hk
  rw [List.get_eq_getElem, List.getElem_mapIdx] at hitem
  obtain ⟨own, m₆, hfork, hvalue⟩ := comesTo_evalItem hitem
  exact helement own _ m₆ m₅ _ ((((hm.trans hbefore).trans haction.evolves).trans hbehind).trans hfork) hvalue

mutual

/-- **A template assembles what its parts have come to.** -/
theorem unmarked_evalTemplate : (t : Template) → {branch : Route} → {path : Path} → {m m' : Machine} → {v : Value} →
    m₀.Evolves m → (evalTemplate t branch path).ComesTo base m (.ok v) m' → t.Unmarked (Answers base m₀) v
  | .scalar _, _, _, _, _, _, _, h => Except.ok.inj h.1
  | .action _, _, _, _, _, _, _, _ => trivial
  | .object _ fields, _, _, _, _, _, hm, h => by
    rw [evalTemplate] at h
    exact unmarked_evalObject (fun _ _ _ _ hm' hvalues => unmarked_evalFields fields hm' hvalues) hm h
  | .list items, _, _, _, _, _, hm, h => by
    obtain ⟨values, hvalues, rfl⟩ := comesTo_list h
    refine ⟨_, rfl, fun v hv => ?_⟩
    obtain ⟨hmem, hex⟩ := List.mem_filter.1 hv
    exact ⟨by simpa using hex, unmarked_evalItems items hm hvalues v hmem⟩

theorem unmarked_evalFields : (fields : List (String × Template)) → {branch : Route} → {path : Path} →
    {m m' : Machine} → {values : List Value} → m₀.Evolves m →
    List.Forall₂ (Gives base m m') (evalFields fields branch path) values →
      values.length = (fields.map fun e => outputKey e.1).length ∧
        ∀ e ∈ (fields.map fun e => outputKey e.1).zip values, e.2.isExclude = false →
          unmarkedField (Answers base m₀) fields e
  | [], _, _, _, _, _, _, .nil => ⟨rfl, nofun⟩
  | (key, t) :: rest, _, _, _, _, _, hm, .cons hfirst hrest => by
    obtain ⟨hlength, hgood⟩ := unmarked_evalFields rest hm hrest
    refine ⟨congrArg (· + 1) hlength, fun e he hex => ?_⟩
    rcases List.mem_cons.1 he with rfl | he
    · obtain ⟨m₁, m₂, hbefore, hcomes, -⟩ := hfirst
      obtain ⟨own, m₃, hfork, heval⟩ := comesTo_onFork hcomes
      exact .inl ⟨rfl, hex, unmarked_evalTemplate t ((hm.trans hbefore).trans hfork) heval⟩
    · exact .inr (hgood e he hex)

theorem unmarked_evalItems : (items : List Template) → {branch : Route} → {path : Path} → {i : Nat} →
    {m m' : Machine} → {values : List (List Value)} → m₀.Evolves m →
    List.Forall₂ (Gives base m m') (evalItems items branch path i) values →
      ∀ v ∈ values.flatten, unmarkedItem (Answers base m₀) items v
  | [], _, _, _, _, _, _, _, .nil => nofun
  | .object ⟨_, _, some _⟩ fields :: rest, _, _, _, _, _, _, hm, h => by
    obtain ⟨first, more, hfirst, hrest, rfl⟩ := List.forall₂_cons_left_iff.1 h
    refine unmarkedItem_cons (unmarked_spread (fun _ _ _ _ _ hm' hvalue => ?_) hm hfirst)
      (unmarked_evalItems rest hm hrest)
    have hobject := unmarked_evalObject (fun _ _ _ _ hm' hvalues => unmarked_evalFields fields hm' hvalues) hm' hvalue
    exact hobject
  | .object ⟨setup, include?, none⟩ fields :: rest, _, _, _, _, _, _, hm, h => by
    obtain ⟨first, more, hfirst, hrest, rfl⟩ := List.forall₂_cons_left_iff.1 h
    exact unmarkedItem_cons
      (unmarked_single (fun _ _ _ _ => unmarked_evalTemplate (.object ⟨setup, include?, none⟩ fields)) hm hfirst)
      (unmarked_evalItems rest hm hrest)
  | .scalar w :: rest, _, _, _, _, _, _, hm, h => by
    obtain ⟨first, more, hfirst, hrest, rfl⟩ := List.forall₂_cons_left_iff.1 h
    exact unmarkedItem_cons (unmarked_single (fun _ _ _ _ => unmarked_evalTemplate (.scalar w)) hm hfirst)
      (unmarked_evalItems rest hm hrest)
  | .action action :: rest, _, _, _, _, _, _, hm, h => by
    obtain ⟨first, more, hfirst, hrest, rfl⟩ := List.forall₂_cons_left_iff.1 h
    exact unmarkedItem_cons (unmarked_single (fun _ _ _ _ => unmarked_evalTemplate (.action action)) hm hfirst)
      (unmarked_evalItems rest hm hrest)
  | .list items :: rest, _, _, _, _, _, _, hm, h => by
    obtain ⟨first, more, hfirst, hrest, rfl⟩ := List.forall₂_cons_left_iff.1 h
    exact unmarkedItem_cons (unmarked_single (fun _ _ _ _ => unmarked_evalTemplate (.list items)) hm hfirst)
      (unmarked_evalItems rest hm hrest)

end

/-- **Where excluded values are left.** Whatever template is evaluated on whatever machine: no list that it assembles has
an excluded element, and every entry of a map that it assembles is that of a field, and not excluded, or one that its
`include` has answered, under a key of no field. So it is at any depth and for the objects of `arrayMap` as well. -/
theorem Template.unmarked_of_run {t : Template} (h : m.run (t.evaluate branch) = (some (.ok v), m')) :
    t.Unmarked (Answers [] m) v := by
  obtain ⟨path, hcomes⟩ := comesTo_evaluate (Machine.comesTo_of_run h)
  exact unmarked_evalTemplate t (.refl m) hcomes

/-- An object that includes excluded values, one of them under the key of a field. -/
def markedTemplate : Template :=
  .object ⟨none, some (.done (.ok (.value (.map [("a", .exclude), ("b", .exclude)])))), none⟩
    [("b", .list [.scalar .exclude, .scalar .null]), ("c", .scalar .exclude)]

/-- The entry that no field has the key of is left. -/
theorem markedTemplate_unmarked :
    (Machine.start .blank).run (markedTemplate.evaluate []) =
      (some (.ok (.map [("a", .exclude), ("b", .list [.null])])),
        ((markedTemplate.evaluate []).start [] (.start .blank)).2) ∧
      markedTemplate.Unmarked (Answers [] (.start .blank)) (.map [("a", .exclude), ("b", .list [.null])]) := by
  have hrun : (Machine.start .blank).run (markedTemplate.evaluate []) =
      (some (.ok (.map [("a", .exclude), ("b", .list [.null])])), _) := Machine.drive_of_result rfl _
  exact ⟨hrun, Template.unmarked_of_run hrun⟩

/-- What `include` answers is merged with its excluded values. -/
theorem excluded_of_include : ∃ entries,
    ((Machine.start .blank).run (markedTemplate.evaluate [])).1 = some (.ok (.map entries)) ∧
      ∃ e ∈ entries, e.2.isExclude = true :=
  ⟨[("a", .exclude), ("b", .list [.null])], congrArg Prod.fst (Machine.drive_of_result rfl _), ("a", .exclude),
    List.mem_cons_self, rfl⟩

end MediaQuery
