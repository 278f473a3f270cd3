import MediaQuery.Proofs.Fields.Sorted
import MediaQuery.Proofs.Template.Marker
import MediaQuery.Proofs.Template.Passage
import MediaQuery.Proofs.Template.SettledValue

/-!
# How the entries of an object are put together

An object that has been evaluated has entries of what `include` has answered and of its fields (`Composition`). Of
fields with one output key the last decides: its value stands under the key, or nothing does if it is excluded
(`lookup_assemble_last`). What has been included comes first, in its order, and keeps its place where a field overrides
it; then come the other fields (`names_assemble`). So where the output keys of the fields are distinct, the entries and
their order are known from the answer and the values (`assembled_of_evaluation`).
-/

namespace MediaQuery

open Machine (Moment Steady)

open Prog

/-! ## Names -/

namespace Fields

variable {α : Type} {name : String} {value : α} {fields : List (String × α)}

theorem names_snoc (fields : List (String × α)) (name : String) (value : α) :
    names (fields ++ [(name, value)]) = names fields ++ [name] :=
  List.map_append

theorem names_erase (name : String) (fields : List (String × α)) :
    names (erase name fields) = (names fields).filter (· ≠ name) := by
  unfold names erase
  rw [List.filter_map]
  rfl

/-- An insertion in place leaves the names as they are. -/
theorem names_insert_of_mem (h : name ∈ names fields) : names (insert name value fields) = names fields := by
  induction fields with
  | nil => cases h
  | cons e rest ih =>
    obtain ⟨n, v⟩ := e
    by_cases hn : n = name
    · rw [insert, if_pos hn]
      rfl
    · have hrest : name ∈ names rest := (List.mem_cons.1 h).resolve_left (Ne.symm hn)
      rw [insert, if_neg hn, names_cons, names_cons, ih hrest]

theorem not_mem_names_of_lookup (h : fields.lookup name = none) : name ∉ names fields := by
  intro hname
  obtain ⟨e, he, rfl⟩ := List.mem_map.1 hname
  have hne := List.lookup_eq_none_iff.1 h e he
  simp at hne

end Fields

/-! ## Entries -/

variable {included fields : List (String × Value)} {key : String} {v : Value}

/-- Some field excludes a key. -/
def Excludes (fields : List (String × Value)) (key : String) : Bool := fields.any fun e => e.1 = key && e.2.isExclude

/-- The fields that are not excluded. -/
def present (fields : List (String × Value)) : List (String × Value) := fields.filter fun e => !e.2.isExclude

theorem excludes_of_not_mem (h : key ∉ Fields.names fields) : Excludes fields key = false := by
  refine List.any_eq_false.2 fun e he => ?_
  have hne : e.1 ≠ key := by
    rintro rfl
    exact h (List.mem_map_of_mem he)
  simp [hne]

theorem mem_names_of_present (h : key ∈ Fields.names (present fields)) : key ∈ Fields.names fields := by
  obtain ⟨e, he, rfl⟩ := List.mem_map.1 h
  exact List.mem_map_of_mem (List.mem_filter.1 he).1

/-- Entries stay of distinct names. -/
theorem nodup_assemble (h : (Fields.names included).Nodup) (fields : List (String × Value)) :
    (Fields.names (assemble included fields)).Nodup := by
  induction fields generalizing included with
  | nil => exact h
  | cons e rest ih =>
    obtain ⟨k, w⟩ := e
    rw [assemble_cons]
    apply ih
    split
    · exact Fields.nodup_erase k h
    · exact Fields.nodup_insert h

/-- **Of fields with one key the last decides.** -/
theorem lookup_assemble_last {front rest : List (String × Value)} (h : key ∉ Fields.names rest)
    (included : List (String × Value)) :
    (assemble included (front ++ (key, v) :: rest)).lookup key = if v.isExclude then none else some v := by
  induction front generalizing included with
  | nil =>
    rw [List.nil_append, assemble_cons, lookup_assemble_of_not_mem h]
    split
    · rw [Fields.lookup_erase, if_pos rfl]
    · rw [Fields.lookup_insert, if_pos rfl]
  | cons e front ih =>
    rw [List.cons_append, assemble_cons]
    exact ih _

/-- Names are told apart from a name that is not among them. -/
theorem filter_names_congr {p q : String → Bool} {names : List String} (h : key ∉ names)
    (hpq : ∀ k, k ≠ key → p k = q k) : names.filter p = names.filter q := by
  refine List.filter_congr fun k hk => hpq k ?_
  rintro rfl
  exact h hk

/-- A field that is excluded takes its key away. -/
theorem names_exclude {rest : List (String × Value)} (hv : v.isExclude = true) (hkey : key ∉ Fields.names rest) :
    (Fields.names (Fields.erase key included)).filter (fun k => !Excludes rest k) ++
        (Fields.names (present rest)).filter (fun k => k ∉ Fields.names (Fields.erase key included)) =
      (Fields.names included).filter (fun k => !Excludes ((key, v) :: rest) k) ++
        (Fields.names (present ((key, v) :: rest))).filter (fun k => k ∉ Fields.names included) := by
  have hpresent : present ((key, v) :: rest) = present rest := by simp [present, hv]
  have hexcludes (k : String) : Excludes ((key, v) :: rest) k = (decide (key = k) || Excludes rest k) := by
    simp [Excludes, hv]
  rw [hpresent, Fields.names_erase, List.filter_filter]
  congr 1
  · refine List.filter_congr fun k _ => ?_
    rw [hexcludes]
    by_cases hk : k = key
    · simp [hk]
    · simp [hk, Ne.symm hk]
  · exact filter_names_congr (fun hmem => hkey (mem_names_of_present hmem)) fun k hk => by simp [hk]

/-- A field that is not excluded keeps the place of its key, or it comes next. -/
theorem names_present {rest : List (String × Value)} (hv : v.isExclude = false) (hkey : key ∉ Fields.names rest) :
    (Fields.names (Fields.insert key v included)).filter (fun k => !Excludes rest k) ++
        (Fields.names (present rest)).filter (fun k => k ∉ Fields.names (Fields.insert key v included)) =
      (Fields.names included).filter (fun k => !Excludes ((key, v) :: rest) k) ++
        (Fields.names (present ((key, v) :: rest))).filter (fun k => k ∉ Fields.names included) := by
  have hpresent : present ((key, v) :: rest) = (key, v) :: present rest := by simp [present, hv]
  have hexcludes (k : String) : Excludes ((key, v) :: rest) k = Excludes rest k := by simp [Excludes, hv]
  simp only [hexcludes]
  rw [hpresent, Fields.names_cons]
  by_cases hin : key ∈ Fields.names included
  · rw [Fields.names_insert_of_mem hin, List.filter_cons_of_neg (by simpa using hin)]
  · have hkept : [key].filter (fun k => !Excludes rest k) = [key] := by simp [excludes_of_not_mem hkey]
    rw [Fields.insert_of_not_mem hin, Fields.names_snoc, List.filter_append, hkept,
      List.filter_cons_of_pos (by simpa using hin), List.append_assoc, List.singleton_append]
    congr 2
    exact filter_names_congr (fun hmem => hkey (mem_names_of_present hmem)) fun k hk => by simp [hk]

/-- **The order of the entries.** What has been included comes first, without what a field excludes; then come the
fields of other names that are not excluded. -/
theorem names_assemble (h : (Fields.names fields).Nodup) (included : List (String × Value)) :
    Fields.names (assemble included fields) = (Fields.names included).filter (fun k => !Excludes fields k) ++
      (Fields.names (present fields)).filter (fun k => k ∉ Fields.names included) := by
  induction fields generalizing included with
  | nil =>
    have hall : (Fields.names included).filter (fun k => !Excludes [] k) = Fields.names included :=
      List.filter_eq_self.2 fun _ _ => rfl
    rw [hall]
    exact (List.append_nil _).symm
  | cons e rest ih =>
    obtain ⟨key, v⟩ := e
    obtain ⟨hkey, hrest⟩ := List.nodup_cons.1 h
    rw [assemble_cons, ih hrest]
    cases hv : v.isExclude with
    | true => exact names_exclude hv hkey
    | false => exact names_present hv hkey

/-! ## Objects -/

/-- How an object has been put together of what `include` has answered and of its fields: the output keys are distinct,
every field stands under its key unless it is excluded, what has been included stays under the keys of no field, and
what has been included comes before the fields that are new. -/
structure Assembled (answer fields entries : List (String × Value)) : Prop where
  distinct : (Fields.names entries).Nodup
  field : ∀ e ∈ fields, e.2.isExclude = false → entries.lookup e.1 = some e.2
  excluded : ∀ e ∈ fields, e.2.isExclude = true → e.1 ∉ Fields.names entries
  kept : ∀ e ∈ answer, e.1 ≠ currentKey → e.1 ∉ Fields.names fields → entries.lookup e.1 = some e.2
  only : ∀ k ∈ Fields.names entries, k ∈ Fields.names fields ∨ k ∈ Fields.names answer ∧ k ≠ currentKey
  order : Fields.names entries =
    (Fields.names answer).filter (fun k => k ≠ currentKey && !Excludes fields k) ++
      (Fields.names (present fields)).filter (fun k => k = currentKey || k ∉ Fields.names answer)

/-- The entries of an answer that go into the object. -/
abbrev includable (answer : List (String × Value)) : List (String × Value) := answer.filter fun e => e.1 ≠ currentKey

theorem names_includable (answer : List (String × Value)) :
    Fields.names (includable answer) = (Fields.names answer).filter (· ≠ currentKey) :=
  Fields.names_erase currentKey answer

theorem assembled_of_assemble {answer : List (String × Value)} (hanswer : (Fields.names answer).Nodup)
    (hfields : (Fields.names fields).Nodup) : Assembled answer fields (assemble (includable answer) fields) := by
  have hincluded : (Fields.names (includable answer)).Nodup := Fields.nodup_erase currentKey hanswer
  have horder : Fields.names (assemble (includable answer) fields) =
      (Fields.names answer).filter (fun k => k ≠ currentKey && !Excludes fields k) ++
        (Fields.names (present fields)).filter (fun k => k = currentKey || k ∉ Fields.names answer) := by
    rw [names_assemble hfields, names_includable, List.filter_filter]
    congr 1
    · exact List.filter_congr fun k _ => Bool.and_comm _ _
    · refine List.filter_congr fun k _ => ?_
      by_cases hk : k = currentKey <;> simp [hk]
  constructor
  · exact nodup_assemble hincluded fields
  · intro e he hvalue
    rw [lookup_assemble hfields he, hvalue]
    rfl
  · intro e he hvalue
    apply Fields.not_mem_names_of_lookup
    rw [lookup_assemble hfields he, if_pos hvalue]
  · intro e he hkey hfield
    rw [lookup_assemble_of_not_mem hfield]
    exact Fields.lookup_of_nodup hincluded (List.mem_filter.2 ⟨he, decide_eq_true hkey⟩)
  · intro k hk
    rw [horder, List.mem_append] at hk
    rcases hk with hk | hk
    · obtain ⟨hmem, hk⟩ := List.mem_filter.1 hk
      rw [Bool.and_eq_true, decide_eq_true_eq] at hk
      exact .inr ⟨hmem, hk.1⟩
    · exact .inl (mem_names_of_present (List.mem_filter.1 hk).1)
  · exact horder

variable {base branch : Route} {path : Path} {x y : Moment} {directives : Directives}
  {templates : List (String × Template)} {entries : List (String × Value)}

/-- How an object has been evaluated that has come to the entries: the directives have left a branch and what `include`
has answered, and then each field has got to its value. -/
structure Composition (directives : Directives) (templates : List (String × Template)) (base branch : Route)
    (path : Path) (x : Moment) (entries : List (String × Value)) (y : Moment) where
  own : Route
  answer : List (String × Value)
  values : List Value
  ready : Moment
  prepares : (directives.run branch path).Leads base x (.ok (own, includable answer)) ready
  answers : directives.include? = none ∧ answer = [] ∨ ∃ action setUp completed, directives.include? = some action ∧
    (x.Meanwhile ready fun x y =>
      (executeAction action setUp (path.directive "include")).Leads base x (.ok completed) y) ∧
    completed.value = some (.map answer)
  gives : List.Forall₂ (fun e v => Attains base ready y
    (onFork e.2 own (path.child (.key (outputKey e.1))) (evalTemplate e.2)) v) templates values
  entries_eq : entries = assemble (includable answer) ((templates.map fun e => outputKey e.1).zip values)

namespace Composition

/-- The values of the fields under their output keys. -/
def fieldValues (c : Composition directives templates base branch path x entries y) : List (String × Value) :=
  (templates.map fun e => outputKey e.1).zip c.values

theorem names_fieldValues (c : Composition directives templates base branch path x entries y) :
    Fields.names c.fieldValues = templates.map fun e => outputKey e.1 := by
  apply List.map_fst_zip
  rw [List.length_map, c.gives.length_eq]

end Composition

/-- **An object** that has been evaluated has been put together like that. -/
theorem exists_composition {v : Value}
    (h : (evalTemplate (.object directives templates) branch path).Leads base x (.ok v) y) :
    ∃ entries, v = .map entries ∧ Nonempty (Composition directives templates base branch path x entries y) := by
  obtain ⟨⟨own, included⟩, ready, values, hprepares, hvalues, rfl⟩ := leads_object h
  rw [evalFields_eq_map, List.forall₂_map_left_iff] at hvalues
  obtain ⟨answer, hanswer, rfl⟩ : ∃ answer, (directives.include? = none ∧ answer = [] ∨ ∃ action setUp completed,
      directives.include? = some action ∧ (x.Meanwhile ready fun x y =>
        (executeAction action setUp (path.directive "include")).Leads base x (.ok completed) y) ∧
      completed.value = some (.map answer)) ∧ included = includable answer := by
    obtain ⟨s, x₁, hsetup, hinclude⟩ := leads_andThen.1 hprepares
    cases haction : directives.include? with
    | none =>
      rw [haction] at hinclude
      exact ⟨[], .inl ⟨rfl, rfl⟩, congrArg Prod.snd (Except.ok.inj hinclude.1)⟩
    | some action =>
      rw [haction] at hinclude
      obtain ⟨completed, x₂, answer, hanswers, hafter, hvalue, hincluded⟩ := leads_runInclude hinclude
      exact ⟨answer, .inr ⟨action, s.1, completed, rfl, ⟨x₁, x₂, hsetup.before, hanswers, hafter⟩, hvalue⟩, hincluded⟩
  exact ⟨_, rfl, ⟨⟨own, answer, values, ready, hprepares, hanswer, hvalues, rfl⟩⟩⟩

theorem assembled_of_leads (hkeys : (templates.map fun e => outputKey e.1).Nodup) {v : Value}
    (h : (evalTemplate (.object directives templates) branch path).Leads base x (.ok v) y) :
    ∃ entries, v = .map entries ∧ ∃ c : Composition directives templates base branch path x entries y,
      (Fields.names c.answer).Nodup → Assembled c.answer c.fieldValues entries := by
  obtain ⟨entries, rfl, ⟨c⟩⟩ := exists_composition h
  refine ⟨entries, rfl, c, fun hanswer => ?_⟩
  have hfields : (Fields.names c.fieldValues).Nodup := c.names_fieldValues ▸ hkeys
  have hassembled := assembled_of_assemble hanswer hfields
  rwa [Composition.fieldValues, ← c.entries_eq] at hassembled

/-- **What an object is put together from, and in which order.** Whatever surrounds the evaluation of an object whose
fields have distinct output keys, its entries are known from the map that `include` has answered and the values of the
fields: a field stands under its key, also over what has been included, or takes it away if it is excluded; what has been
included stays under all other keys but the empty one; and the order is that of the answer, and then that of the fields
that are new. So it is for every object in a template, and for a run that evaluates one. -/
theorem assembled_of_evaluation (directives : Directives) (templates : List (String × Template))
    (hkeys : (templates.map fun e => outputKey e.1).Nodup) :
    (∀ base branch path x v y, (evalTemplate (.object directives templates) branch path).Leads base x (.ok v) y →
      ∃ entries, v = .map entries ∧ ∃ c : Composition directives templates base branch path x entries y,
        (Fields.names c.answer).Nodup → Assembled c.answer c.fieldValues entries) ∧
    ∀ inputs past m branch v m', Steady inputs past m →
      m.run ((Template.object directives templates).evaluate branch) = (some (.ok v), m') →
        ∃ past' entries, v = .map entries ∧
          ∃ c : Composition directives templates [] branch (m.path branch) ⟨past, m⟩ entries ⟨past', m'⟩,
            (Fields.names c.answer).Nodup → Assembled c.answer c.fieldValues entries := by
  constructor
  · intro base branch path x v y h
    exact assembled_of_leads hkeys h
  · intro inputs past m branch v m' h hrun
    obtain ⟨past', hleads⟩ := leads_of_run_evaluate h hrun
    exact ⟨past', assembled_of_leads hkeys hleads⟩

/-- An action that answers a value is said to have answered it. -/
theorem value_of_answeringAction {v : Value} {completed : Completed}
    (h : (executeAction (answeringAction v) branch path).Leads base x (.ok completed) y) :
    completed.value = some v := by
  obtain ⟨p⟩ := exists_performance h
  have houtput : p.output = .value v := Except.ok.inj p.answers.1
  exact value_of_keepOutput (comesTo_of_leads p.keeps) (.inl houtput)

/-- Four entries that are answered, one of them the current value. -/
def someAnswer : List (String × Value) :=
  [("a", .string "answered"), (currentKey, .string "current"), ("b", .string "answered"), ("c", .string "answered")]

/-- Directives of which `include` answers these entries. -/
def includingSome : Directives := ⟨none, some (answeringAction (.map someAnswer)), none⟩

/-- A new field, one that overrides an entry and one that takes an entry away. -/
def someFields : List (String × Template) :=
  [("__d", .scalar (.string "new")), ("c", .scalar (.string "own")), ("b", .scalar .exclude)]

/-- The entry that is overridden keeps its place, and the new one comes last. -/
theorem assembled_of_someFields : (someFields.map fun e => outputKey e.1).Nodup ∧ Steady .blank [] (.start .blank) ∧
    ∃ m', (Machine.start .blank).run ((Template.object includingSome someFields).evaluate []) =
        (some (.ok (.map [("a", .string "answered"), ("c", .string "own"), ("_d", .string "new")])), m') ∧
      ∃ past' entries, Value.map [("a", .string "answered"), ("c", .string "own"), ("_d", .string "new")] = .map entries ∧
        ∃ c : Composition includingSome someFields [] [] .root ⟨[], .start .blank⟩ entries ⟨past', m'⟩,
          c.answer = someAnswer ∧ Assembled c.answer c.fieldValues entries := by
  have hkeys : (someFields.map fun e => outputKey e.1).Nodup := by decide
  have hrun : (Machine.start .blank).run ((Template.object includingSome someFields).evaluate []) =
      (some (.ok (.map [("a", .string "answered"), ("c", .string "own"), ("_d", .string "new")])), _) :=
    Machine.drive_of_result rfl _
  have hsteady := Machine.steady_start .blank
  refine ⟨hkeys, hsteady, _, hrun, ?_⟩
  obtain ⟨past', entries, hv, c, hassembled⟩ :=
    (assembled_of_evaluation includingSome someFields hkeys).2 _ _ _ _ _ _ hsteady hrun
  have hanswer : c.answer = someAnswer := by
    rcases c.answers with ⟨hnone, -⟩ | ⟨action, setUp, completed, haction, ⟨x₁, y₁, -, hleads, -⟩, hvalue⟩
    · cases hnone
    · cases haction
      rw [value_of_answeringAction hleads] at hvalue
      exact (Value.map.inj (Option.some.inj hvalue)).symm
  refine ⟨past', entries, hv, c, hanswer, hassembled ?_⟩
  rw [hanswer]
  decide

end MediaQuery
