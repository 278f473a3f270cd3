import MediaQuery.Proofs.Template.Assembly

/-!
# Fields with one output key

A key with two underscores in front is answered with one, so that it meets the key that has that one already, and no
other (`outputKey_eq_iff`). Where an object has both, the later field decides what stands under the key; every other
field stands under its own (`decided_of_evaluation`, `lost_of_escaped`).
-/

namespace MediaQuery

open Machine (Moment Steady)

/-! ## Keys -/

/-- The first key is the second with one more underscore in front, of which the second has just one. -/
def Escapes (key key' : String) : Prop :=
  ∃ rest : List Char, rest.head? ≠ some '_' ∧ key.toList = '_' :: '_' :: rest ∧ key'.toList = '_' :: rest

/-- Of two underscores one is left, and every other key is its own output key. -/
theorem outputKey_cases (key : String) :
    (∃ rest, key.toList = '_' :: '_' :: rest ∧ (outputKey key).toList = '_' :: rest) ∨
      (∀ rest, key.toList ≠ '_' :: '_' :: rest) ∧ outputKey key = key := by
  unfold outputKey
  split
  · next rest hkey => exact .inl ⟨rest, hkey, String.toList_ofList⟩
  · next hother => exact .inr ⟨hother, rfl⟩

theorem toList_outputKey {key : String} {rest : List Char} (h : key.toList = '_' :: '_' :: rest) :
    (outputKey key).toList = '_' :: rest := by
  rcases outputKey_cases key with ⟨rest', hkey, hout⟩ | ⟨hother, -⟩
  · rw [h] at hkey
    cases hkey
    exact hout
  · exact absurd h (hother rest)

theorem outputKey_of_escapes {key key' : String} (h : Escapes key key') : outputKey key = outputKey key' := by
  obtain ⟨rest, hhead, hkey, hkey'⟩ := h
  rcases outputKey_cases key' with ⟨rest', htwo, -⟩ | ⟨-, hown⟩
  · rw [hkey'] at htwo
    cases htwo
    exact absurd rfl hhead
  · apply String.toList_injective
    rw [hown, hkey', toList_outputKey hkey]

/-- A key that loses an underscore and one that keeps its own, with one output key. -/
theorem escapes_of_outputKey {key key' : String} {rest : List Char} (hkey : key.toList = '_' :: '_' :: rest)
    (hother : ∀ rest, key'.toList ≠ '_' :: '_' :: rest) (h : (outputKey key).toList = key'.toList) :
    Escapes key key' := by
  rw [toList_outputKey hkey] at h
  refine ⟨rest, fun hhead => ?_, hkey, h.symm⟩
  obtain ⟨rest', rfl⟩ := List.head?_eq_some_iff.1 hhead
  exact hother rest' h.symm

/-- **Two keys have one output key** exactly if they are the same, or one of them escapes the other. -/
theorem outputKey_eq_iff (key key' : String) :
    outputKey key = outputKey key' ↔ key = key' ∨ Escapes key key' ∨ Escapes key' key := by
  constructor
  · intro h
    rcases outputKey_cases key with ⟨rest, hkey, hout⟩ | ⟨hplain, hout⟩ <;>
      rcases outputKey_cases key' with ⟨rest', hkey', hout'⟩ | ⟨hplain', hout'⟩
    · rw [h, hout'] at hout
      cases hout
      exact .inl (String.toList_injective (hkey.trans hkey'.symm))
    · exact .inr (.inl (escapes_of_outputKey hkey hplain' (by rw [h, hout'])))
    · exact .inr (.inr (escapes_of_outputKey hkey' hplain (by rw [← h, hout])))
    · exact .inl (hout ▸ hout' ▸ h)
  · rintro (rfl | h | h)
    · rfl
    · exact outputKey_of_escapes h
    · exact (outputKey_of_escapes h).symm

/-! ## Objects -/

variable {base branch : Route} {path : Path} {x y : Moment} {directives : Directives}
  {templates : List (String × Template)} {entries : List (String × Value)}

/-- A later field has a key that escapes the key of a field, or is escaped by it. -/
def Overridden (templates : List (String × Template)) (i : Nat) (key : String) : Prop :=
  ∃ (j : Nat) (key' : String) (t' : Template), i < j ∧ templates[j]? = some (key', t') ∧
    (Escapes key key' ∨ Escapes key' key)

/-- Each field that is not overridden stands under its output key, or nothing does if it is excluded. -/
def Composition.Decided (c : Composition directives templates base branch path x entries y) : Prop :=
  ∀ (i : Nat) (key : String) (t : Template) (v : Value), templates[i]? = some (key, t) → c.values[i]? = some v →
    ¬ Overridden templates i key → entries.lookup (outputKey key) = if v.isExclude then none else some v

/-- Of fields with distinct keys no later one has the output key of one that is not overridden. -/
theorem not_mem_later (hkeys : (Fields.names templates).Nodup) {i : Nat} {key : String} {t : Template}
    (ht : templates[i]? = some (key, t)) (hlast : ¬ Overridden templates i key) :
    outputKey key ∉ (templates.drop (i + 1)).map fun e => outputKey e.1 := by
  intro hmem
  obtain ⟨⟨key', t'⟩, he, hout⟩ := List.mem_map.1 hmem
  obtain ⟨j, hj⟩ := List.mem_iff_getElem?.1 he
  rw [List.getElem?_drop] at hj
  have hlt : i < i + 1 + j := by omega
  rcases (outputKey_eq_iff key' key).1 hout with rfl | h | h
  · have hi : (Fields.names templates)[i]? = some key' := by rw [Fields.names, List.getElem?_map, ht]; rfl
    have hj' : (Fields.names templates)[i + 1 + j]? = some key' := by rw [Fields.names, List.getElem?_map, hj]; rfl
    have hbound : i < (Fields.names templates).length := (List.getElem?_eq_some_iff.1 hi).1
    have heq := (List.getElem?_inj hbound hkeys).1 (hi.trans hj'.symm)
    omega
  · exact hlast ⟨_, key', t', hlt, hj, .inr h⟩
  · exact hlast ⟨_, key', t', hlt, hj, .inl h⟩

/-- **The last field of an output key decides.** -/
theorem Composition.decided (c : Composition directives templates base branch path x entries y)
    (hkeys : (Fields.names templates).Nodup) : c.Decided := by
  intro i key t v ht hv hlast
  have hfield : c.fieldValues[i]? = some (outputKey key, v) := by
    refine List.getElem?_zip_eq_some.2 ⟨?_, hv⟩
    rw [List.getElem?_map, ht]
    rfl
  obtain ⟨hi, hget⟩ := List.getElem?_eq_some_iff.1 hfield
  have hsplit : c.fieldValues = c.fieldValues.take i ++ (outputKey key, v) :: c.fieldValues.drop (i + 1) := by
    rw [← hget, List.getElem_cons_drop, List.take_append_drop]
  have hnames : outputKey key ∉ Fields.names (c.fieldValues.drop (i + 1)) := by
    have hdrop : Fields.names (c.fieldValues.drop (i + 1)) = (templates.drop (i + 1)).map fun e => outputKey e.1 := by
      rw [Fields.names, List.map_drop, ← Fields.names, c.names_fieldValues, List.map_drop]
    rw [hdrop]
    exact not_mem_later hkeys ht hlast
  rw [c.entries_eq, ← Composition.fieldValues, hsplit]
  exact lookup_assemble_last hnames _

theorem decided_of_leads (hkeys : (Fields.names templates).Nodup) {v : Value}
    (h : (evalTemplate (.object directives templates) branch path).Leads base x (.ok v) y) :
    ∃ entries, v = .map entries ∧ ∃ c : Composition directives templates base branch path x entries y, c.Decided := by
  obtain ⟨entries, rfl, ⟨c⟩⟩ := exists_composition h
  exact ⟨entries, rfl, c, c.decided hkeys⟩

/-- **Which fields stand in an object.** Different keys have one output key only if one escapes the other. Whatever
surrounds the evaluation of an object, each of its fields that is not overridden by a later one with such a key stands
under its output key, or nothing does if it is excluded. So a field is lost only to a later one with its output key. -/
theorem decided_of_evaluation (directives : Directives) (templates : List (String × Template))
    (hkeys : (Fields.names templates).Nodup) :
    (∀ key key', outputKey key = outputKey key' ↔ key = key' ∨ Escapes key key' ∨ Escapes key' key) ∧
    (∀ base branch path x v y, (evalTemplate (.object directives templates) branch path).Leads base x (.ok v) y →
      ∃ entries, v = .map entries ∧
        ∃ c : Composition directives templates base branch path x entries y, c.Decided) ∧
    ∀ inputs past m branch v m', Steady inputs past m →
      m.run ((Template.object directives templates).evaluate branch) = (some (.ok v), m') →
        ∃ past' entries, v = .map entries ∧
          ∃ c : Composition directives templates [] branch (m.path branch) ⟨past, m⟩ entries ⟨past', m'⟩, c.Decided := by
  refine ⟨outputKey_eq_iff, ?_, ?_⟩
  · intro base branch path x v y h
    exact decided_of_leads hkeys h
  · intro inputs past m branch v m' h hrun
    obtain ⟨past', hleads⟩ := leads_of_run_evaluate h hrun
    exact ⟨past', decided_of_leads hkeys hleads⟩

/-- Two fields of which the later has the key of the first with another underscore, and a field between them. -/
def escapingFields (later : Value) : List (String × Template) :=
  [("_a", .scalar (.string "plain")), ("b", .scalar (.string "other")), ("__a", .scalar later)]

/-- The later one decides. -/
theorem decided_of_escapingFields : (Fields.names (escapingFields (.string "escaped"))).Nodup ∧
    Steady .blank [] (.start .blank) ∧ ∃ m',
      (Machine.start .blank).run ((Template.object .none (escapingFields (.string "escaped"))).evaluate []) =
        (some (.ok (.map [("_a", .string "escaped"), ("b", .string "other")])), m') ∧
      ∃ past' entries, Value.map [("_a", .string "escaped"), ("b", .string "other")] = .map entries ∧
        ∃ c : Composition .none (escapingFields (.string "escaped")) [] [] .root ⟨[], .start .blank⟩ entries ⟨past', m'⟩,
          c.Decided := by
  have hkeys : (Fields.names (escapingFields (.string "escaped"))).Nodup := by decide
  have hrun : (Machine.start .blank).run ((Template.object .none (escapingFields (.string "escaped"))).evaluate []) =
      (some (.ok (.map [("_a", .string "escaped"), ("b", .string "other")])), _) := Machine.drive_of_result rfl _
  have hsteady := Machine.steady_start .blank
  exact ⟨hkeys, hsteady, _, hrun,
    (decided_of_evaluation .none (escapingFields (.string "escaped")) hkeys).2.2 _ _ _ _ _ _ hsteady hrun⟩

/-- An excluded field takes away the value of an earlier one, though their keys are different. -/
theorem lost_of_escaped : (Fields.names (escapingFields .exclude)).Nodup ∧ outputKey "_a" = outputKey "__a" ∧
    ∃ entries, ((Machine.start .blank).run ((Template.object .none (escapingFields .exclude)).evaluate [])).1 =
        some (.ok (.map entries)) ∧
      entries.lookup (outputKey "_a") = none := by
  refine ⟨by decide, by decide, [("b", .string "other")], congrArg Prod.fst (Machine.drive_of_result rfl _), ?_⟩
  decide

end MediaQuery
