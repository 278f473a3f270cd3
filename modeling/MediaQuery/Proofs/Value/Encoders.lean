import MediaQuery.Proofs.Value.NormalForm
import Mathlib.Data.List.Forall2

/-!
# The two encoders of values

A value is written in two ways: with the members of every object sorted (`Value.toJson`), and in the order of its maps
(`Value.wire`). The second form is the one that the rules of `Value.WrittenAs` give (`writtenAs_iff`). The first is its
normal form (`normalize_wire`), and where the maps have distinct names, as all ordered maps do, that is the same JSON
value up to the order of members (`Json.reordered_normalize`). Together this is `Value.encoders_agree`.
-/

namespace MediaQuery

/-! ## JSON values up to order -/

namespace Json

/-- One JSON value is the other one but for the order of members, in each of its objects. -/
inductive Reordered : Json → Json → Prop
  | same (j : Json) : Reordered j j
  | arr {items items' : List Json} : List.Forall₂ Reordered items items' → Reordered (.arr items) (.arr items')
  | obj {members members' moved : List (String × Json)} : Fields.names members' = Fields.names members →
      List.Forall₂ (fun e e' => Reordered e.2 e'.2) members members' → moved.Perm members' →
      Reordered (.obj members) (.obj moved)

/-- If it is an object, then one whose names are distinct. -/
def HasDistinctNames : Json → Prop
  | .obj members => (Fields.names members).Nodup
  | _ => True

/-- **Where names are distinct, the normal form only moves members.** -/
theorem reordered_normalize {j : Json} (h : j.Throughout HasDistinctNames) : j.Reordered j.normalize := by
  induction j using induct with
  | arr items ih =>
    obtain ⟨-, hitems⟩ := throughout_arr_iff.1 h
    rw [normalize, normalizeItems_eq]
    apply Reordered.arr
    rw [List.forall₂_map_right_iff, List.forall₂_same]
    intro j hj
    exact ih j hj (hitems j hj)
  | obj members ih =>
    obtain ⟨hnames, hmembers⟩ := throughout_obj_iff.1 h
    have hsame : Fields.names (members.map fun e => (e.1, e.2.normalize)) = Fields.names members :=
      Fields.names_map normalize members
    rw [normalize, normalizeMembers_eq, object]
    apply Reordered.obj hsame
    · rw [List.forall₂_map_right_iff, List.forall₂_same]
      intro e he
      exact ih e he (hmembers e he)
    · apply Fields.perm_sort
      rw [hsame]
      exact hnames
  | _ =>
    simp only [normalize]
    exact .same _

end Json

namespace Value

/-! ## The rules of writing -/

/-- What a value is written as in the order of its maps: what is excluded is dropped from lists and maps, dates and
selections are text, and what JSON has no form for is null. -/
inductive WrittenAs : Value → Json → Prop
  | null : WrittenAs .null .null
  | exclude : WrittenAs .exclude .null
  | bool (b : Bool) : WrittenAs (.bool b) (.bool b)
  | integer (n : Int64) : WrittenAs (.integer n) (.int n.toInt)
  | finite {x : Float} : Decimal.isFinite x = true → WrittenAs (.number x) (.float x)
  | infinite {x : Float} : Decimal.isFinite x = false → WrittenAs (.number x) .null
  | string (s : String) : WrittenAs (.string s) (.str s)
  | date (t : Instant) : WrittenAs (.date t) (.str t.render)
  | selection (s : Selection) : WrittenAs (.selection s) (.str s.text)
  | list {items : List Value} {written : List Json} :
      List.Forall₂ WrittenAs (items.filter (!·.isExclude)) written → WrittenAs (.list items) (.arr written)
  | map {entries : List (String × Value)} {members : List (String × Json)} :
      Fields.names members = Fields.names (entries.filter (!·.2.isExclude)) →
      List.Forall₂ (fun e m => WrittenAs e.2 m.2) (entries.filter (!·.2.isExclude)) members →
      WrittenAs (.map entries) (.obj members)

/-- A relation of each element to its image alone is one of a list to its images alone. -/
theorem forall₂_iff_eq_map {α β : Type} {R : α → β → Prop} {f : α → β} {l : List α}
    (h : ∀ a ∈ l, ∀ b, R a b ↔ b = f a) {images : List β} : List.Forall₂ R l images ↔ images = l.map f := by
  induction l generalizing images with
  | nil => rw [List.forall₂_nil_left_iff, List.map_nil]
  | cons a rest ih =>
    obtain ⟨ha, hrest⟩ := List.forall_mem_cons.1 h
    rw [List.forall₂_cons_left_iff, List.map_cons]
    constructor
    · rintro ⟨b, images', hb, himages, rfl⟩
      rw [(ha b).1 hb, (ih hrest).1 himages]
    · rintro rfl
      exact ⟨f a, rest.map f, (ha (f a)).2 rfl, (ih hrest).2 rfl, rfl⟩

/-- The same for fields, whose names stay. -/
theorem fields_forall₂_iff_eq_map {α β : Type} {R : α → β → Prop} {f : α → β} {fields : List (String × α)}
    (h : ∀ e ∈ fields, ∀ b, R e.2 b ↔ b = f e.2) {images : List (String × β)} :
    Fields.names images = Fields.names fields ∧ List.Forall₂ (fun e e' => R e.2 e'.2) fields images ↔
      images = fields.map fun e => (e.1, f e.2) := by
  constructor
  · rintro ⟨hnames, hall⟩
    have hvalues : images.map Prod.snd = fields.map fun e => f e.2 := by
      apply (forall₂_iff_eq_map h).1
      rw [List.forall₂_map_right_iff]
      exact hall
    have hpairs : images = (images.map Prod.fst).zip (images.map Prod.snd) := by
      rw [← List.zip_of_prod rfl rfl]
    unfold Fields.names at hnames
    rw [hpairs, hnames, hvalues, List.zip_map']
  · rintro rfl
    refine ⟨Fields.names_map f fields, ?_⟩
    rw [List.forall₂_map_right_iff, List.forall₂_same]
    intro e he
    exact (h e he (f e.2)).2 rfl

/-- **The order-keeping form is the one that the rules give, and they give no other.** -/
theorem writtenAs_iff {v : Value} {j : Json} : v.WrittenAs j ↔ j = v.wire := by
  induction v using induct generalizing j with
  | list items ih =>
    have hitems {written : List Json} :
        List.Forall₂ WrittenAs (items.filter (!·.isExclude)) written ↔ written = wireItems items := by
      rw [wireItems_eq]
      apply forall₂_iff_eq_map
      intro v hv written
      exact ih v (List.mem_of_mem_filter hv)
    rw [wire]
    constructor
    · intro h
      cases h with
      | list hall => rw [hitems.1 hall]
    · rintro rfl
      exact .list (hitems.2 rfl)
  | map entries ih =>
    have hentries {members : List (String × Json)} :
        Fields.names members = Fields.names (entries.filter (!·.2.isExclude)) ∧
          List.Forall₂ (fun e m => WrittenAs e.2 m.2) (entries.filter (!·.2.isExclude)) members ↔
            members = wireMembers entries := by
      rw [wireMembers_eq]
      apply fields_forall₂_iff_eq_map
      intro e he written
      exact ih e (List.mem_of_mem_filter he)
    rw [wire]
    constructor
    · intro h
      cases h with
      | map hnames hall => rw [hentries.1 ⟨hnames, hall⟩]
    · rintro rfl
      obtain ⟨hnames, hall⟩ := hentries.2 rfl
      exact .map hnames hall
  | number x =>
    rw [wire, jsonOfFloat]
    constructor
    · intro h
      cases h with
      | finite hx => rw [if_pos hx]
      | infinite hx => rw [if_neg (by simp [hx])]
    · rintro rfl
      split
      · next hx => exact .finite hx
      · next hx => exact .infinite (by simpa using hx)
  | _ =>
    simp only [wire]
    constructor
    · intro h
      cases h
      rfl
    · rintro rfl
      constructor

/-! ## The sorted form -/

/-- **The sorted form is the normal form of the order-keeping one.** -/
theorem normalize_wire (v : Value) : v.wire.normalize = v.toJson := by
  induction v using induct with
  | list items ih =>
    simp only [wire, toJson, Json.normalize]
    rw [Json.normalizeItems_eq, wireItems_eq, toJsonItems_eq, List.map_map]
    apply congrArg Json.arr
    apply List.map_congr_left
    intro v hv
    exact ih v (List.mem_of_mem_filter hv)
  | map entries ih =>
    simp only [wire, toJson, Json.normalize]
    rw [Json.normalizeMembers_eq, wireMembers_eq, toJsonMembers_eq, List.map_map]
    apply congrArg Json.object
    apply List.map_congr_left
    intro e he
    exact Prod.ext rfl (ih e (List.mem_of_mem_filter he))
  | number x =>
    simp only [wire, toJson, jsonOfFloat]
    split <;> simp only [Json.normalize]
  | _ => simp only [wire, toJson, Json.normalize]

/-- What is written of maps with distinct names has distinct names itself. -/
theorem hasDistinctNames_wire {v : Value} (h : v.Throughout HasDistinctNames) :
    v.wire.Throughout Json.HasDistinctNames := by
  induction v using induct with
  | list items ih =>
    rw [wire, Json.throughout_arr_iff, wireItems_eq, List.forall_mem_map]
    refine ⟨trivial, ?_⟩
    intro v hv
    have hmem : v ∈ items := List.mem_of_mem_filter hv
    exact ih v hmem (h.item hmem)
  | map entries ih =>
    rw [wire, Json.throughout_obj_iff, wireMembers_eq, List.forall_mem_map, Json.HasDistinctNames, Fields.names_map]
    unfold Throughout at h
    have hsublist := (List.filter_sublist (p := fun e : String × Value => !e.2.isExclude) (l := entries)).map Prod.fst
    refine ⟨hsublist.nodup (h.1 entries rfl), ?_⟩
    intro e he
    have hmem : e ∈ entries := List.mem_of_mem_filter he
    exact ih e hmem (throughoutEntries_iff.1 h.2 e hmem)
  | number x =>
    simp only [wire, jsonOfFloat]
    split <;> simp [Json.Throughout, Json.HasDistinctNames]
  | _ => simp [wire, Json.Throughout, Json.HasDistinctNames]

/-- **The two encoders agree.** The order-keeping form of a value is the one that the rules of writing give: entries in
the order of the map, without those that are excluded, at every depth. The sorted form is its normal form, and it is
the same JSON value up to the order of members, in every object, if the maps have distinct names. -/
theorem encoders_agree (v : Value) :
    (∀ j : Json, v.WrittenAs j ↔ j = v.wire) ∧ v.wire.normalize = v.toJson ∧
      (v.Throughout HasDistinctNames → v.wire.Reordered v.toJson) := by
  refine ⟨fun _ => writtenAs_iff, normalize_wire v, ?_⟩
  intro h
  have hreordered := Json.reordered_normalize (hasDistinctNames_wire h)
  rwa [normalize_wire] at hreordered

/-! ## A map out of order -/

/-- A map whose names are not in order, with an excluded entry, a date, and a map of the same kind in a list. -/
def unsortedMap : Value :=
  .map [("b", .date ⟨0, 0⟩), ("x", .exclude),
    ("a", .list [.exclude, .map [("d", .selection (.node [] "text" [])), ("c", .null)]])]

/-- What it is written as in its own order. -/
def unsortedForm : Json :=
  .obj [("b", .str "1970-01-01T00:00:00.000Z"), ("a", .arr [.obj [("d", .str "text"), ("c", .null)]])]

theorem distinctNames_unsorted : unsortedMap.Throughout HasDistinctNames := by
  simp [unsortedMap, Throughout, throughoutItems, throughoutEntries, HasDistinctNames, asMap?, Fields.names]

theorem wire_unsorted : unsortedMap.wire = unsortedForm := by
  have hdate : (Instant.mk 0 0).render = "1970-01-01T00:00:00.000Z" := by decide
  simp [unsortedMap, unsortedForm, wire, wireItems, wireMembers, isExclude, Selection.text, hdate]

/-- It is written in its own order, which is not the sorted one. -/
theorem encoders_agree_unsorted : unsortedMap.Throughout HasDistinctNames ∧ unsortedMap.WrittenAs unsortedForm ∧
    unsortedForm.Reordered unsortedMap.toJson ∧ unsortedForm ≠ unsortedMap.toJson := by
  obtain ⟨hrules, hnormal, hreordered⟩ := encoders_agree unsortedMap
  rw [wire_unsorted] at hrules hnormal hreordered
  refine ⟨distinctNames_unsorted, (hrules unsortedForm).2 rfl, hreordered distinctNames_unsorted, ?_⟩
  intro hsame
  have hsorted := (Json.exact_iff.1 (exact_toJson unsortedMap)).1.sorted
  rw [← hsame] at hsorted
  have hlt : "b" < "a" := by
    simpa [unsortedForm, Json.Throughout, Json.throughoutItems, Json.throughoutMembers, Json.IsSorted, Fields.names]
      using And.left hsorted
  exact absurd hlt (by rw [String.lt_iff_toList_lt]; decide)

end Value

end MediaQuery
