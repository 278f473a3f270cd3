import MediaQuery.Proofs.Request.Defaults
import MediaQuery.Proofs.Value.NormalForm

/-!
# The two encodings of a request

A request is written as one flat JSON object, and it is shown to templates as a map. As long as no parameter has the
name of a part, neither encoding loses anything: the object is read back as the same request, and the map is written as
the same object, unless a parameter has a whole number in it that no value can hold (`Request.encodings_agree`).
Requests that are read are of this kind, and defaults do not change that.
-/

namespace MediaQuery.Request

variable {r : Request}

/-! ## Proper requests -/

/-- A regular request whose parameters are kept in their proper form. -/
structure Proper (r : Request) : Prop where
  regular : r.Regular
  params : ∀ e ∈ r.params, e.2.Proper

/-- Defaults add no other parameters than their own. -/
theorem mem_params_fill {name : String} {default : Json} {e : String × Json}
    (h : e ∈ (r.fill name default).params) : e ∈ r.params ∨ e = (name, default) := by
  rw [fill_eq] at h
  simp only at h
  split at h
  · exact .inl h
  · exact (Fields.mem_put h).symm

theorem mem_params_withDefaults {defaults : List (String × Json)} {e : String × Json}
    (h : e ∈ (r.withDefaults defaults).params) : e ∈ r.params ∨ e ∈ defaults := by
  induction defaults generalizing r with
  | nil => exact .inl h
  | cons d rest ih =>
    rw [withDefaults_cons] at h
    rcases ih h with h | h
    · rcases mem_params_fill h with h | rfl
      · exact .inl h
      · exact .inr List.mem_cons_self
    · exact .inr (List.mem_cons_of_mem d h)

theorem Proper.withDefaults (h : r.Proper) {defaults : List (String × Json)} (hd : ∀ e ∈ defaults, e.2.Proper) :
    (r.withDefaults defaults).Proper where
  regular := h.regular.withDefaults defaults
  params e he := (mem_params_withDefaults he).elim (h.params e) (hd e)

/-- **What is read as JSON is proper**, whatever the order of its members. -/
theorem proper_ofJson? {j : Json} (hj : j.Throughout Json.IsFinite) (h : ofJson? j = some r) : r.Proper where
  regular := regular_ofJson? h
  params e he := by
    have hproper := Json.proper_normalize hj
    cases hn : j.normalize with
    | obj members =>
      rw [hn] at hproper
      rw [← ((ofJson?_eq_some_iff hn).1 h).params] at he
      have hm : e ∈ members := (List.mem_filter.1 he).1
      exact ⟨(Json.throughout_obj_iff.1 hproper.finite).2 e hm, (Json.throughout_obj_iff.1 hproper.sorted).2 e hm⟩
    | _ =>
      unfold ofJson? at h
      rw [hn] at h
      cases h

/-! ## Writing and reading back -/

theorem normalize_parts (r : Request) : ∀ e ∈ r.parts, e.2.normalize = e.2 := by
  unfold parts
  cases r.pageNumber <;> rcases r.cursor with _ | ⟨_ | _⟩ <;> simp [Json.normalize, Cursor.toJson]

/-- The object that a request is written as, with its members sorted. -/
theorem Proper.normalize_wire (h : r.Proper) : r.wire.normalize = .obj (Fields.sort (r.parts ++ r.params)) := by
  have hmembers : ∀ e ∈ r.parts ++ r.params, e.2.normalize = e.2 := by
    intro e he
    rcases List.mem_append.1 he with he | he
    · exact r.normalize_parts e he
    · exact Json.normalize_eq_self (h.params e he).sorted
  rw [wire, Json.normalize, Json.object, Json.normalizeMembers_eq_self hmembers]

/-- **What is written is read back as it was.** -/
theorem Proper.ofJson?_wire (h : r.Proper) : ofJson? r.wire = some r :=
  (ofJson?_eq_some_iff h.normalize_wire).2 h.regular.readsFrom

/-- **The map that templates see is written as the same object** exactly if no parameter has a whole number in it that
does not fit the word. -/
theorem Proper.toJson_toValue_eq_iff (h : r.Proper) :
    r.toValue.toJson = r.wire.normalize ↔ ∀ e ∈ r.params, e.2.Throughout Json.IsWord := by
  have hback : (r.rounded = r) ↔ ∀ e ∈ r.params, e.2.Throughout Json.IsWord := by
    rw [rounded_eq_self_iff]
    refine forall₂_congr fun e he => ?_
    rw [Value.toJson_ofJson_eq_iff, and_iff_right (h.params e he)]
  rw [← hback]
  constructor
  · -- the same object is read back as one request only
    intro heq
    have hnormal : r.toValue.toJson.normalize = .obj (Fields.sort (r.parts ++ r.params)) := by
      rw [Value.normalize_toJson, heq, h.normalize_wire]
    have hread := (ofJson?_eq_some_iff hnormal).2 h.regular.readsFrom
    exact Option.some.inj (h.regular.ofJson?_toValue.symm.trans hread)
  · intro heq
    rw [h.regular.toJson_toValue, h.normalize_wire, heq]

/-- **The encodings of a request agree and decode back.** A request none of whose parameters has the name of a part is
read back from what it is written as. What templates see of it is written as the same object, exactly if all whole
numbers in its parameters fit the word. It stays such a request with any defaults, and whatever is read is one. -/
theorem encodings_agree (h : r.Proper) :
    ofJson? r.wire = some r ∧
      (r.toValue.toJson = r.wire.normalize ↔ ∀ e ∈ r.params, e.2.Throughout Json.IsWord) ∧
      (∀ defaults : List (String × Json), (∀ e ∈ defaults, e.2.Proper) → (r.withDefaults defaults).Proper) ∧
      ∀ (j : Json) (read : Request), j.Throughout Json.IsFinite → ofJson? j = some read → read.Proper :=
  ⟨h.ofJson?_wire, h.toJson_toValue_eq_iff, fun _ => h.withDefaults, fun _ _ => proper_ofJson?⟩

/-! ## A request with all parts -/

/-- A request with a page number, a cursor and a parameter that is an object. -/
def bookmarkedRequest : Request :=
  ⟨"s", "list", some 2, some (.text "abc"),
    [("filter", .obj [("tags", .arr [.str "new", .null]), ("year", .int 1999)])]⟩

theorem proper_bookmarked : bookmarkedRequest.Proper where
  regular := ⟨by simp [bookmarkedRequest, Fields.names], by simp [bookmarkedRequest, Fields.names, reserved]⟩
  params e he := by
    obtain rfl := List.mem_singleton.1 he
    constructor
    · simp [Json.Throughout, Json.throughoutItems, Json.throughoutMembers, Json.IsFinite]
    · have hsorted : "tags" < "year" := String.lt_iff_toList_lt.2 (by decide)
      simpa [Json.Throughout, Json.throughoutItems, Json.throughoutMembers, Json.IsSorted, Fields.names] using hsorted

/-- It is read back as it is, also from what templates see of it. -/
theorem encodings_agree_bookmarked : bookmarkedRequest.Proper ∧ ofJson? bookmarkedRequest.wire = some bookmarkedRequest ∧
    bookmarkedRequest.toValue.toJson = bookmarkedRequest.wire.normalize := by
  obtain ⟨hread, hsame, -⟩ := encodings_agree proper_bookmarked
  refine ⟨proper_bookmarked, hread, hsame.2 fun e he => ?_⟩
  obtain rfl := List.mem_singleton.1 he
  simp [Json.Throughout, Json.throughoutItems, Json.throughoutMembers, Json.IsWord, Json.minWord, Json.maxWord]

end MediaQuery.Request
