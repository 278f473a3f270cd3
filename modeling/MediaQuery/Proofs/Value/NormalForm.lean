import MediaQuery.Proofs.Query.Pruned

/-!
# The normal form of JSON

A JSON value is kept in a proper form: its doubles are finite and its objects are sorted by name (`Json.Proper`). It may
still have whole numbers that no value can hold. Without those it is exact (`Json.exact_iff`), and the exact JSON values
are the ones that writing yields and that reading and writing again leave alone (`Value.conversions_inverse`).
-/

namespace MediaQuery

namespace Json

/-! ## All parts of a JSON value -/

mutual

/-- A property of the JSON value, of its items and members, and of theirs. -/
def Throughout (P : Json → Prop) : Json → Prop
  | .arr items => P (.arr items) ∧ throughoutItems P items
  | .obj members => P (.obj members) ∧ throughoutMembers P members
  | j => P j

/-- The same for the items of an array. -/
def throughoutItems (P : Json → Prop) : List Json → Prop
  | [] => True
  | j :: rest => j.Throughout P ∧ throughoutItems P rest

/-- The same for the members of an object. -/
def throughoutMembers (P : Json → Prop) : List (String × Json) → Prop
  | [] => True
  | (_, j) :: rest => j.Throughout P ∧ throughoutMembers P rest

end

section

variable {P : Json → Prop} {items : List Json} {members : List (String × Json)}

theorem throughoutItems_iff : throughoutItems P items ↔ ∀ j ∈ items, j.Throughout P := by
  induction items with
  | nil => simp [throughoutItems]
  | cons j rest ih => rw [throughoutItems, ih, List.forall_mem_cons]

theorem throughoutMembers_iff : throughoutMembers P members ↔ ∀ e ∈ members, e.2.Throughout P := by
  induction members with
  | nil => simp [throughoutMembers]
  | cons e rest ih => rw [throughoutMembers, ih, List.forall_mem_cons]

theorem throughout_arr_iff : (Json.arr items).Throughout P ↔ P (.arr items) ∧ ∀ j ∈ items, j.Throughout P := by
  rw [Throughout, throughoutItems_iff]

theorem throughout_obj_iff :
    (Json.obj members).Throughout P ↔ P (.obj members) ∧ ∀ e ∈ members, e.2.Throughout P := by
  rw [Throughout, throughoutMembers_iff]

end

/-! ## Exact values -/

/-- If it is a double, then a finite one. -/
def IsFinite : Json → Prop
  | .float x => Decimal.isFinite x = true
  | _ => True

/-- If it is an object, then one that is sorted by name, so that no name occurs twice. -/
def IsSorted : Json → Prop
  | .obj members => (Fields.names members).Pairwise (· < ·)
  | _ => True

/-- If it is a whole number, then one of a 64-bit word with sign. -/
def IsWord : Json → Prop
  | .int n => minWord ≤ n ∧ n ≤ maxWord
  | _ => True

/-- A JSON value as it is kept: JSON has no other doubles than finite ones, and objects are sorted when they are
read. -/
structure Proper (j : Json) : Prop where
  finite : j.Throughout IsFinite
  sorted : j.Throughout IsSorted

/-- **A JSON value is exact if it is proper and all its whole numbers fit the word.** -/
theorem exact_iff {j : Json} : j.Exact ↔ j.Proper ∧ j.Throughout IsWord := by
  have hproper (j : Json) : j.Proper ↔ j.Throughout IsFinite ∧ j.Throughout IsSorted :=
    ⟨fun h => ⟨h.finite, h.sorted⟩, fun h => ⟨h.1, h.2⟩⟩
  induction j using induct with
  | arr items ih =>
    rw [Exact, exactItems_iff, hproper]
    simp only [throughout_arr_iff, IsFinite, IsSorted, IsWord, true_and]
    rw [← forall₂_and, ← forall₂_and]
    exact forall₂_congr fun j hj => (ih j hj).trans (and_congr_left' (hproper j))
  | obj members ih =>
    rw [Exact, exactMembers_iff, hproper]
    simp only [throughout_obj_iff, IsFinite, IsSorted, IsWord, true_and]
    have hmembers := forall₂_congr fun e he => (ih e he).trans (and_congr_left' (hproper e.2))
    rw [hmembers, forall₂_and, forall₂_and]
    tauto
  | _ => simp [Exact, hproper, Throughout, IsFinite, IsSorted, IsWord]

/-! ## Sorting -/

/-- A JSON value that is sorted already stays as it is. -/
theorem normalize_eq_self {j : Json} (h : j.Throughout IsSorted) : j.normalize = j := by
  induction j using induct with
  | arr items ih =>
    obtain ⟨-, hitems⟩ := throughout_arr_iff.1 h
    have hmap : items.map normalize = items.map id := List.map_congr_left fun j hj => ih j hj (hitems j hj)
    rw [normalize, normalizeItems_eq, hmap, List.map_id]
  | obj members ih =>
    obtain ⟨hsorted, hmembers⟩ := throughout_obj_iff.1 h
    rw [normalize, object, normalizeMembers_eq_self fun e he => ih e he (hmembers e he), Fields.sort_eq_self hsorted]
  | _ => simp only [normalize]

/-- **Sorting makes a JSON value proper.** -/
theorem proper_normalize {j : Json} (h : j.Throughout IsFinite) : j.normalize.Proper := by
  induction j using induct with
  | arr items ih =>
    obtain ⟨-, hitems⟩ := throughout_arr_iff.1 h
    have hproper : ∀ k ∈ items.map normalize, k.Proper := List.forall_mem_map.2 fun j hj => ih j hj (hitems j hj)
    rw [normalize, normalizeItems_eq]
    exact ⟨throughout_arr_iff.2 ⟨trivial, fun k hk => (hproper k hk).finite⟩,
      throughout_arr_iff.2 ⟨trivial, fun k hk => (hproper k hk).sorted⟩⟩
  | obj members ih =>
    obtain ⟨-, hmembers⟩ := throughout_obj_iff.1 h
    have hall : ∀ e ∈ members.map fun e => (e.1, e.2.normalize), e.2.Proper :=
      List.forall_mem_map.2 fun e he => ih e he (hmembers e he)
    have hproper : ∀ e ∈ Fields.sort (members.map fun e => (e.1, e.2.normalize)), e.2.Proper :=
      fun e he => hall e (Fields.mem_sort he)
    rw [normalize, normalizeMembers_eq, object]
    exact ⟨throughout_obj_iff.2 ⟨trivial, fun e he => (hproper e he).finite⟩,
      throughout_obj_iff.2 ⟨Fields.sorted_sort _, fun e he => (hproper e he).sorted⟩⟩
  | _ =>
    simp only [normalize]
    exact ⟨h, by simp only [Throughout, IsSorted]⟩

end Json

/-! ## Writing and reading -/

namespace Value

/-- Neither a date nor a selection nor the exclusion marker. -/
def IsData : Value → Prop
  | .date _ => False
  | .selection _ => False
  | .exclude => False
  | _ => True

/-- **What is read from JSON is data throughout.** -/
theorem isData_ofJson (j : Json) : (ofJson j).Throughout IsData := by
  induction j using Json.induct with
  | arr items ih =>
    rw [ofJson, ofJsonItems_eq, Throughout, throughoutItems_iff, List.forall_mem_map]
    exact ⟨trivial, ih⟩
  | obj members ih =>
    rw [ofJson, ofJsonMembers_eq, Throughout, throughoutEntries_iff, List.forall_mem_map]
    exact ⟨trivial, ih⟩
  | int n =>
    rw [ofJson]
    split <;> simp [Throughout, IsData]
  | _ => simp [ofJson, Throughout, IsData]

/-- **A JSON value comes back from values exactly if it is proper and its whole numbers fit the word.** -/
theorem toJson_ofJson_eq_iff {j : Json} : (ofJson j).toJson = j ↔ j.Proper ∧ j.Throughout Json.IsWord := by
  rw [← Json.exact_iff]
  constructor
  · intro h
    have hexact := exact_toJson (ofJson j)
    rwa [h] at hexact
  · exact Json.toJson_ofJson j

/-- **Writing and reading are inverse to each other.** A JSON value that becomes a value and is written again is as it
was exactly if it is proper and its whole numbers fit the word; no date, selection or exclusion marker arises from it.
What is written for any value at all, with whatever it has in it, becomes a value that is written in the same way. -/
theorem conversions_inverse :
    (∀ j : Json, (ofJson j).toJson = j ↔ j.Proper ∧ j.Throughout Json.IsWord) ∧
      (∀ j : Json, (ofJson j).Throughout IsData) ∧
        ∀ v : Value, (ofJson v.toJson).toJson = v.toJson :=
  ⟨fun _ => toJson_ofJson_eq_iff, isData_ofJson, toJson_reread⟩

end Value

end MediaQuery
