import MediaQuery.Value.Json
import MediaQuery.Proofs.Fields.Sorted
import Mathlib.Data.List.Forall2

/-!
# Values through JSON

What is written as JSON is in normal form, with every object sorted (`Value.normalize_toJson`). A JSON value that
becomes a value and is written again may have changed, since whole numbers beyond the word become doubles; an exact one
has not (`Json.toJson_ofJson`). In objects that are equal the same is found (`Json.lookup_of_beqMembers`).
-/

namespace MediaQuery

/-! ## Induction -/

/-- What holds of an array or object if it holds of all that is in it, holds of every JSON value. -/
theorem Json.induct {motive : Json → Prop} (null : motive .null) (bool : ∀ b, motive (.bool b))
    (int : ∀ n, motive (.int n)) (float : ∀ x, motive (.float x)) (str : ∀ s, motive (.str s))
    (arr : ∀ items, (∀ j ∈ items, motive j) → motive (.arr items))
    (obj : ∀ members, (∀ e ∈ members, motive e.2) → motive (.obj members)) (j : Json) : motive j :=
  @Json.rec motive (fun items => ∀ j ∈ items, motive j) (fun members => ∀ e ∈ members, motive e.2)
    (fun e => motive e.2) null bool int float str arr obj nofun (fun _ _ hj hrest => List.forall_mem_cons.2 ⟨hj, hrest⟩)
    nofun (fun _ _ he hrest => List.forall_mem_cons.2 ⟨he, hrest⟩) (fun _ _ hj => hj) j

/-- What holds of a list or map if it holds of all that is in it, holds of every value. -/
theorem Value.induct {motive : Value → Prop} (null : motive .null) (bool : ∀ b, motive (.bool b))
    (integer : ∀ n, motive (.integer n)) (number : ∀ x, motive (.number x)) (string : ∀ s, motive (.string s))
    (date : ∀ t, motive (.date t)) (list : ∀ items, (∀ v ∈ items, motive v) → motive (.list items))
    (map : ∀ entries, (∀ e ∈ entries, motive e.2) → motive (.map entries)) (selection : ∀ s, motive (.selection s))
    (exclude : motive .exclude) (v : Value) : motive v :=
  @Value.rec motive (fun items => ∀ v ∈ items, motive v) (fun entries => ∀ e ∈ entries, motive e.2)
    (fun e => motive e.2) null bool integer number string date list map selection exclude nofun
    (fun _ _ hv hrest => List.forall_mem_cons.2 ⟨hv, hrest⟩) nofun
    (fun _ _ he hrest => List.forall_mem_cons.2 ⟨he, hrest⟩) (fun _ _ hv => hv) v

/-! ## Items and members -/

namespace Json

theorem normalizeItems_eq (items : List Json) : normalizeItems items = items.map normalize := by
  induction items with
  | nil => rw [normalizeItems, List.map_nil]
  | cons j rest ih => rw [normalizeItems, ih, List.map_cons]

theorem normalizeMembers_eq (members : List (String × Json)) :
    normalizeMembers members = members.map fun e => (e.1, e.2.normalize) := by
  induction members with
  | nil => rw [normalizeMembers, List.map_nil]
  | cons e rest ih => rw [normalizeMembers, ih, List.map_cons]

theorem normalizeMembers_eq_self {members : List (String × Json)} (h : ∀ e ∈ members, e.2.normalize = e.2) :
    normalizeMembers members = members := by
  have hid : members.map (fun e => (e.1, e.2.normalize)) = members.map id :=
    List.map_congr_left fun e he => Prod.ext rfl (h e he)
  rw [normalizeMembers_eq, hid, List.map_id]

end Json

namespace Value

/-- What leaves some elements out and turns each of the others into one is a filter and a map. -/
theorem eq_map_filter {α β : Type} {skip : α → Bool} {f : α → β} {g : List α → List β} (hnil : g [] = [])
    (hcons : ∀ a rest, g (a :: rest) = if skip a then g rest else f a :: g rest) (l : List α) :
    g l = (l.filter (!skip ·)).map f := by
  induction l with
  | nil => rw [hnil, List.filter_nil, List.map_nil]
  | cons a rest ih =>
    rw [hcons]
    cases hskip : skip a with
    | true => rw [if_pos rfl, ih, List.filter_cons_of_neg (by simp [hskip])]
    | false => rw [if_neg (by simp), ih, List.filter_cons_of_pos (by simp [hskip]), List.map_cons]

/-- The items that are written. -/
theorem toJsonItems_eq (items : List Value) : toJsonItems items = (items.filter (!·.isExclude)).map toJson :=
  eq_map_filter (by rw [toJsonItems]) (fun _ _ => by rw [toJsonItems]) items

/-- The entries that are written. -/
theorem toJsonMembers_eq (entries : List (String × Value)) :
    toJsonMembers entries = (entries.filter (!·.2.isExclude)).map fun e => (e.1, e.2.toJson) :=
  eq_map_filter (by rw [toJsonMembers]) (fun _ _ => by rw [toJsonMembers]) entries

theorem wireItems_eq (items : List Value) : wireItems items = (items.filter (!·.isExclude)).map wire :=
  eq_map_filter (by rw [wireItems]) (fun _ _ => by rw [wireItems]) items

theorem wireMembers_eq (entries : List (String × Value)) :
    wireMembers entries = (entries.filter (!·.2.isExclude)).map fun e => (e.1, e.2.wire) :=
  eq_map_filter (by rw [wireMembers]) (fun _ _ => by rw [wireMembers]) entries

theorem ofJsonItems_eq (items : List Json) : ofJsonItems items = items.map ofJson := by
  induction items with
  | nil => rw [ofJsonItems, List.map_nil]
  | cons j rest ih => rw [ofJsonItems, ih, List.map_cons]

theorem ofJsonMembers_eq (members : List (String × Json)) :
    ofJsonMembers members = members.map fun e => (e.1, ofJson e.2) := by
  induction members with
  | nil => rw [ofJsonMembers, List.map_nil]
  | cons e rest ih => rw [ofJsonMembers, ih, List.map_cons]

/-- No JSON value becomes the exclusion marker. -/
theorem isExclude_ofJson (j : Json) : (ofJson j).isExclude = false := by
  cases j with
  | int n =>
    unfold ofJson
    split <;> rfl
  | _ =>
    unfold ofJson
    rfl

/-- All that is read is written again. -/
theorem toJsonItems_ofJson (items : List Json) :
    toJsonItems (items.map ofJson) = items.map fun j => (ofJson j).toJson := by
  rw [toJsonItems_eq, List.filter_eq_self.2, List.map_map]
  · rfl
  · exact List.forall_mem_map.2 fun j _ => by rw [isExclude_ofJson, Bool.not_false]

theorem toJsonMembers_ofJson (members : List (String × Json)) :
    toJsonMembers (members.map fun e => (e.1, ofJson e.2)) = members.map fun e => (e.1, (ofJson e.2).toJson) := by
  rw [toJsonMembers_eq, List.filter_eq_self.2, List.map_map]
  · rfl
  · exact List.forall_mem_map.2 fun e _ => by rw [isExclude_ofJson, Bool.not_false]

/-! ## Normal form -/

/-- **What is written is in normal form.** -/
theorem normalize_toJson (v : Value) : v.toJson.normalize = v.toJson := by
  induction v using induct with
  | list items ih =>
    simp only [toJson, Json.normalize]
    rw [Json.normalizeItems_eq, toJsonItems_eq, List.map_map]
    exact congrArg Json.arr (List.map_congr_left fun v hv => ih v (List.mem_of_mem_filter hv))
  | map entries ih =>
    have hmembers : ∀ e ∈ Fields.sort (toJsonMembers entries), e.2.normalize = e.2 := by
      intro e he
      rw [toJsonMembers_eq] at he
      obtain ⟨entry, hentry, rfl⟩ := List.mem_map.1 (Fields.mem_sort he)
      exact ih entry (List.mem_of_mem_filter hentry)
    simp only [toJson, Json.object, Json.normalize]
    rw [Json.normalizeMembers_eq_self hmembers, Fields.sort_eq_self (Fields.sorted_sort _)]
  | number x =>
    simp only [toJson, jsonOfFloat]
    split <;> simp only [Json.normalize]
  | _ => simp only [toJson, Json.normalize]

end Value

namespace Json

/-! ## Exact values -/

mutual

/-- A JSON value that values hold as it is: its whole numbers fit the word, its doubles are finite, and its objects
are sorted, as those of every JSON text are once it is read. -/
def Exact : Json → Prop
  | .int n => minWord ≤ n ∧ n ≤ maxWord
  | .float x => Decimal.isFinite x = true
  | .arr items => exactItems items
  | .obj members => (Fields.names members).Pairwise (· < ·) ∧ exactMembers members
  | _ => True

/-- The same for the items of an array. -/
def exactItems : List Json → Prop
  | [] => True
  | j :: rest => j.Exact ∧ exactItems rest

/-- The same for the members of an object. -/
def exactMembers : List (String × Json) → Prop
  | [] => True
  | (_, j) :: rest => j.Exact ∧ exactMembers rest

end

theorem exactItems_iff {items : List Json} : exactItems items ↔ ∀ j ∈ items, j.Exact := by
  induction items with
  | nil => simp [exactItems]
  | cons j rest ih => rw [exactItems, ih, List.forall_mem_cons]

theorem exactMembers_iff {members : List (String × Json)} : exactMembers members ↔ ∀ e ∈ members, e.2.Exact := by
  induction members with
  | nil => simp [exactMembers]
  | cons e rest ih => rw [exactMembers, ih, List.forall_mem_cons]

/-- **An exact value comes back as it is.** -/
theorem toJson_ofJson (j : Json) (h : j.Exact) : (Value.ofJson j).toJson = j := by
  induction j using induct with
  | int n =>
    unfold Exact at h
    have hword : (Int64.ofInt n).toInt = n := Int64.toInt_ofInt_of_le h.1 (Int.lt_of_le_sub_one h.2)
    simp only [Value.ofJson]
    rw [if_pos h]
    simp only [Value.toJson]
    rw [hword]
  | float x =>
    unfold Exact at h
    simp only [Value.ofJson, Value.toJson, Value.jsonOfFloat]
    rw [if_pos h]
  | arr items ih =>
    unfold Exact at h
    have hitems : items.map (fun j => (Value.ofJson j).toJson) = items.map id :=
      List.map_congr_left fun j hj => ih j hj (exactItems_iff.1 h j hj)
    simp only [Value.ofJson, Value.toJson]
    rw [Value.ofJsonItems_eq, Value.toJsonItems_ofJson, hitems, List.map_id]
  | obj members ih =>
    unfold Exact at h
    have hmembers : members.map (fun e => (e.1, (Value.ofJson e.2).toJson)) = members.map id :=
      List.map_congr_left fun e he => Prod.ext rfl (ih e he (exactMembers_iff.1 h.2 e he))
    simp only [Value.ofJson, Value.toJson, object]
    rw [Value.ofJsonMembers_eq, Value.toJsonMembers_ofJson, hmembers, List.map_id, Fields.sort_eq_self h.1]
  | _ => simp only [Value.ofJson, Value.toJson]

/-! ## Equal objects -/

/-- JSON values that are equal as JSON values are. -/
def Same (j j' : Json) : Prop := beq j j' = true

variable {members members' : List (String × Json)}

/-- Equal objects have equal members under the same names, in the same order. -/
theorem beqMembers_iff : beqMembers members members' = true ↔
    List.Forall₂ (fun e e' => e.1 = e'.1 ∧ e.2.Same e'.2) members members' := by
  induction members generalizing members' with
  | nil =>
    rw [List.forall₂_nil_left_iff]
    cases members' <;> simp [beqMembers]
  | cons e rest ih =>
    rw [List.forall₂_cons_left_iff]
    cases members' with
    | nil => simp [beqMembers]
    | cons e' rest' => simp [beqMembers, ih, Same]

/-- In equal objects the same is found. -/
theorem lookup_of_beqMembers (h : beqMembers members members' = true) (k : String) :
    Option.Rel Same (members.lookup k) (members'.lookup k) := by
  induction beqMembers_iff.1 h with
  | nil => exact .none
  | @cons e e' rest rest' he hrest ih =>
    obtain ⟨n, j⟩ := e
    obtain ⟨n', j'⟩ := e'
    obtain ⟨rfl, hj⟩ := he
    rw [Fields.lookup_cons, Fields.lookup_cons]
    split
    · exact .some hj
    · exact ih (beqMembers_iff.2 hrest)

/-- Of equal objects equal parts are left where the same names are left out. -/
theorem beqMembers_filter (h : beqMembers members members' = true) (keep : String → Bool) :
    beqMembers (members.filter fun e => keep e.1) (members'.filter fun e => keep e.1) = true := by
  rw [beqMembers_iff] at h ⊢
  induction h with
  | nil => exact .nil
  | @cons e e' rest rest' he _ ih =>
    obtain ⟨n, j⟩ := e
    obtain ⟨n', j'⟩ := e'
    obtain ⟨rfl, hj⟩ := he
    rw [List.filter_cons, List.filter_cons]
    split
    · exact .cons ⟨rfl, hj⟩ ih
    · exact ih

/-- Only an object is equal to an object. -/
theorem obj_of_same {j : Json} (h : j.Same (.obj members)) :
    ∃ members', j = .obj members' ∧ beqMembers members' members = true := by
  cases j with
  | obj members' =>
    unfold Same beq at h
    exact ⟨members', rfl, h⟩
  | _ => cases h

end Json

end MediaQuery
