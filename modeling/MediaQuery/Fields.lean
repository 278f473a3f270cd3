/-!
# Named fields

A list of named fields plays two parts. As an ordered map it keeps the order of insertion: `insert` overrides
in place and adds at the end, `erase` closes the gap. As a sorted map it is kept in the order of its names by
`put`. Look-up is `List.lookup` for both.
-/

universe u

namespace MediaQuery.Fields

variable {α : Type u}

/-- The names in order. -/
def names (fields : List (String × α)) : List String := fields.map Prod.fst

/-- Gives a name a value: in place if the name is there, at the end otherwise. -/
def insert (name : String) (value : α) : List (String × α) → List (String × α)
  | [] => [(name, value)]
  | (n, v) :: rest => if n = name then (n, value) :: rest else (n, v) :: insert name value rest

/-- Removes a name. -/
def erase (name : String) (fields : List (String × α)) : List (String × α) :=
  fields.filter (·.1 ≠ name)

/-- Inserts one list of fields after another. -/
def insertAll (fields more : List (String × α)) : List (String × α) :=
  more.foldl (fun acc e => insert e.1 e.2 acc) fields

/-- Gives a name a value in fields sorted by name. -/
def put (name : String) (value : α) : List (String × α) → List (String × α)
  | [] => [(name, value)]
  | (n, v) :: rest =>
    if name = n then (name, value) :: rest
    else if name < n then (name, value) :: (n, v) :: rest
    else (n, v) :: put name value rest

/-- The fields sorted by name; of fields with one name the last one stays. -/
def sort (fields : List (String × α)) : List (String × α) :=
  fields.foldl (fun acc e => put e.1 e.2 acc) []

/-! ## Look-up -/

/-- Look-up tries the fields in order. -/
theorem lookup_cons (k n : String) (v : α) (rest : List (String × α)) :
    List.lookup k ((n, v) :: rest) = if k = n then some v else rest.lookup k := by
  by_cases h : k = n
  · rw [if_pos h, h, List.lookup_cons_self]
  · have hne : (k == n) = false := by simpa using h
    rw [if_neg h, List.lookup_cons, hne]

/-- After an insertion the name has the new value and every other name its old one. -/
theorem lookup_insert (name k : String) (value : α) (fields : List (String × α)) :
    (insert name value fields).lookup k = if k = name then some value else fields.lookup k := by
  induction fields with
  | nil => simp [insert, lookup_cons]
  | cons e rest ih =>
    obtain ⟨n, v⟩ := e
    by_cases hn : n = name
    · by_cases hk : k = n <;> simp_all [insert, lookup_cons]
    · by_cases hk : k = n <;> simp_all [insert, lookup_cons]

/-- The same for sorted fields. -/
theorem lookup_put (name k : String) (value : α) (fields : List (String × α)) :
    (put name value fields).lookup k = if k = name then some value else fields.lookup k := by
  induction fields with
  | nil => simp [put, lookup_cons]
  | cons e rest ih =>
    obtain ⟨n, v⟩ := e
    by_cases hn : name = n
    · by_cases hk : k = n <;> simp_all [put, lookup_cons]
    · by_cases hlt : name < n
      · simp [put, hn, hlt, lookup_cons]
      · rw [put, if_neg hn, if_neg hlt, lookup_cons, ih, lookup_cons]
        by_cases hk : k = n
        · simp [hk, Ne.symm hn]
        · simp [hk]

/-- Where names are left out, the others keep their values. -/
theorem lookup_filter (keep : String → Bool) (k : String) (fields : List (String × α)) :
    (fields.filter fun e => keep e.1).lookup k = if keep k = true then fields.lookup k else none := by
  induction fields with
  | nil => simp
  | cons e rest ih =>
    obtain ⟨n, v⟩ := e
    cases hn : keep n with
    | true =>
      rw [List.filter_cons_of_pos (by simpa using hn), lookup_cons, lookup_cons, ih]
      by_cases hk : k = n
      · rw [if_pos hk, if_pos hk, if_pos (hk ▸ hn)]
      · rw [if_neg hk, if_neg hk]
    | false =>
      rw [List.filter_cons_of_neg (by simp [hn]), lookup_cons, ih]
      by_cases hk : k = n
      · have hout : ¬keep k = true := by simp [hk, hn]
        rw [if_neg hout, if_neg hout]
      · rw [if_neg hk]

/-- An erased name is gone and every other name keeps its value. -/
theorem lookup_erase (name k : String) (fields : List (String × α)) :
    (erase name fields).lookup k = if k = name then none else fields.lookup k := by
  have hkeep := lookup_filter (fun n => n ≠ name) k fields
  by_cases hk : k = name
  · rw [if_pos hk, erase, hkeep, if_neg (by simp [hk])]
  · rw [if_neg hk, erase, hkeep, if_pos (by simp [hk])]

/-! ## Names -/

/-- Insertion adds at most its own name. -/
theorem mem_names_insert {name k : String} {value : α} {fields : List (String × α)} :
    k ∈ names (insert name value fields) ↔ k = name ∨ k ∈ names fields := by
  induction fields with
  | nil => simp [insert, names]
  | cons e rest ih =>
    obtain ⟨n, v⟩ := e
    unfold names at ih ⊢
    by_cases hn : n = name
    · rw [insert, if_pos hn]
      simp only [List.map_cons, List.mem_cons, hn]
      grind
    · rw [insert, if_neg hn, List.map_cons, List.mem_cons, ih, List.map_cons, List.mem_cons]
      grind

/-- Insertion keeps names distinct. -/
theorem nodup_insert {name : String} {value : α} {fields : List (String × α)}
    (h : (names fields).Nodup) : (names (insert name value fields)).Nodup := by
  induction fields with
  | nil => simp [insert, names]
  | cons e rest ih =>
    obtain ⟨n, v⟩ := e
    have h' : n ∉ names rest ∧ (names rest).Nodup := List.nodup_cons.1 h
    by_cases hn : n = name
    · rw [insert, if_pos hn]
      exact List.nodup_cons.2 h'
    · rw [insert, if_neg hn]
      refine List.nodup_cons.2 ⟨fun hm => ?_, ih h'.2⟩
      rcases mem_names_insert.1 hm with e | hm
      · exact hn e
      · exact h'.1 hm

end MediaQuery.Fields
