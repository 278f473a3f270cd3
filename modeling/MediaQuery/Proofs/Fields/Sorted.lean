import MediaQuery.Fields
import Mathlib.Data.String.Basic

/-!
# Sorted fields

Fields that are kept by `put` stay in the order of their names (`sorted_put`), so that each name has one value. `sort`
puts fields into this order (`sorted_sort`) and leaves those alone that are in it (`sort_eq_self`); where the names are
distinct it only moves them (`perm_sort`) and loses nothing that can be looked up (`lookup_sort`). Fields that are
inserted among others are found before those (`lookup_insertAll`).
-/

universe u v

namespace MediaQuery.Fields

variable {α : Type u} {β : Type v} {name k : String} {value : α} {fields : List (String × α)}

/-! ## Putting -/

theorem names_cons (e : String × α) (rest : List (String × α)) : names (e :: rest) = e.1 :: names rest := rfl

/-- A sorted insertion adds at most its own name. -/
theorem mem_names_put (h : k ∈ names (put name value fields)) : k = name ∨ k ∈ names fields := by
  induction fields with
  | nil => simpa [put, names] using h
  | cons e rest ih =>
    obtain ⟨n, v⟩ := e
    unfold put at h
    split at h
    · next hn =>
      subst hn
      exact .inr h
    · split at h
      · simpa [names_cons] using h
      · rw [names_cons, List.mem_cons] at h
        rw [names_cons, List.mem_cons]
        rcases h with h | h
        · exact .inr (.inl h)
        · exact (ih h).imp_right .inr

/-- Sorted fields stay sorted. -/
theorem sorted_put (h : (names fields).Pairwise (· < ·)) : (names (put name value fields)).Pairwise (· < ·) := by
  induction fields with
  | nil => simp [put, names]
  | cons e rest ih =>
    obtain ⟨n, v⟩ := e
    rw [names_cons, List.pairwise_cons] at h
    unfold put
    split
    · next hn =>
      subst hn
      exact List.pairwise_cons.2 h
    · next hn =>
      split
      · next hlt =>
        refine List.pairwise_cons.2 ⟨fun x hx => ?_, List.pairwise_cons.2 h⟩
        rcases List.mem_cons.1 hx with rfl | hx
        · exact hlt
        · exact lt_trans hlt (h.1 x hx)
      · next hlt =>
        refine List.pairwise_cons.2 ⟨fun x hx => ?_, ih h.2⟩
        rcases mem_names_put hx with rfl | hx
        · exact lt_of_le_of_ne (not_lt.1 hlt) (Ne.symm hn)
        · exact h.1 x hx

theorem sorted_erase (h : (names fields).Pairwise (· < ·)) : (names (erase name fields)).Pairwise (· < ·) :=
  h.sublist (List.filter_sublist.map Prod.fst)

/-- Among distinct names a name has one value. -/
theorem lookup_of_nodup (h : (names fields).Nodup) (hm : (k, value) ∈ fields) : fields.lookup k = some value := by
  induction fields with
  | nil => cases hm
  | cons e rest ih =>
    obtain ⟨n, v⟩ := e
    rw [names_cons, List.nodup_cons] at h
    rw [lookup_cons]
    rcases List.mem_cons.1 hm with heq | hm
    · cases heq
      rw [if_pos rfl]
    · have hk : k ∈ names rest := List.mem_map_of_mem hm
      have hne : k ≠ n := by
        rintro rfl
        exact h.1 hk
      rw [if_neg hne]
      exact ih h.2 hm

theorem nodup_of_sorted (h : (names fields).Pairwise (· < ·)) : (names fields).Nodup := h.imp fun hlt => hlt.ne

theorem lookup_of_mem (h : (names fields).Pairwise (· < ·)) (hm : (k, value) ∈ fields) :
    fields.lookup k = some value := lookup_of_nodup (nodup_of_sorted h) hm

/-- A name behind all others is put at the end. -/
theorem put_of_forall_lt (h : ∀ n ∈ names fields, n < name) : put name value fields = fields ++ [(name, value)] := by
  induction fields with
  | nil => rfl
  | cons e rest ih =>
    obtain ⟨n, v⟩ := e
    have hn : n < name := h n List.mem_cons_self
    rw [put, if_neg hn.ne', if_neg hn.not_gt, ih fun m hm => h m (List.mem_cons_of_mem n hm)]
    rfl

theorem lookup_of_not_mem (h : k ∉ names fields) : fields.lookup k = none := by
  refine List.lookup_eq_none_iff.2 fun e he => ?_
  have hmem : e.1 ∈ names fields := List.mem_map_of_mem he
  simpa using fun hne : k = e.1 => h (hne ▸ hmem)

theorem mem_of_lookup (h : fields.lookup k = some value) : (k, value) ∈ fields := by
  induction fields with
  | nil => cases h
  | cons e rest ih =>
    obtain ⟨n, v⟩ := e
    rw [lookup_cons] at h
    split at h
    · next hk =>
      cases h
      exact hk ▸ List.mem_cons_self
    · exact List.mem_cons_of_mem _ (ih h)

/-- Sorted fields are told apart by what is found in them. -/
theorem eq_of_lookup {fields' : List (String × α)} (h : (names fields).Pairwise (· < ·))
    (h' : (names fields').Pairwise (· < ·)) (hl : ∀ k, fields.lookup k = fields'.lookup k) : fields = fields' := by
  have hmem (e : String × α) : e ∈ fields ↔ e ∈ fields' := by
    constructor
    · intro he
      exact mem_of_lookup ((hl e.1).symm.trans (lookup_of_mem h he))
    · intro he
      exact mem_of_lookup ((hl e.1).trans (lookup_of_mem h' he))
  have hlt {l : List (String × α)} (hs : (names l).Pairwise (· < ·)) : l.Pairwise fun a b => a.1 < b.1 :=
    List.pairwise_map.1 hs
  have hnodup {l : List (String × α)} (hs : (names l).Pairwise (· < ·)) : l.Nodup :=
    (hlt hs).imp fun hab heq => absurd (congrArg Prod.fst heq) hab.ne
  have hperm : fields.Perm fields' := (List.perm_ext_iff_of_nodup (hnodup h) (hnodup h')).2 hmem
  exact hperm.eq_of_pairwise (fun a b _ _ hab hba => absurd hba hab.not_gt) (hlt h) (hlt h')

/-! ## Sorting -/

theorem sorted_foldl_put {acc : List (String × α)} (h : (names acc).Pairwise (· < ·)) (fields : List (String × α)) :
    (names (fields.foldl (fun acc e => put e.1 e.2 acc) acc)).Pairwise (· < ·) := by
  induction fields generalizing acc with
  | nil => exact h
  | cons e rest ih => exact ih (sorted_put h)

theorem sorted_sort (fields : List (String × α)) : (names (sort fields)).Pairwise (· < ·) :=
  sorted_foldl_put List.Pairwise.nil fields

theorem nodup_sort (fields : List (String × α)) : (names (sort fields)).Nodup := nodup_of_sorted (sorted_sort fields)

/-- Fields that are in order already stay as they are. -/
theorem sort_eq_self (h : (names fields).Pairwise (· < ·)) : sort fields = fields := by
  have hall (acc : List (String × α)) (hacc : (names (acc ++ fields)).Pairwise (· < ·)) :
      fields.foldl (fun acc e => put e.1 e.2 acc) acc = acc ++ fields := by
    clear h
    induction fields generalizing acc with
    | nil => exact (List.append_nil acc).symm
    | cons e rest ih =>
      have hlt : ∀ n ∈ names acc, n < e.1 := by
        unfold names at hacc ⊢
        rw [List.map_append, List.pairwise_append] at hacc
        exact fun n hn => hacc.2.2 n hn e.1 List.mem_cons_self
      rw [List.foldl_cons, put_of_forall_lt hlt, ih]
      · simp
      · simpa using hacc
  exact hall [] h

/-- Fields that are written one after another over others are found before those. -/
theorem lookup_foldl {write : String → α → List (String × α) → List (String × α)}
    (hwrite : ∀ n v acc k, (write n v acc).lookup k = if k = n then some v else acc.lookup k)
    (h : (names fields).Nodup) (acc : List (String × α)) (k : String) :
    (fields.foldl (fun acc e => write e.1 e.2 acc) acc).lookup k = (fields.lookup k).or (acc.lookup k) := by
  induction fields generalizing acc with
  | nil => rfl
  | cons e rest ih =>
    obtain ⟨n, v⟩ := e
    obtain ⟨hn, hrest⟩ := List.nodup_cons.1 h
    rw [List.foldl_cons, ih hrest, hwrite, lookup_cons]
    by_cases hk : k = n
    · have hnone : rest.lookup k = none := lookup_of_not_mem (hk ▸ hn)
      rw [if_pos hk, if_pos hk, hnone]
      rfl
    · rw [if_neg hk, if_neg hk]

theorem lookup_foldl_put (h : (names fields).Nodup) (acc : List (String × α)) (k : String) :
    (fields.foldl (fun acc e => put e.1 e.2 acc) acc).lookup k = (fields.lookup k).or (acc.lookup k) :=
  lookup_foldl (fun n v acc k => lookup_put n k v acc) h acc k

theorem mem_put {e : String × α} (h : e ∈ put name value fields) : e = (name, value) ∨ e ∈ fields := by
  induction fields with
  | nil => exact .inl (List.mem_singleton.1 h)
  | cons e' rest ih =>
    obtain ⟨n, v⟩ := e'
    unfold put at h
    split at h
    · exact (List.mem_cons.1 h).imp_right (List.mem_cons_of_mem _)
    · split at h
      · exact List.mem_cons.1 h
      · rcases List.mem_cons.1 h with h | h
        · exact .inr (h ▸ List.mem_cons_self)
        · exact (ih h).imp_right (List.mem_cons_of_mem _)

theorem mem_foldl_put {e : String × α} {acc : List (String × α)}
    (h : e ∈ fields.foldl (fun acc e => put e.1 e.2 acc) acc) : e ∈ fields ∨ e ∈ acc := by
  induction fields generalizing acc with
  | nil => exact .inr h
  | cons e' rest ih =>
    rcases ih h with h | h
    · exact .inl (List.mem_cons_of_mem _ h)
    · rcases mem_put h with rfl | h
      · exact .inl List.mem_cons_self
      · exact .inr h

/-- Sorting adds nothing. -/
theorem mem_sort {e : String × α} (h : e ∈ sort fields) : e ∈ fields := (mem_foldl_put h).resolve_right List.not_mem_nil

/-- Putting a new name adds its field to the others. -/
theorem perm_put (h : name ∉ names fields) : (put name value fields).Perm ((name, value) :: fields) := by
  induction fields with
  | nil => exact .refl _
  | cons e rest ih =>
    obtain ⟨n, v⟩ := e
    rw [names_cons, List.mem_cons, not_or] at h
    unfold put
    rw [if_neg h.1]
    split
    · exact .refl _
    · exact ((ih h.2).cons (n, v)).trans (.swap (name, value) (n, v) rest)

theorem perm_foldl_put {acc : List (String × α)} (h : (names (acc ++ fields)).Nodup) :
    (fields.foldl (fun acc e => put e.1 e.2 acc) acc).Perm (acc ++ fields) := by
  induction fields generalizing acc with
  | nil => simp
  | cons e rest ih =>
    have hmiddle : (names (e :: (acc ++ rest))).Nodup := (List.perm_middle.map Prod.fst).nodup h
    have hput : (put e.1 e.2 acc).Perm (e :: acc) := by
      apply perm_put
      intro hm
      apply (List.nodup_cons.1 hmiddle).1
      simp only [List.map_append, List.mem_append]
      exact .inl hm
    have hput' : (put e.1 e.2 acc ++ rest).Perm (e :: (acc ++ rest)) := hput.append_right rest
    have hrest := ih ((hput'.map Prod.fst).nodup_iff.2 hmiddle)
    exact hrest.trans (hput'.trans List.perm_middle.symm)

/-- **Sorting fields with distinct names only moves them.** -/
theorem perm_sort (h : (names fields).Nodup) : (sort fields).Perm fields := perm_foldl_put h

/-- Sorting keeps what is found under distinct names. -/
theorem lookup_sort (h : (names fields).Nodup) (k : String) : (sort fields).lookup k = fields.lookup k :=
  (lookup_foldl_put h [] k).trans Option.or_none

/-! ## Leaving out -/

/-- Leaving out unknown names keeps what is found under a known one. -/
theorem lookup_filter_known {known : List String} {k : String} (hk : k ∈ known) (fields : List (String × α)) :
    (fields.filter (·.1 ∈ known)).lookup k = fields.lookup k :=
  (lookup_filter (fun n => n ∈ known) k fields).trans (if_pos (by simpa using hk))

/-- Leaving out known names leaves what is found under the others. -/
theorem lookup_filter_unknown {known : List String} (fields : List (String × α)) (k : String) :
    (fields.filter (·.1 ∉ known)).lookup k = if k ∈ known then none else fields.lookup k := by
  rw [lookup_filter (fun n => n ∉ known) k fields]
  by_cases hk : k ∈ known
  · rw [if_pos hk, if_neg (by simpa using hk)]
  · rw [if_neg hk, if_pos (by simpa using hk)]

/-- Where values are left out, what is found under distinct names is what was found and stays. -/
theorem lookup_filter_values (h : (names fields).Nodup) (keep : α → Bool) (k : String) :
    (fields.filter fun e => keep e.2).lookup k = (fields.lookup k).filter keep := by
  induction fields with
  | nil => rfl
  | cons e rest ih =>
    obtain ⟨n, v⟩ := e
    obtain ⟨hn, hrest⟩ := List.nodup_cons.1 h
    cases hv : keep v with
    | true =>
      rw [List.filter_cons_of_pos (by simpa using hv), lookup_cons, lookup_cons, ih hrest]
      by_cases hk : k = n
      · rw [if_pos hk, if_pos hk, Option.filter_some, if_pos hv]
      · rw [if_neg hk, if_neg hk]
    | false =>
      rw [List.filter_cons_of_neg (by simp [hv]), lookup_cons, ih hrest]
      by_cases hk : k = n
      · rw [if_pos hk, hk, lookup_of_not_mem hn, Option.filter_some, hv]
        rfl
      · rw [if_neg hk]

/-! ## New values -/

theorem names_map (f : α → β) (fields : List (String × α)) :
    names (fields.map fun e => (e.1, f e.2)) = names fields := by
  rw [names, List.map_map]
  rfl

theorem lookup_map (f : α → β) (fields : List (String × α)) (k : String) :
    (fields.map fun e => (e.1, f e.2)).lookup k = (fields.lookup k).map f := by
  induction fields with
  | nil => rfl
  | cons e rest ih =>
    obtain ⟨n, v⟩ := e
    rw [List.map_cons, lookup_cons, lookup_cons, ih]
    split <;> rfl

/-! ## Inserting -/

/-- A new name is inserted at the end. -/
theorem insert_of_not_mem (h : name ∉ names fields) : insert name value fields = fields ++ [(name, value)] := by
  induction fields with
  | nil => rfl
  | cons e rest ih =>
    obtain ⟨n, v⟩ := e
    rw [names_cons, List.mem_cons, not_or] at h
    rw [insert, if_neg (Ne.symm h.1), ih h.2]
    rfl

/-- New names are inserted at the end, in their order. -/
theorem insertAll_eq_append {more : List (String × α)} (h : (names (fields ++ more)).Nodup) :
    insertAll fields more = fields ++ more := by
  unfold insertAll
  induction more generalizing fields with
  | nil => exact (List.append_nil fields).symm
  | cons e rest ih =>
    have hnew : e.1 ∉ names fields := by
      unfold names at h ⊢
      rw [List.map_append, List.nodup_append] at h
      exact fun hm => h.2.2 e.1 hm e.1 List.mem_cons_self rfl
    rw [List.foldl_cons, insert_of_not_mem hnew, ih]
    · simp
    · simpa using h

/-- Inserted fields are found before those that were there. -/
theorem lookup_insertAll {more : List (String × α)} (h : (names more).Nodup) (fields : List (String × α)) (k : String) :
    (insertAll fields more).lookup k = (more.lookup k).or (fields.lookup k) :=
  lookup_foldl (fun n v acc k => lookup_insert n k v acc) h fields k

/-- A field in front stays there, if it is not inserted anew. -/
theorem insertAll_cons {more : List (String × α)} (h : name ∉ names more) :
    insertAll ((name, value) :: fields) more = (name, value) :: insertAll fields more := by
  unfold insertAll
  induction more generalizing fields with
  | nil => rfl
  | cons e rest ih =>
    rw [names_cons, List.mem_cons, not_or] at h
    rw [List.foldl_cons, List.foldl_cons, insert, if_neg h.1, ih h.2]

end MediaQuery.Fields
