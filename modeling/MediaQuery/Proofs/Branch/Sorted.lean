import MediaQuery.Proofs.Branch.Store
import MediaQuery.Proofs.Fields.Sorted

/-!
# Stores are sorted

The entries of a store stay in the order of their keys, so that each key has one entry, and a reference that is
listed as pending is the entry of its key (`Store.Sorted.find?_of_pending`).
-/

namespace MediaQuery

namespace Store

variable {s : Store}

/-- The entries are in the order of their keys. -/
def Sorted (s : Store) : Prop := (Fields.names s.entries).Pairwise (· < ·)

theorem sorted_empty : Sorted empty := List.Pairwise.nil

theorem Sorted.write (h : s.Sorted) (key : String) (slot : Slot) : (s.write key slot).Sorted := Fields.sorted_put h

theorem Sorted.replace (h : s.Sorted) (key : String) (generation : Nat) (slot : Slot) :
    (s.replace key generation slot).Sorted := Fields.sorted_put h

theorem Sorted.settle (h : s.Sorted) (key : String) (generation : Nat) (value : Option Value) :
    (s.settle key generation value).Sorted := by
  unfold Store.settle
  split
  · split
    · split
      · exact h.replace _ _ _
      · exact Fields.sorted_erase h
    · exact h
  · exact h

theorem sorted_ofValues (values : List (String × Value)) : (ofValues values).Sorted := by
  induction values using List.reverseRecOn with
  | nil => exact sorted_empty
  | append_singleton values e ih =>
    rw [ofValues_snoc]
    exact ih.write _ _

/-- A reference that is listed as pending is the entry of its key. -/
theorem Sorted.find?_of_pending (h : s.Sorted) {key : String} {generation : Nat} {id : FutureId}
    (hm : (key, generation, id) ∈ s.pending) : s.find? key = some ⟨generation, .pending id⟩ := by
  obtain ⟨⟨k, g, slot⟩, he, hs⟩ := List.mem_filterMap.1 hm
  cases slot with
  | ready v => cases hs
  | pending future =>
    cases hs
    exact Fields.lookup_of_mem h he

end Store

end MediaQuery
