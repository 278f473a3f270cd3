import MediaQuery.Branch.Store
import Mathlib.Data.List.Induction

/-!
# Laws of stores

What each operation on a store does to the entry of every key, and to the generation. A value or the end of a
future finds its way into an entry only if the entry still has the generation of the write that started the future
(`find?_settle`, `resolve_eq`).
-/

namespace MediaQuery.Store

variable {s : Store} {key k : String} {generation : Nat}

@[simp] theorem find?_empty (key : String) : empty.find? key = none := rfl

@[simp] theorem generation_write (s : Store) (key : String) (slot : Slot) :
    (s.write key slot).generation = s.generation + 1 := rfl

@[simp] theorem generation_replace (s : Store) (key : String) (generation : Nat) (slot : Slot) :
    (s.replace key generation slot).generation = s.generation := rfl

@[simp] theorem generation_settle (s : Store) (key : String) (generation : Nat) (value : Option Value) :
    (s.settle key generation value).generation = s.generation := by
  unfold settle
  repeat' split
  all_goals rfl

/-- The end of a future goes into the entry of its own write and nowhere else. -/
theorem find?_settle (s : Store) (key k : String) (generation : Nat) (value : Option Value) :
    (s.settle key generation value).find? k =
      if k = key ∧ ∃ e, s.find? key = some e ∧ e.generation = generation then
        value.map fun v => ⟨generation, .ready v⟩
      else s.find? k := by
  unfold settle
  cases he : s.find? key with
  | none => simp
  | some entry =>
    by_cases hg : entry.generation = generation
    · cases value with
      | some v => simp [hg, find?_replace]
      | none => simp [hg, find?, Fields.lookup_erase]
    · simp [hg]

/-- A value goes into its entry if the entry still has the generation of its write; otherwise it is stale. -/
theorem resolve_eq (s : Store) (key : String) (generation : Nat) (value : Value) :
    s.resolve key generation value =
      if ∃ e, s.find? key = some e ∧ e.generation = generation then .ok (s.replace key generation (.ready value))
      else .error (.staleWrite key) := by
  unfold resolve
  cases s.find? key with
  | none => simp
  | some entry => simp

/-- No entry is newer than the store. -/
def Bounded (s : Store) : Prop := ∀ key e, s.find? key = some e → e.generation ≤ s.generation

theorem bounded_empty : Bounded empty := fun _ _ h => by simp at h

theorem Bounded.write (h : s.Bounded) (key : String) (slot : Slot) : (s.write key slot).Bounded := by
  intro k e he
  rw [find?_write] at he
  split at he
  · cases he
    exact Nat.le_refl _
  · exact Nat.le_succ_of_le (h k e he)

theorem Bounded.replace (h : s.Bounded) (hg : generation ≤ s.generation) (slot : Slot) :
    (s.replace key generation slot).Bounded := by
  intro k e he
  rw [find?_replace] at he
  split at he
  · cases he
    exact hg
  · exact h k e he

theorem Bounded.settle (h : s.Bounded) (key : String) (generation : Nat) (value : Option Value) :
    (s.settle key generation value).Bounded := by
  intro k e he
  rw [find?_settle] at he
  rw [generation_settle]
  split at he
  · next hk =>
    obtain ⟨-, entry, hentry, hg⟩ := hk
    obtain ⟨v, -, rfl⟩ := Option.map_eq_some_iff.1 he
    exact hg ▸ h key entry hentry
  · exact h k e he

/-- The values of a store that holds nothing else are ready, and of several for one key the last one counts. -/
theorem ofValues_snoc (values : List (String × Value)) (e : String × Value) :
    ofValues (values ++ [e]) = (ofValues values).write e.1 (.ready e.2) := by
  simp [ofValues]

theorem bounded_ofValues (values : List (String × Value)) : (ofValues values).Bounded := by
  induction values using List.reverseRecOn with
  | nil => exact bounded_empty
  | append_singleton values e ih =>
    rw [ofValues_snoc]
    exact ih.write _ _

theorem find?_ofValues (values : List (String × Value)) (key : String) :
    ((ofValues values).find? key).map Entry.slot = (values.reverse.lookup key).map Slot.ready := by
  induction values using List.reverseRecOn with
  | nil => rfl
  | append_singleton values e ih =>
    rw [ofValues_snoc, find?_write, List.reverse_append, List.reverse_singleton, List.singleton_append,
      Fields.lookup_cons]
    by_cases hk : key = e.1
    · simp [hk]
    · simpa [hk] using ih

end MediaQuery.Store
