import MediaQuery.Proofs.Branch.Store

/-!
# Stores further down

Futures are named by the branch that has started them. Where a tree of branches is found again below a route, its
futures have the names that `FutureId.shift` gives them, and its stores refer to them by these (`Store.shift`).
Every operation on a store is the same further down.
-/

namespace MediaQuery

namespace Fields

universe u v
variable {α : Type u} {β : Type v}

theorem lookup_map_values (f : α → β) (key : String) (fields : List (String × α)) :
    (fields.map fun e => (e.1, f e.2)).lookup key = (fields.lookup key).map f := by
  induction fields with
  | nil => rfl
  | cons e rest ih =>
    obtain ⟨n, v⟩ := e
    rw [List.map_cons, lookup_cons, lookup_cons, ih]
    split <;> rfl

theorem put_map_values (f : α → β) (key : String) (value : α) (fields : List (String × α)) :
    put key (f value) (fields.map fun e => (e.1, f e.2)) = (put key value fields).map fun e => (e.1, f e.2) := by
  induction fields with
  | nil => rfl
  | cons e rest ih =>
    obtain ⟨n, v⟩ := e
    simp only [List.map_cons, put]
    split
    · rfl
    · split
      · rfl
      · rw [ih, List.map_cons]

theorem erase_map_values (f : α → β) (key : String) (fields : List (String × α)) :
    erase key (fields.map fun e => (e.1, f e.2)) = (erase key fields).map fun e => (e.1, f e.2) := by
  unfold erase
  rw [List.filter_map]
  rfl

end Fields

/-- The name of a future below a route. -/
def FutureId.shift (route : Route) (id : FutureId) : FutureId := ⟨route ++ id.home, id.generation⟩

/-- Different futures have different names below a route too. -/
theorem FutureId.shift_inj {route : Route} {id id' : FutureId} : id.shift route = id'.shift route ↔ id = id' := by
  obtain ⟨home, generation⟩ := id
  obtain ⟨home', generation'⟩ := id'
  simp [FutureId.shift]

/-- What a key holds below a route. -/
def Slot.shift (route : Route) : Slot → Slot
  | .ready value => .ready value
  | .pending future => .pending (future.shift route)

/-- An entry below a route. -/
def Entry.shift (route : Route) (e : Entry) : Entry := ⟨e.generation, e.slot.shift route⟩

/-- A reference to a future below a route. -/
def slotShift (route : Route) (slot : String × Nat × FutureId) : String × Nat × FutureId :=
  (slot.1, slot.2.1, slot.2.2.shift route)

namespace Store

/-- The values of a branch below a route. -/
def shift (route : Route) (s : Store) : Store := ⟨s.entries.map fun e => (e.1, e.2.shift route), s.generation⟩

variable (route : Route) (s : Store) (key : String)

@[simp] theorem generation_shift : (s.shift route).generation = s.generation := rfl

theorem find?_shift : (s.shift route).find? key = (s.find? key).map (Entry.shift route) :=
  Fields.lookup_map_values (Entry.shift route) key s.entries

theorem has_shift : (s.shift route).has key = s.has key := by
  unfold has
  rw [find?_shift, Option.isSome_map]

theorem write_shift (slot : Slot) :
    (s.shift route).write key (slot.shift route) = (s.write key slot).shift route :=
  congrArg (Store.mk · (s.generation + 1))
    (Fields.put_map_values (Entry.shift route) key ⟨s.generation + 1, slot⟩ s.entries)

theorem replace_shift (generation : Nat) (slot : Slot) :
    (s.shift route).replace key generation (slot.shift route) = (s.replace key generation slot).shift route :=
  congrArg (Store.mk · s.generation) (Fields.put_map_values (Entry.shift route) key ⟨generation, slot⟩ s.entries)

theorem settle_shift (generation : Nat) (value : Option Value) :
    (s.shift route).settle key generation value = (s.settle key generation value).shift route := by
  unfold settle
  rw [find?_shift]
  cases s.find? key with
  | none => rfl
  | some entry =>
    simp only [Option.map_some, Entry.shift]
    split
    · cases value with
      | some v => exact s.replace_shift route key generation (.ready v)
      | none => exact congrArg (Store.mk · s.generation) (Fields.erase_map_values (Entry.shift route) key s.entries)
    · rfl

theorem resolve_shift (generation : Nat) (value : Value) :
    (s.shift route).resolve key generation value = (s.resolve key generation value).map (shift route) := by
  unfold resolve
  rw [find?_shift]
  cases s.find? key with
  | none => rfl
  | some entry =>
    simp only [Option.map_some, Entry.shift]
    split
    · exact congrArg Except.ok (s.replace_shift route key generation (.ready value))
    · rfl

theorem get_shift (outcome : FutureId → Outcome) :
    (s.shift route).get outcome key = s.get (fun id => outcome (id.shift route)) key := by
  unfold get
  rw [find?_shift]
  rcases s.find? key with _ | ⟨generation, value | future⟩ <;> rfl

theorem getAll_shift : (s.shift route).getAll = s.getAll := by
  unfold getAll shift
  rw [List.filterMap_map]
  refine congrArg (List.filterMap · s.entries) (funext fun e => ?_)
  obtain ⟨k, generation, slot⟩ := e
  cases slot <;> rfl

theorem pending_shift : (s.shift route).pending = s.pending.map (slotShift route) := by
  unfold pending shift
  rw [List.filterMap_map, List.map_filterMap]
  refine congrArg (List.filterMap · s.entries) (funext fun e => ?_)
  obtain ⟨k, generation, slot⟩ := e
  cases slot <;> rfl

theorem ofValues_shift (values : List (String × Value)) : (ofValues values).shift route = ofValues values := by
  induction values using List.reverseRecOn with
  | nil => rfl
  | append_singleton values e ih =>
    rw [ofValues_snoc, ← write_shift route _ e.1 (.ready e.2), ih]
    rfl

/-- A store without pending values is the same everywhere. -/
theorem shift_of_settled (h : s.pending = []) : s.shift route = s := by
  have hentry (e : String × Entry) (he : e ∈ s.entries) : (e.1, e.2.shift route) = e := by
    obtain ⟨k, generation, slot⟩ := e
    cases slot with
    | ready v => rfl
    | pending future =>
      have hmem : (k, generation, future) ∈ s.pending := List.mem_filterMap.2 ⟨_, he, rfl⟩
      rw [h] at hmem
      cases hmem
  have hentries : (s.entries.map fun e => (e.1, e.2.shift route)) = s.entries.map id := List.map_congr_left hentry
  rw [List.map_id] at hentries
  exact congrArg (Store.mk · s.generation) hentries

end Store

end MediaQuery
