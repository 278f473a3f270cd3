import MediaQuery.Error
import MediaQuery.Value.Json

/-!
# The values of a branch

A store maps keys to entries. Every write gives its entry the next generation of the store, so a value that took
its time can tell whether its key has been written since (`Store.resolve`). An entry is ready or refers to a
future; copies of the store share the future, and each copy replaces the reference by the outcome when it next
waits for it (`Store.settle`).
-/

namespace MediaQuery

/-- The key of the current value. -/
def currentKey : String := ""

/-- A future is named by the branch that started it and the generation of the write that did. -/
structure FutureId where
  home : Route
  generation : Nat
  deriving DecidableEq, Repr, Inhabited

/-- What has become of a future. -/
inductive Outcome where
  | running
  | resolved (value : Value)
  | failed
  deriving Inhabited

/-- The value of a resolved future. -/
def Outcome.value? : Outcome → Option Value
  | .resolved value => some value
  | _ => none

/-- Whether the future still runs. -/
def Outcome.isRunning : Outcome → Bool
  | .running => true
  | _ => false

/-- What a key holds. -/
inductive Slot where
  | ready (value : Value)
  | pending (future : FutureId)
  deriving Inhabited

/-- A slot and the generation of the write that made it. -/
structure Entry where
  generation : Nat
  slot : Slot
  deriving Inhabited

/-- The values of a branch, sorted by key, and the number of writes so far. -/
structure Store where
  entries : List (String × Entry)
  generation : Nat
  deriving Inhabited

namespace Store

/-- A store without values. -/
def empty : Store := ⟨[], 0⟩

/-- The entry of a key. -/
def find? (s : Store) (key : String) : Option Entry := s.entries.lookup key

/-- Writes a slot under a fresh generation. -/
def write (s : Store) (key : String) (slot : Slot) : Store :=
  { entries := Fields.put key ⟨s.generation + 1, slot⟩ s.entries
    generation := s.generation + 1 }

/-- Replaces the slot of an entry, whose generation stays. -/
def replace (s : Store) (key : String) (generation : Nat) (slot : Slot) : Store :=
  { s with entries := Fields.put key ⟨generation, slot⟩ s.entries }

/-- A store with the given values, written in order. -/
def ofValues (values : List (String × Value)) : Store :=
  values.foldl (fun s e => s.write e.1 (.ready e.2)) empty

/-- The value of a key, where the outcome of futures is known. -/
def get (s : Store) (outcome : FutureId → Outcome) (key : String) : Except ContextError Value :=
  match s.find? key with
  | some ⟨_, .ready value⟩ => .ok value
  | some ⟨_, .pending future⟩ =>
    match outcome future with
    | .resolved value => .ok value
    | .running => .error (.pendingValue key)
    | .failed => .error (.missingValue key)
  | none => .error (.missingValue key)

/-- Whether a key has an entry. -/
def has (s : Store) (key : String) : Bool := (s.find? key).isSome

/-- The keys, sorted. -/
def keys (s : Store) : List String := Fields.names s.entries

/-- The value of a ready slot. -/
def Slot.value? : Slot → Option Value
  | .ready value => some value
  | .pending _ => none

/-- Every ready value, sorted by key. -/
def getAll (s : Store) : List (String × Value) :=
  s.entries.filterMap fun e => (Slot.value? e.2.slot).map fun value => (e.1, value)

/-- Puts the value of a future into the entry that waits for it. If the key has been written since, the store
stays and the future is stale. -/
def resolve (s : Store) (key : String) (generation : Nat) (value : Value) : Except ContextError Store :=
  match s.find? key with
  | some entry =>
    if entry.generation = generation then .ok (s.replace key generation (.ready value))
    else .error (.staleWrite key)
  | none => .error (.staleWrite key)

/-- Replaces a reference to a future by its outcome, unless the key has been written since; a failed future
leaves the key unset. -/
def settle (s : Store) (key : String) (generation : Nat) (value : Option Value) : Store :=
  match s.find? key with
  | some entry =>
    if entry.generation = generation then
      match value with
      | some value => s.replace key generation (.ready value)
      | none => { s with entries := Fields.erase key s.entries }
    else s
  | none => s

/-- The entries that refer to futures: key, generation and future, sorted by key. -/
def pending (s : Store) : List (String × Nat × FutureId) :=
  s.entries.filterMap fun e =>
    match e.2.slot with
    | .pending future => some (e.1, e.2.generation, future)
    | .ready _ => none

/-! ## Laws of single operations -/

theorem find?_write (s : Store) (key k : String) (slot : Slot) :
    (s.write key slot).find? k = if k = key then some ⟨s.generation + 1, slot⟩ else s.find? k := by
  simp [write, find?, Fields.lookup_put]

theorem find?_replace (s : Store) (key k : String) (generation : Nat) (slot : Slot) :
    (s.replace key generation slot).find? k = if k = key then some ⟨generation, slot⟩ else s.find? k := by
  simp [replace, find?, Fields.lookup_put]

end Store

end MediaQuery
