import MediaQuery.Fields

/-!
# JSON values

A number is whole or a double. An object is a list of members; `Json.object` puts members into the order of
their names and keeps the last of each name, which is the form every object of a request or a page has.
-/

namespace MediaQuery

/-- A JSON value. -/
inductive Json where
  | null
  | bool (b : Bool)
  | int (n : Int)
  | float (x : Float)
  | str (s : String)
  | arr (items : List Json)
  | obj (members : List (String × Json))
  deriving Inhabited

namespace Json

/-- The object with the given members, sorted by name. -/
def object (members : List (String × Json)) : Json := .obj (Fields.sort members)

/-- The member of an object. -/
def get? (j : Json) (name : String) : Option Json :=
  match j with
  | .obj members => members.lookup name
  | _ => none

/-- The fields of a record, given the names it can have in order. A record is an object, where other names do not
count and none of these is repeated, or the list of its leading fields. -/
def fields? (known : List String) : Json → Option (List (String × Json))
  | .obj members =>
    let fields := members.filter (·.1 ∈ known)
    if (Fields.names fields).Nodup then some fields else none
  | .arr items => if items.length ≤ known.length then some (known.zip items) else none
  | _ => none

/-- The least whole number of a 64-bit word with sign. -/
def minWord : Int := -Int.pow 2 63

/-- The greatest whole number of a 64-bit word with sign. -/
def maxWord : Int := Int.pow 2 63 - 1

/-- A whole number that fits a 64-bit word with sign. -/
def asWord? : Json → Option Int
  | .int n => if minWord ≤ n ∧ n ≤ maxWord then some n else none
  | _ => none

/-- A text. -/
def asStr? : Json → Option String
  | .str s => some s
  | _ => none

/-- A truth value. -/
def asBool? : Json → Option Bool
  | .bool b => some b
  | _ => none

mutual

/-- The same value with the members of every object sorted by name. -/
def normalize : Json → Json
  | .arr items => .arr (normalizeItems items)
  | .obj members => .object (normalizeMembers members)
  | j => j

/-- Every item with its objects sorted. -/
def normalizeItems : List Json → List Json
  | [] => []
  | j :: rest => j.normalize :: normalizeItems rest

/-- Every member with its objects sorted. -/
def normalizeMembers : List (String × Json) → List (String × Json)
  | [] => []
  | (name, j) :: rest => (name, j.normalize) :: normalizeMembers rest

end

mutual

/-- Equality of JSON values; doubles compare as numbers, so a NaN differs from itself. -/
def beq : Json → Json → Bool
  | .null, .null => true
  | .bool a, .bool b => a == b
  | .int a, .int b => a == b
  | .float a, .float b => a == b
  | .str a, .str b => a == b
  | .arr a, .arr b => beqItems a b
  | .obj a, .obj b => beqMembers a b
  | _, _ => false

/-- Equality item by item. -/
def beqItems : List Json → List Json → Bool
  | [], [] => true
  | a :: as, b :: bs => beq a b && beqItems as bs
  | _, _ => false

/-- Equality member by member, in order. -/
def beqMembers : List (String × Json) → List (String × Json) → Bool
  | [], [] => true
  | (m, a) :: as, (n, b) :: bs => m == n && beq a b && beqMembers as bs
  | _, _ => false

end

instance : BEq Json := ⟨beq⟩

end Json

end MediaQuery
