import MediaQuery.Decimal.Shortest
import MediaQuery.Fields
import MediaQuery.Instant

/-!
# Values

What actions compute and templates assemble: scalars, lists, ordered maps, selections of a parsed document, and
the marker that drops the field or element holding it. Selections are compared by identity, all else by
content; the order of a map's entries does not count.
-/

namespace MediaQuery

/-- A selection of nodes of a document: its identity, the text of all its nodes, and one selection per node. -/
inductive Selection where
  | node (id : List Nat) (text : String) (nodes : List Selection)
  deriving Inhabited

namespace Selection

/-- The identity of the selection. -/
def id : Selection → List Nat
  | .node id _ _ => id

/-- The text of all nodes. -/
def text : Selection → String
  | .node _ text _ => text

/-- One selection per node, in document order. -/
def nodes : Selection → List Selection
  | .node _ _ nodes => nodes

end Selection

/-- A value. -/
inductive Value where
  | null
  | bool (b : Bool)
  | integer (n : Int64)
  | number (x : Float)
  | string (s : String)
  | date (t : Instant)
  | list (items : List Value)
  | map (entries : List (String × Value))
  | selection (s : Selection)
  | exclude
  deriving Inhabited

namespace Value

/-- Whether the value is null. -/
def isNull : Value → Bool
  | .null => true
  | _ => false

/-- Whether the value is the exclusion marker. -/
def isExclude : Value → Bool
  | .exclude => true
  | _ => false

/-- A text. -/
def asString? : Value → Option String
  | .string s => some s
  | _ => none

/-- A truth value. -/
def asBool? : Value → Option Bool
  | .bool b => some b
  | _ => none

/-- A list's items. -/
def asList? : Value → Option (List Value)
  | .list items => some items
  | _ => none

/-- A map's entries. -/
def asMap? : Value → Option (List (String × Value))
  | .map entries => some entries
  | _ => none

/-- Whether a double is a whole number. -/
def isWhole (x : Float) : Bool := Decimal.isFinite x && x.floor == x

/-- A whole number: an integer, or a double without a fraction, clamped to the range of integers. -/
def asInt? : Value → Option Int64
  | .integer n => some n
  | .number x => if isWhole x then some x.toInt64 else none
  | _ => none

/-- A number as a double. -/
def asFloat? : Value → Option Float
  | .integer n => some n.toFloat
  | .number x => some x
  | _ => none

/-- The entry of a map. -/
def get? (v : Value) (key : String) : Option Value :=
  match v with
  | .map entries => entries.lookup key
  | _ => none

/-- The name of the value's kind, as messages give it. -/
def kind : Value → String
  | .null => "null"
  | .bool _ => "boolean"
  | .integer _ => "integer"
  | .number _ => "number"
  | .string _ => "string"
  | .date _ => "date"
  | .list _ => "array"
  | .map _ => "object"
  | .selection _ => "selection"
  | .exclude => "excluded"

/-- The integer of a count, modulo the word. -/
def ofCount (n : Nat) : Value := .integer (Int64.ofNat n)

/-- An optional value; none is null. -/
def ofOption (f : α → Value) : Option α → Value
  | some a => f a
  | none => .null

mutual

/-- Equality of values. -/
def beq : Value → Value → Bool
  | .null, .null => true
  | .exclude, .exclude => true
  | .bool a, .bool b => a == b
  | .integer a, .integer b => a == b
  | .number a, .number b => a == b
  | .string a, .string b => a == b
  | .date a, .date b => a == b
  | .list a, .list b => beqItems a b
  | .map a, .map b => a.length == b.length && beqEntries a b
  | .selection a, .selection b => a.id == b.id
  | _, _ => false

/-- Equality of lists, item by item. -/
def beqItems : List Value → List Value → Bool
  | [], [] => true
  | a :: as, b :: bs => beq a b && beqItems as bs
  | _, _ => false

/-- Whether every entry is found in the other map with an equal value. -/
def beqEntries : List (String × Value) → List (String × Value) → Bool
  | [], _ => true
  | (key, a) :: as, bs =>
    (match bs.lookup key with
      | some b => beq a b
      | none => false) && beqEntries as bs

end

instance : BEq Value := ⟨beq⟩

end Value

end MediaQuery
