import MediaQuery.Json.Text
import MediaQuery.Value.Basic

/-!
# Values and JSON

Two encoders and one decoder. `Value.toJson` sorts the members of every object, `Value.wire` keeps the order of
the map; both drop excluded items and entries, write dates and selections as text, and have null for what JSON
lacks. `Value.ofJson` reads a JSON value back.
-/

namespace MediaQuery.Value

/-- The JSON number of a double; there is none for infinities and NaNs. -/
def jsonOfFloat (x : Float) : Json := if Decimal.isFinite x then .float x else .null

mutual

/-- The JSON form with sorted members. -/
def toJson : Value → Json
  | .null => .null
  | .exclude => .null
  | .bool b => .bool b
  | .integer n => .int n.toInt
  | .number x => jsonOfFloat x
  | .string s => .str s
  | .date t => .str t.render
  | .list items => .arr (toJsonItems items)
  | .map entries => Json.object (toJsonMembers entries)
  | .selection s => .str s.text

/-- The items that are not excluded. -/
def toJsonItems : List Value → List Json
  | [] => []
  | v :: rest => if v.isExclude then toJsonItems rest else v.toJson :: toJsonItems rest

/-- The entries that are not excluded. -/
def toJsonMembers : List (String × Value) → List (String × Json)
  | [] => []
  | (key, v) :: rest => if v.isExclude then toJsonMembers rest else (key, v.toJson) :: toJsonMembers rest

end

mutual

/-- The JSON form with members in the order of the map. -/
def wire : Value → Json
  | .null => .null
  | .exclude => .null
  | .bool b => .bool b
  | .integer n => .int n.toInt
  | .number x => jsonOfFloat x
  | .string s => .str s
  | .date t => .str t.render
  | .list items => .arr (wireItems items)
  | .map entries => .obj (wireMembers entries)
  | .selection s => .str s.text

/-- The items that are not excluded. -/
def wireItems : List Value → List Json
  | [] => []
  | v :: rest => if v.isExclude then wireItems rest else v.wire :: wireItems rest

/-- The entries that are not excluded. -/
def wireMembers : List (String × Value) → List (String × Json)
  | [] => []
  | (key, v) :: rest => if v.isExclude then wireMembers rest else (key, v.wire) :: wireMembers rest

end

mutual

/-- The value of a JSON value. A whole number beyond the range of integers becomes the nearest double. -/
def ofJson : Json → Value
  | .null => .null
  | .bool b => .bool b
  | .int n => if Json.minWord ≤ n ∧ n ≤ Json.maxWord then .integer (Int64.ofInt n) else .number (Float.ofInt n)
  | .float x => .number x
  | .str s => .string s
  | .arr items => .list (ofJsonItems items)
  | .obj members => .map (ofJsonMembers members)

/-- The values of the items. -/
def ofJsonItems : List Json → List Value
  | [] => []
  | j :: rest => ofJson j :: ofJsonItems rest

/-- The values of the members. -/
def ofJsonMembers : List (String × Json) → List (String × Value)
  | [] => []
  | (name, j) :: rest => (name, ofJson j) :: ofJsonMembers rest

end

/-- The text of a value inside messages: strings and selections bare, all else as JSON. -/
def display : Value → String
  | .string s => s
  | .selection s => s.text
  | v => v.toJson.render

/-- The text of an optional value inside messages. -/
def displayOption : Option Value → String
  | some v => v.display
  | none => "undefined"

end MediaQuery.Value
