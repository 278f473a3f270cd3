import MediaQuery.Decimal.Shortest
import MediaQuery.Json.Basic
import MediaQuery.Text.Quoted

/-!
# JSON as text

Compact text: no blanks, strings escape only quotes, backslashes and controls, and members stand in the order of
their list.
-/

namespace MediaQuery.Json

/-- Doubles are positional from a hundred-thousandth to below ten to the sixteenth, always with a fraction. -/
def numberLayout : Decimal.Layout := ⟨-5, 16, ".0", "+"⟩

/-- One character inside a string. -/
def escape (c : Char) : String :=
  match c with
  | '"' => "\\\""
  | '\\' => "\\\\"
  | '\x08' => "\\b"
  | '\x0c' => "\\f"
  | '\n' => "\\n"
  | '\r' => "\\r"
  | '\t' => "\\t"
  | c =>
    if c.toNat < 0x20 then "\\u00" ++ (if c.toNat < 0x10 then "0" else "") ++ Text.hex c.toNat
    else c.toString

/-- A string with its quotes. -/
def renderString (s : String) : String :=
  "\"" ++ String.join (s.toList.map escape) ++ "\""

mutual

/-- The compact text of a value. Doubles that are not finite have none and are written `null`. -/
def render : Json → String
  | .null => "null"
  | .bool b => if b then "true" else "false"
  | .int n => toString n
  | .float x => if Decimal.isFinite x then numberLayout.float x else "null"
  | .str s => renderString s
  | .arr items => "[" ++ ",".intercalate (renderItems items) ++ "]"
  | .obj members => "\x7b" ++ ",".intercalate (renderMembers members) ++ "\x7d"

/-- The texts of the items. -/
def renderItems : List Json → List String
  | [] => []
  | j :: rest => j.render :: renderItems rest

/-- The texts of the members. -/
def renderMembers : List (String × Json) → List String
  | [] => []
  | (name, j) :: rest => (renderString name ++ ":" ++ j.render) :: renderMembers rest

end

end MediaQuery.Json
