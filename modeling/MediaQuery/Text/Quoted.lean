import MediaQuery.Text.Hidden

/-!
# Quoted text

Text as a report shows it: between double quotes, with a backslash before quotes and backslashes, short
escapes for the four common controls, and every other character that does not show on its own as its number
in hexadecimal.
-/

namespace MediaQuery.Text

/-- The hexadecimal digits of a number, in lower case. -/
def hex (n : Nat) : String := String.ofList (Nat.toDigits 16 n)

/-- One character inside quotes. -/
def quoteChar (c : Char) : String :=
  match c with
  | '"' => "\\\""
  | '\\' => "\\\\"
  | '\t' => "\\t"
  | '\r' => "\\r"
  | '\n' => "\\n"
  | '\x00' => "\\0"
  | c => if isHidden c then "\\u\x7b" ++ hex c.toNat ++ "\x7d" else c.toString

/-- The text between double quotes. -/
def quote (s : String) : String :=
  "\"" ++ String.join (s.toList.map quoteChar) ++ "\""

/-- An optional item as a report shows it. -/
def showOption (render : α → String) : Option α → String
  | none => "None"
  | some a => "Some(" ++ render a ++ ")"

/-- Items between brackets, a comma and a blank apart. -/
def bracketed (items : List String) : String :=
  "[" ++ ", ".intercalate items ++ "]"

end MediaQuery.Text
