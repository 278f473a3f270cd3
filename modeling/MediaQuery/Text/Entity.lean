import MediaQuery.Text.EntityNames

/-!
# Character references

A reference is an ampersand, a name or a number, and a semicolon. `decodeEntities` replaces each one that
stands for a character and leaves all other text alone: a number that is no scalar value or is a control, a name
that the table lacks, and a reference without its semicolon stay as they are. What a reference decodes to is
not looked at again.
-/

namespace MediaQuery.Text

/-- The value of a digit in the given base. -/
def digitValue? (base : Nat) (c : Char) : Option Nat :=
  let v :=
    if c.isDigit then some (c.toNat - '0'.toNat)
    else if 'a' ≤ c ∧ c ≤ 'z' then some (c.toNat - 'a'.toNat + 10)
    else if 'A' ≤ c ∧ c ≤ 'Z' then some (c.toNat - 'A'.toNat + 10)
    else none
  v.filter (· < base)

/-- The number that a row of digits writes, if there is at least one and all are digits of the base. -/
def number? (base : Nat) (digits : List Char) : Option Nat :=
  if digits.isEmpty then none
  else digits.foldlM (fun n c => (digitValue? base c).map (n * base + ·)) 0

/-- The character with the given number. Controls are refused, apart from tab, line feed, form feed and
carriage return. -/
def scalar? (n : Nat) : Option Char :=
  if h : n.isValidChar then
    if n < 0x20 ∧ n ∉ [0x9, 0xa, 0xc, 0xd] then none
    else some (Char.ofNatAux n h)
  else none

/-- What a reference with the given body (the text between the ampersand and the semicolon) stands for. -/
def entity? (body : List Char) : Option (List Char) :=
  match body with
  | '#' :: 'x' :: digits | '#' :: 'X' :: digits => (number? 16 digits >>= scalar?).map fun c => [c]
  | '#' :: digits => (number? 10 digits >>= scalar?).map fun c => [c]
  | name => (entityNames.lookup (String.ofList name)).map String.toList

/-- Decodes from left to right. The second argument holds the body of the reference that is open, if any, in
reverse: another ampersand before its semicolon opens a new one there. -/
def decodeChars : List Char → Option (List Char) → List Char
  | [], none => []
  | [], some body => '&' :: body.reverse
  | '&' :: rest, none => decodeChars rest (some [])
  | c :: rest, none => c :: decodeChars rest none
  | '&' :: rest, some body => '&' :: body.reverse ++ decodeChars rest (some [])
  | ';' :: rest, some body =>
    match entity? body.reverse with
    | some text => text ++ decodeChars rest none
    | none => '&' :: body.reverse ++ ';' :: decodeChars rest none
  | c :: rest, some body => decodeChars rest (some (c :: body))

/-- Text with its character references decoded. -/
def decodeEntities (s : String) : String := String.ofList (decodeChars s.toList none)

/-- Text without an ampersand holds no reference. -/
theorem decodeChars_eq_self {s : List Char} (h : '&' ∉ s) : decodeChars s none = s := by
  induction s with
  | nil => rfl
  | cons c rest ih =>
    have hc : c ≠ '&' := fun e => h (by simp [e])
    have hrest : '&' ∉ rest := fun e => h (by simp [e])
    unfold decodeChars
    split <;> simp_all

end MediaQuery.Text
