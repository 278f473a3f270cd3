import MediaQuery.Json.Basic

/-!
# Reading JSON text

`Json.read?` accepts exactly one JSON value with blanks around it. Members keep their order and their
repetitions, so that a reader of settings can refuse a repeated name. A number without fraction and exponent is
whole if it fits a 64-bit word, with or without sign; every other number is the nearest double. A string that
escapes half of a surrogate pair is well formed but has no text: it stands as null, and so does an object with such
a name. Who needs the string or the object refuses the null, and who passes over it does not mind.
-/

namespace MediaQuery.Json

/-- The blanks of JSON. -/
def isBlank (c : Char) : Bool := c == ' ' || c == '\n' || c == '\t' || c == '\r'

/-- What is left after the blanks. -/
def skipBlanks (s : List Char) : List Char := s.dropWhile isBlank

/-- The value of a row of decimal digits. -/
def digitsValue (digits : List Char) : Nat :=
  digits.foldl (fun n c => n * 10 + (c.toNat - '0'.toNat)) 0

/-- The nearest double to `mantissa * 10 ^ exponent`. -/
def nearest (negative : Bool) (mantissa : Nat) (exponent : Int) : Float :=
  let width : Int := (Nat.toDigits 10 mantissa).length
  let x :=
    if mantissa = 0 ∨ width + exponent < -400 then 0.0
    else if 400 < width + exponent then 1.0 / 0.0
    else Float.ofScientific mantissa (exponent < 0) exponent.natAbs
  if negative then -x else x

/-- The fraction of a number: its digits, none if there is no point. -/
def fraction? : List Char → Option (List Char × List Char)
  | '.' :: rest =>
    let digits := rest.takeWhile Char.isDigit
    if digits.isEmpty then none else some (digits, rest.dropWhile Char.isDigit)
  | rest => some ([], rest)

/-- The exponent of a number, if it has one. -/
def exponent? : List Char → Option (Option Int × List Char)
  | c :: rest =>
    if c = 'e' ∨ c = 'E' then
      let (sign, rest) : Int × List Char :=
        match rest with
        | '-' :: rest => (-1, rest)
        | '+' :: rest => (1, rest)
        | rest => (1, rest)
      let digits := rest.takeWhile Char.isDigit
      if digits.isEmpty then none
      else some (some (sign * digitsValue digits), rest.dropWhile Char.isDigit)
    else some (none, c :: rest)
  | [] => some (none, [])

/-- A number, and what follows it. The integer part has no needless zero in front. -/
def number? (s : List Char) : Option (Json × List Char) := do
  let (negative, s) := match s with
    | '-' :: rest => (true, rest)
    | rest => (false, rest)
  let whole := s.takeWhile Char.isDigit
  let s := s.dropWhile Char.isDigit
  if whole.isEmpty ∨ (whole.length ≠ 1 ∧ whole.head? = some '0') then none
  let (frac, s) ← fraction? s
  let (power, s) ← exponent? s
  if frac.isEmpty ∧ power.isNone then
    let n := digitsValue whole
    if negative then
      if n = 0 ∨ Nat.pow 2 63 < n then some (.float (nearest true n 0), s) else some (.int (-(n : Int)), s)
    else if Nat.pow 2 64 ≤ n then some (.float (nearest false n 0), s)
    else some (.int n, s)
  else
    some (.float (nearest negative (digitsValue (whole ++ frac)) (power.getD 0 - frac.length)), s)

/-- The number of four hexadecimal digits. -/
def hex4? : List Char → Option (Nat × List Char)
  | a :: b :: c :: d :: rest => do
    let value (c : Char) : Option Nat :=
      if c.isDigit then some (c.toNat - '0'.toNat)
      else if 'a' ≤ c ∧ c ≤ 'f' then some (c.toNat - 'a'.toNat + 10)
      else if 'A' ≤ c ∧ c ≤ 'F' then some (c.toNat - 'A'.toNat + 10)
      else none
    some ((((← value a) * 16 + (← value b)) * 16 + (← value c)) * 16 + (← value d), rest)
  | _ => none

/-- The first half of a surrogate pair. -/
def isFirstHalf (n : Nat) : Bool := 0xd800 ≤ n && n < 0xdc00

/-- The second half of a surrogate pair. -/
def isSecondHalf (n : Nat) : Bool := 0xdc00 ≤ n && n < 0xe000

/-- The character of an escape by number; a character beyond the first plane takes two of them. Half of such a
pair is no character. -/
def numbered? (s : List Char) : Option (Option Char × List Char) := do
  let (n, rest) ← hex4? s
  if isFirstHalf n then
    match rest with
    | '\\' :: 'u' :: second =>
      let (m, behind) ← hex4? second
      if isSecondHalf m then some (some (Char.ofNat (0x10000 + (n - 0xd800) * 0x400 + (m - 0xdc00))), behind)
      else some (none, rest)
    | _ => some (none, rest)
  else if isSecondHalf n then some (none, rest)
  else some (some (Char.ofNat n), rest)

/-- The character of a short escape. -/
def short? : Char → Option Char
  | '"' => some '"'
  | '\\' => some '\\'
  | '/' => some '/'
  | 'b' => some '\x08'
  | 'f' => some '\x0c'
  | 'n' => some '\n'
  | 'r' => some '\r'
  | 't' => some '\t'
  | _ => none

/-- The rest of a string, after its opening quote; what was read so far comes in reverse. -/
def string? : (fuel : Nat) → List Char → Option (List Char) → Option (Option String × List Char)
  | 0, _, _ => none
  | fuel + 1, s, acc =>
    match s with
    | [] => none
    | '"' :: rest => some (acc.map fun cs => String.ofList cs.reverse, rest)
    | '\\' :: 'u' :: rest =>
      match numbered? rest with
      | some (some c, rest) => string? fuel rest (acc.map (c :: ·))
      | some (none, rest) => string? fuel rest none
      | none => none
    | '\\' :: c :: rest =>
      match short? c with
      | some c => string? fuel rest (acc.map (c :: ·))
      | none => none
    | c :: rest => if c = '\\' ∨ c.toNat < 0x20 then none else string? fuel rest (acc.map (c :: ·))

/-- What is left if the text starts with the given word. -/
def word? (w s : List Char) : Option (List Char) :=
  if w.isPrefixOf s then some (s.drop w.length) else none

mutual

/-- One value, and what follows it. -/
def value? : (fuel : Nat) → List Char → Option (Json × List Char)
  | 0, _ => none
  | fuel + 1, s =>
    match skipBlanks s with
    | [] => none
    | '"' :: rest => (string? (rest.length + 1) rest (some [])).map fun (t, rest) => (t.elim .null .str, rest)
    | '[' :: rest =>
      match skipBlanks rest with
      | ']' :: rest => some (.arr [], rest)
      | rest => (items? fuel rest).map fun (items, rest) => (.arr items, rest)
    | '\x7b' :: rest =>
      match skipBlanks rest with
      | '\x7d' :: rest => some (.obj [], rest)
      | rest => (members? fuel rest).map fun (members, rest) => (members.elim .null .obj, rest)
    | 'n' :: rest => (word? "ull".toList rest).map fun rest => (.null, rest)
    | 't' :: rest => (word? "rue".toList rest).map fun rest => (.bool true, rest)
    | 'f' :: rest => (word? "alse".toList rest).map fun rest => (.bool false, rest)
    | rest => number? rest

/-- The items of an array from the first one on, through the closing bracket. -/
def items? : (fuel : Nat) → List Char → Option (List Json × List Char)
  | 0, _ => none
  | fuel + 1, s => do
    let (j, rest) ← value? fuel s
    match skipBlanks rest with
    | ']' :: rest => some ([j], rest)
    | ',' :: rest =>
      let (items, rest) ← items? fuel rest
      some (j :: items, rest)
    | _ => none

/-- The members of an object from the first one on, through the closing brace; there are none to speak of if one of
the names has no text. -/
def members? : (fuel : Nat) → List Char → Option (Option (List (String × Json)) × List Char)
  | 0, _ => none
  | fuel + 1, s =>
    match skipBlanks s with
    | '"' :: rest => do
      let (name, rest) ← string? (rest.length + 1) rest (some [])
      match skipBlanks rest with
      | ':' :: rest =>
        let (j, rest) ← value? fuel rest
        let member := name.map fun name => (name, j)
        match skipBlanks rest with
        | '\x7d' :: rest => some (member.map fun member => [member], rest)
        | ',' :: rest =>
          let (members, rest) ← members? fuel rest
          some (member.bind fun member => members.map (member :: ·), rest)
        | _ => none
      | _ => none
    | _ => none

end

/-- The value that the text writes, if it writes one. Every step of the reader takes at least one character, so
twice the length of the text is fuel enough. -/
def read? (text : String) : Option Json :=
  let s := text.toList
  match value? (2 * s.length + 2) s with
  | some (j, rest) => if (skipBlanks rest).isEmpty then some j else none
  | none => none

end MediaQuery.Json
