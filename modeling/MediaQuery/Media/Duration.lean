import MediaQuery.Media.Error
import MediaQuery.Text.Blank
import MediaQuery.Text.Digit

/-!
# Durations

A clock text gives minutes and seconds and, before them, hours and then days: `2:01:00:00` or `2D01H00M00S`. Each
colon may be written as the letter of the part before it, and an `S` may end the text. `Clock.ofChars?` takes such a
text apart, and `Clock.total` adds it up, without a bound on the sum.

A text is cut at everything that is no digit (`cut`), so its shape is settled by the number of parts.
-/

namespace MediaQuery.Media

open MediaQuery.Text

/-- The digits of a clock text, part by part; days or hours that are not given have none. -/
structure Clock where
  days : List Char
  hours : List Char
  minutes : List Char
  seconds : List Char
  deriving DecidableEq, Repr, Inhabited

/-- Cuts a text at its characters that are no digits: the digits in front, then each such character with the digits
behind it. -/
def cut : List Char → List Char × List (Char × List Char)
  | [] => ([], [])
  | c :: rest =>
    if isDecimal c then (c :: (cut rest).1, (cut rest).2)
    else ([], (c, (cut rest).1) :: (cut rest).2)

/-- Leaves out one `S` at the end. -/
def dropSecondMark (s : List Char) : List Char := if s.getLast? = some 'S' then s.dropLast else s

/-- One or two digits. -/
def isShort (part : List Char) : Bool := part.length = 1 || part.length = 2

/-- Whether a character stands between a part and the next one: a colon, or the letter of the part. -/
def isMark (letter c : Char) : Bool := c = ':' || c = letter

namespace Clock

/-- Minutes and seconds. -/
def ofMinutes? (m : List Char) (mark : Char) (s : List Char) : Option Clock :=
  if isShort m && isMark 'M' mark && s.length = 2 then some ⟨[], [], m, s⟩ else none

/-- Hours before that. -/
def ofHours? (h : List Char) (mark : Char) (rest : Option Clock) : Option Clock :=
  if isShort h && isMark 'H' mark then rest.map fun c => { c with hours := h } else none

/-- Days before that. -/
def ofDays? (d : List Char) (mark : Char) (rest : Option Clock) : Option Clock :=
  if !d.isEmpty && isMark 'D' mark then rest.map fun c => { c with days := d } else none

/-- The parts of a clock text without blanks around it. -/
def ofChars? (text : List Char) : Option Clock :=
  match cut (dropSecondMark text) with
  | (m, [(mark, s)]) => ofMinutes? m mark s
  | (h, [(hourMark, m), (mark, s)]) => ofHours? h hourMark (ofMinutes? m mark s)
  | (d, [(dayMark, h), (hourMark, m), (mark, s)]) =>
    ofDays? d dayMark (ofHours? h hourMark (ofMinutes? m mark s))
  | _ => none

/-- The greatest number that a part can have. -/
def greatest : Nat := Nat.pow 2 63 - 1

/-- The number of a part. Digits of other scripts and numbers that are too great count nothing. -/
def number (part : List Char) : Nat :=
  if part.all Char.isDigit then
    let n := part.foldl (fun n c => n * 10 + (c.toNat - '0'.toNat)) 0
    if n ≤ greatest then n else 0
  else 0

/-- The duration in seconds. -/
def total (c : Clock) : Nat :=
  number c.days * 86400 + number c.hours * 3600 + number c.minutes * 60 + number c.seconds

end Clock

/-- The seconds of a clock text with blanks around it. -/
def durationSeconds (text : String) : Except MediaError Nat :=
  match Clock.ofChars? (trim text.toList) with
  | some c => .ok c.total
  | none => .error (.invalidDuration text)

/-! ## Cutting -/

/-- Cutting loses nothing. -/
theorem cut_join (s : List Char) : (cut s).1 ++ (cut s).2.flatMap (fun e => e.1 :: e.2) = s := by
  induction s with
  | nil => rfl
  | cons c rest ih =>
    by_cases h : isDecimal c
    · simp [cut, h, ih]
    · simp [cut, h, ih]

end MediaQuery.Media
