/-!
# The shortest decimal that reads back

A finite double is `mantissa * 2 ^ exponent`. All reals that round to it form an interval, whose ends belong to
it when the mantissa is even. `Binary.shortest` looks for a decimal in that interval on ever finer grids, of one
digit, two digits and so on: the first grid with a hit fixes the number of digits, and of two hits the nearer one
is taken. All arithmetic is exact.
-/

namespace MediaQuery.Decimal

/-- The decimal `digits * 10 ^ exponent`. -/
structure Numeral where
  digits : Nat
  exponent : Int
  deriving DecidableEq, Repr, Inhabited

/-- A positive double: `mantissa * 2 ^ exponent`, and whether the double below is only half as far away as the
double above. -/
structure Binary where
  mantissa : Nat
  exponent : Int
  narrow : Bool
  deriving DecidableEq, Repr, Inhabited

/-- Whether the sign bit of a double is set. -/
def sign (x : Float) : Bool := x.toBits >>> 63 == 1

/-- Whether the double is neither infinite nor a NaN. -/
def isFinite (x : Float) : Bool := (x.toBits >>> 52) &&& 0x7ff != 0x7ff

/-- Whether the double is a NaN. -/
def isNaN (x : Float) : Bool := !isFinite x && x.toBits &&& 0xfffffffffffff != 0

/-- The magnitude of a finite double. -/
def Binary.ofFloat (x : Float) : Binary :=
  let field := ((x.toBits >>> 52) &&& 0x7ff).toNat
  let fraction := (x.toBits &&& 0xfffffffffffff).toNat
  if field = 0 then ⟨fraction, -1074, false⟩
  else ⟨Nat.pow 2 52 + fraction, (field : Int) - 1075, fraction = 0 ∧ 1 < field⟩

/-- The number of decimal digits, one for zero. -/
def width (n : Nat) : Nat := (Nat.toDigits 10 n).length

/-- The `k` with `10 ^ (k - 1) ≤ num / den < 10 ^ k`. -/
def magnitude (num den : Nat) : Int :=
  if den ≤ num then width (num / den) else 1 - (width ((den - 1) / num) : Int)

/-- A grid of decimals laid over the interval of a double. Multiplied by `unit`, a count of grid steps
compares with the ends and the middle of the interval. -/
structure Grid where
  unit : Nat
  low : Nat
  mid : Nat
  high : Nat
  closed : Bool

/-- The grid of step `10 ^ e` over the interval of `b`. Ends and middle are first counted in quarters of the
last bit, so that they are whole. -/
def Binary.grid (b : Binary) (e : Int) : Grid :=
  let p := b.exponent - 2
  let scale := Nat.pow 2 p.toNat * Nat.pow 10 (-e).toNat
  { unit := Nat.pow 10 e.toNat * Nat.pow 2 (-p).toNat
    low := (4 * b.mantissa - if b.narrow then 1 else 2) * scale
    mid := 4 * b.mantissa * scale
    high := (4 * b.mantissa + 2) * scale
    closed := b.mantissa % 2 = 0 }

/-- Whether so many grid steps lie in the interval. -/
def Grid.holds (g : Grid) (c : Nat) : Bool :=
  if g.closed then g.low ≤ c * g.unit && c * g.unit ≤ g.high
  else g.low < c * g.unit && c * g.unit < g.high

/-- The grid point in the interval nearest to its middle, if there is one: one of the middle's two neighbours.
At equal distance the even count is taken. -/
def Grid.hit? (g : Grid) : Option Nat :=
  let below := g.mid / g.unit
  let above := below + 1
  match g.holds below, g.holds above with
  | false, false => none
  | true, false => some below
  | false, true => some above
  | true, true =>
    let down := g.mid - below * g.unit
    let up := above * g.unit - g.mid
    if down < up ∨ (down = up ∧ below % 2 = 0) then some below else some above

/-- Moves trailing zeros of the digits into the exponent. -/
def Numeral.trim : (fuel : Nat) → Numeral → Numeral
  | 0, d => d
  | fuel + 1, d => if d.digits % 10 = 0 ∧ d.digits ≠ 0 then trim fuel ⟨d.digits / 10, d.exponent + 1⟩ else d

/-- The first hit among the grids of `count` further digit numbers, from the coarsest one. -/
def Binary.search (b : Binary) (top : Int) : (count : Nat) → (digits : Nat) → Numeral
  | 0, digits => ⟨b.mantissa, b.exponent - digits⟩
  | count + 1, digits =>
    let e := top - digits
    match (b.grid e).hit? with
    | some c => Numeral.trim 2 ⟨c, e⟩
    | none => b.search top count (digits + 1)

/-- The shortest decimal that rounds to the double. Seventeen digits always suffice. -/
def Binary.shortest (b : Binary) : Numeral :=
  b.search (magnitude (b.mantissa * Nat.pow 2 b.exponent.toNat) (Nat.pow 2 (-b.exponent).toNat)) 17 1

/-- How a double is laid out as text. -/
structure Layout where
  /-- Below this power of ten the exponent form is used. -/
  smallest : Int
  /-- From this power of ten on the exponent form is used. -/
  largest : Int
  /-- What a whole number in positional form ends in. -/
  whole : String
  /-- What stands before a positive exponent. -/
  positive : String

/-- So many zeros. -/
def zeros (n : Nat) : String := String.ofList (List.replicate n '0')

/-- The decimal as text. With `k` digits before the point, positional form is used while
`smallest < k ≤ largest`. -/
def Layout.render (layout : Layout) (d : Numeral) : String :=
  let digits := Nat.toDigits 10 d.digits
  let count : Int := digits.length
  let point := count + d.exponent
  if layout.smallest < point ∧ point ≤ layout.largest then
    if 0 ≤ d.exponent then String.ofList digits ++ zeros d.exponent.toNat ++ layout.whole
    else if 0 < point then
      String.ofList (digits.take point.toNat) ++ "." ++ String.ofList (digits.drop point.toNat)
    else "0." ++ zeros (-point).toNat ++ String.ofList digits
  else
    let power := point - 1
    let fraction := if digits.length ≤ 1 then "" else "." ++ String.ofList digits.tail
    String.ofList (digits.take 1) ++ fraction ++ "e" ++
      (if power < 0 then toString power else layout.positive ++ toString power)

/-- A finite double as text. -/
def Layout.float (layout : Layout) (x : Float) : String :=
  let b := Binary.ofFloat x
  let text := if b.mantissa = 0 then "0" ++ layout.whole else layout.render b.shortest
  if sign x then "-" ++ text else text

end MediaQuery.Decimal
