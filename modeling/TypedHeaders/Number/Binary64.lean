import TypedHeaders.Number.Integer

/-!
# Reading floating-point numbers

A number is written as an optional sign followed by a name of infinity or of no number, or by
decimal digits with an optional point and an optional exponent. Digits must stand before or after
the point. `read?` gives the double that is nearest to the value, ties going to the even neighbour,
and refuses every other text.

A text is first read as a `Decimal`, a significand and a power of ten, and then rounded once.
-/

set_option autoImplicit false

namespace TypedHeaders.Number

/-- Positive infinity. -/
def Binary64.infinity : Float := Float.ofBits 0x7FF0000000000000

/-- The quiet value that stands for no number. -/
def Binary64.nan : Float := Float.ofBits 0x7FF8000000000000

/-- A decimal number `digits · 10 ^ exponent`, where `digits` are read as one numeral. -/
structure Decimal where
  digits : List Char
  exponent : Int
  deriving DecidableEq, Repr

namespace Decimal

/-- The size from which on further digits of an exponent no longer count. -/
def exponentLimit : Nat := 0x10000

/-- The value of an exponent's digits. -/
def exponentValue (ds : List Char) : Nat :=
  ds.foldl (fun e d => if e < exponentLimit then 10 * e + (d.toNat - '0'.toNat) else e) 0

/-- The exponent at the end of a number: nothing, or `e` in either case, a sign, and digits. -/
def readExponent? : List Char → Option Int
  | [] => some 0
  | c :: cs =>
      if c = 'e' ∨ c = 'E' then
        let (negative, ds) := takeSign cs
        if isNumeral ds then
          some (if negative then -(exponentValue ds : Int) else exponentValue ds)
        else none
      else none

/-- What follows a point, parted after its digits; without a point there are no digits. -/
def readFraction : List Char → List Char × List Char
  | '.' :: cs => (cs.takeWhile Char.isDigit, cs.dropWhile Char.isDigit)
  | cs => ([], cs)

/-- Read digits with an optional point and an optional exponent. -/
def read? (cs : List Char) : Option Decimal :=
  let whole := cs.takeWhile Char.isDigit
  let (fraction, rest) := readFraction (cs.dropWhile Char.isDigit)
  if whole.isEmpty && fraction.isEmpty then none
  else (readExponent? rest).map fun e => ⟨whole ++ fraction, e - fraction.length⟩

/-- A power of ten above every finite double, and whose inverse is nearer to zero than to any other
double. -/
def extremePower : Int := 400

/-- The nearest double. Values that are beyond the range by far are settled by their magnitude. -/
def toFloat (d : Decimal) : Float :=
  let significant := d.digits.dropWhile (· = '0')
  let magnitude := significant.length + d.exponent
  if significant.isEmpty then 0.0
  else if extremePower < magnitude then Binary64.infinity
  else if magnitude < -extremePower then 0.0
  else Float.ofScientific (Nat.ofDigitChars 10 significant 0) (d.exponent < 0) d.exponent.natAbs

end Decimal

namespace Binary64

/-- A number without its sign. Names are read in either case. -/
def readMagnitude? (cs : List Char) : Option Float :=
  let name := cs.map Char.toLower
  if name = ['i', 'n', 'f'] ∨ name = ['i', 'n', 'f', 'i', 'n', 'i', 't', 'y'] then some infinity
  else if name = ['n', 'a', 'n'] then some nan
  else (Decimal.read? cs).map Decimal.toFloat

/-- The double that a text stands for. -/
def read? (cs : List Char) : Option Float :=
  let (negative, rest) := takeSign cs
  (readMagnitude? rest).map fun x => if negative then -x else x

end Binary64

end TypedHeaders.Number
