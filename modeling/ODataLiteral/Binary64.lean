import ODataLiteral.Pattern.Numeral

/-! Double precision floating point numbers as their 64 bits.
A finite number is a significand below 2^53 times a power of two that is at least -1074. -/
namespace ODataLiteral

structure Binary64 where
  bits : UInt64
deriving DecidableEq, Repr

namespace Binary64

/-- The bits without the sign. -/
def magnitude (number : Binary64) : Nat :=
  number.bits.toNat % Nat.pow 2 63

def isNegative (number : Binary64) : Bool :=
  Nat.pow 2 63 ≤ number.bits.toNat

/-- The magnitude of infinity: every finite magnitude is below it, every NaN above. -/
def infinite : Nat := 2047 * Nat.pow 2 52

/-- The least power of two that a significand is scaled by. -/
def leastExponent : Int := -1074

/-- A significand times a power of two, which the magnitude of a finite number stands for. -/
def scaled (magnitude : Nat) : Nat × Int :=
  let fraction := magnitude % Nat.pow 2 52
  let biased : Nat := magnitude / Nat.pow 2 52
  if biased = 0 then (fraction, leastExponent) else (fraction + Nat.pow 2 52, (biased : Int) - 1075)

def ofMagnitude (negative : Bool) (magnitude : Nat) : Binary64 where
  bits := UInt64.ofNat (magnitude + if negative then Nat.pow 2 63 else 0)

end Binary64

/-! Decimal numerals and the double that is nearest to each.
The arithmetic is exact: a numeral is a quotient of two naturals, scaled to 53 bits and rounded once.
A half goes to the even neighbour, and what is too large for a finite number is infinity.
The digits of an exponent count up to a limit only, which shows where as many zeros make up for it. -/

/-- A decimal numeral: its digits as one natural, scaled by a power of ten. -/
structure Decimal where
  negative : Bool
  coefficient : Nat
  exponent : Int
deriving DecidableEq, Repr

namespace Decimal

/-- The magnitude of an exponent after which no more of its digits count. -/
def exponentLimit : Nat := 65536

/-- The numeral of a number, with its sign, point and exponent. -/
def ofText (text : Text) : Decimal :=
  let negative := text.head? = some (.plain '-'.toUInt8)
  let signed := negative || text.head? = some (.plain '+'.toUInt8)
  let unsigned := if signed then text.tail else text
  let whole := unsigned.takeWhile UriChar.isDigit
  let afterWhole := unsigned.dropWhile UriChar.isDigit
  let hasPoint := afterWhole.head? = some (.plain '.'.toUInt8)
  let places := if hasPoint then afterWhole.tail.takeWhile UriChar.isDigit else []
  let power := (if hasPoint then afterWhole.tail.dropWhile UriChar.isDigit else afterWhole).tail
  { negative
    coefficient := Text.natural (whole ++ places)
    exponent := Text.withSign power (Text.naturalUpTo exponentLimit power) - places.length }

end Decimal

namespace Binary64

/-- A quotient rounded to the nearest natural, a half to the even one. -/
def roundHalfEven (numerator denominator : Nat) : Nat :=
  let quotient := numerator / denominator
  let remainder := numerator % denominator
  if 2 * remainder < denominator then quotient
  else if denominator < 2 * remainder then quotient + 1
  else quotient + quotient % 2

/-- The magnitude nearest to a positive quotient. -/
def nearestMagnitude (numerator denominator : Nat) : Nat :=
  let low : Int := numerator.log2 - denominator.log2 - 53
  let shifted (power : Int) : Nat × Nat :=
    (numerator * Nat.pow 2 (-power).toNat, denominator * Nat.pow 2 power.toNat)
  let (dividend, divisor) := shifted low
  let power := max leastExponent (if dividend / divisor < Nat.pow 2 53 then low else low + 1)
  let (dividend, divisor) := shifted power
  min infinite ((power - leastExponent).toNat * Nat.pow 2 52 + roundHalfEven dividend divisor)

/-- The number of decimal digits. -/
def decimalLength (number : Nat) : Nat :=
  (Nat.toDigits 10 number).length

/-- The double nearest to a numeral. Numerals far outside the range of finite numbers are settled by their
order of magnitude alone. -/
def ofDecimal (decimal : Decimal) : Binary64 :=
  let order : Int := decimalLength decimal.coefficient + decimal.exponent
  ofMagnitude decimal.negative <|
    if decimal.coefficient = 0 || order < -330 then 0
    else if 310 < order then infinite
    else nearestMagnitude (decimal.coefficient * Nat.pow 10 decimal.exponent.toNat)
      (Nat.pow 10 (-decimal.exponent).toNat)

/-- The magnitudes that have a name. The last one is no number. -/
def namedMagnitudes : List (String × Nat) :=
  [("inf", infinite), ("infinity", infinite), ("nan", infinite + Nat.pow 2 51)]

/-- What a name with any sign stands for. Its letter case does not matter. -/
def named? (text : String) : Option Binary64 :=
  let first := text.toList.head?
  let name := if first = some '-' || first = some '+' then text.toList.tail else text.toList
  (namedMagnitudes.lookup (String.ofList (name.map Char.toLower))).map (ofMagnitude (first = some '-'))

/-- The number that a text denotes as a whole, if it denotes one. -/
def ofString? (text : String) : Option Binary64 :=
  match Pattern.floatNumber.scan (Bytes.ofString text) with
  | some (number, []) => some (ofDecimal (Decimal.ofText number))
  | _ => named? text

end Binary64

end ODataLiteral
