import ODataLiteral.Binary64

/-! The fewest decimal digits that read back as a double.
A decimal reads back when it lies between the midpoints to the two neighbours, the midpoints included
when the significand is even. For 1, 2, 3, … digits the two decimals next to the number are tried,
and of two that read back the nearer one is taken. -/
namespace ODataLiteral.Binary64

/-- What becomes of a number exactly between two shortest decimals. -/
inductive Tie where
  | up
  | even
deriving DecidableEq, Repr

/-- The numbers that round to a double, as naturals over one denominator. -/
structure Interval where
  low : Nat
  value : Nat
  high : Nat
  denominator : Nat
  closed : Bool

/-- The interval of a positive finite magnitude. Below a power of two the neighbours stand half as
far apart. -/
def interval (magnitude : Nat) : Interval :=
  let (significand, power) := scaled magnitude
  let gapBelow := if magnitude % Nat.pow 2 52 = 0 ∧ Nat.pow 2 52 < magnitude then 1 else 2
  let scale := Nat.pow 2 (power - 2).toNat
  { low := (4 * significand - gapBelow) * scale
    value := 4 * significand * scale
    high := (4 * significand + 2) * scale
    denominator := Nat.pow 2 (2 - power).toNat
    closed := significand % 2 = 0 }

/-- The decimal is in the interval. -/
def Interval.contains (range : Interval) (coefficient : Nat) (power : Int) : Bool :=
  let point := coefficient * Nat.pow 10 power.toNat * range.denominator
  let low := range.low * Nat.pow 10 (-power).toNat
  let high := range.high * Nat.pow 10 (-power).toNat
  if range.closed then low ≤ point && point ≤ high else low < point && point < high

/-- The power of ten of the first significant digit of a quotient. -/
def leadingPower (numerator denominator : Nat) : Int :=
  let guess : Int := decimalLength numerator - decimalLength denominator
  if denominator * Nat.pow 10 guess.toNat ≤ numerator * Nat.pow 10 (-guess).toNat then guess else guess - 1

/-- The nearest decimal on a grid that reads back, if there is one. -/
def Interval.onGrid (range : Interval) (tie : Tie) (power : Int) : Option Nat :=
  let dividend := range.value * Nat.pow 10 (-power).toNat
  let divisor := range.denominator * Nat.pow 10 power.toNat
  let below := dividend / divisor
  let remainder := dividend % divisor
  match range.contains below power, range.contains (below + 1) power with
  | true, true =>
    if 2 * remainder < divisor then some below
    else if divisor < 2 * remainder then some (below + 1)
    else match tie with
      | .up => some (below + 1)
      | .even => some (below + below % 2)
  | true, false => some below
  | false, true => some (below + 1)
  | false, false => none

/-- The first hit on ever finer grids. -/
def Interval.search (range : Interval) (tie : Tie) : (grids : Nat) → (power : Int) → Nat × Int
  | 0, power => (range.value * Nat.pow 10 (-power).toNat / (range.denominator * Nat.pow 10 power.toNat), power)
  | grids + 1, power =>
    match range.onGrid tie power with
    | some coefficient => (coefficient, power)
    | none => range.search tie grids (power - 1)

/-- Seventeen digits always read back. -/
def greatestLength : Nat := 17

/-- The shortest coefficient and power of ten of a positive finite magnitude. -/
def shortest (tie : Tie) (magnitude : Nat) : Nat × Int :=
  let range := interval magnitude
  range.search tie greatestLength (leadingPower range.value range.denominator)

/-! The text of a double: the shortest digits, in positional or in exponent notation. -/

/-- Which powers of the first digit are written positionally, and how everything else is written. -/
structure Layout where
  leastPower : Int
  greatestPower : Int
  /-- Whether a positive exponent has a plus sign. -/
  plusSign : Bool
  tie : Tie
  infinity : String
  negativeInfinity : String
  notANumber : String

/-- A coefficient without its trailing zeros, and the number of zeros taken off. -/
def trimZeros : (fuel : Nat) → (digits : List Char) → List Char × Nat
  | 0, digits => (digits, 0)
  | fuel + 1, digits =>
    match digits with
    | '0' :: digit :: rest =>
      let (kept, zeros) := trimZeros fuel (digit :: rest)
      (kept, zeros + 1)
    | _ => (digits, 0)

/-- Digits before and after a point, at least one on each side. -/
def positional (digits : List Char) (power : Int) : List Char :=
  if power < 0 then
    '0' :: '.' :: List.replicate (-power - 1).toNat '0' ++ digits
  else
    let whole := power.toNat + 1
    let padded := digits ++ List.replicate (whole - digits.length) '0'
    let places := padded.drop whole
    padded.take whole ++ '.' :: (if places.isEmpty then ['0'] else places)

/-- One digit, the others after a point if there are any, and the exponent. -/
def exponential (layout : Layout) (digits : List Char) (power : Int) : List Char :=
  let places := digits.tail
  let sign := if power < 0 then ['-'] else if layout.plusSign then ['+'] else []
  digits.take 1 ++ (if places.isEmpty then [] else '.' :: places) ++
    'e' :: sign ++ Nat.toDigits 10 power.natAbs

/-- The text of a finite magnitude. -/
def finiteText (layout : Layout) (magnitude : Nat) : List Char :=
  if magnitude = 0 then ['0', '.', '0']
  else
    let (coefficient, scale) := shortest layout.tie magnitude
    let all := Nat.toDigits 10 coefficient
    let power := scale + all.length - 1
    let digits := (trimZeros all.length all.reverse).1.reverse
    if layout.leastPower ≤ power ∧ power ≤ layout.greatestPower then positional digits power
    else exponential layout digits power

/-- The text of any double in a layout. -/
def text (layout : Layout) (number : Binary64) : String :=
  if infinite < number.magnitude then layout.notANumber
  else if number.magnitude = infinite then
    if number.isNegative then layout.negativeInfinity else layout.infinity
  else
    let digits := finiteText layout number.magnitude
    String.ofList (if number.isNegative then '-' :: digits else digits)

end ODataLiteral.Binary64
