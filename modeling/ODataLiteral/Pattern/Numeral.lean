import ODataLiteral.Pattern.Terminals

/-! Numerals: integers with a range, fractions, floating point numerals, JSON numbers and unique identifiers. -/
namespace ODataLiteral.Pattern

/-- A signed integer type: how many digits its numerals may have, and its least and greatest value. -/
structure IntegerRange where
  digits : Nat
  least : Int
  greatest : Int

/-- The two's complement range of a width in bits. -/
def IntegerRange.signed (digits bits : Nat) : IntegerRange where
  digits := digits
  least := -(Int.pow 2 (bits - 1))
  greatest := Int.pow 2 (bits - 1) - 1

/-- The range of the unsigned octet. -/
def IntegerRange.octet : IntegerRange where
  digits := 3
  least := 0
  greatest := 255

def IntegerRange.holds (range : IntegerRange) (value : Int) : Bool :=
  range.least ≤ value && value ≤ range.greatest

/-- Numerals as long as those of a range. A digit after the last one that may be read is no match. -/
def integer (leading : Pattern) (range : IntegerRange) : Pattern :=
  leading ++ times 1 (some range.digits) digit ++ notBefore digit

def signedInteger (range : IntegerRange) : Pattern := integer (optional sign) range

def unsignedInteger (range : IntegerRange) : Pattern := integer empty range

/-- Digits on both sides of a point. -/
def fraction : Pattern :=
  optional sign ++ atLeast 1 digit ++ plain '.' ++ atLeast 1 digit

/-- A fraction that no exponent can follow. -/
def decimal : Pattern := fraction ++ notBefore (plain 'e')

def notANumberOrInfinity : Pattern := word "NaN" <|> word "-INF" <|> word "INF"

/-- An `e` without digits is left behind. -/
def exponent : Pattern := plain 'e' ++ optional sign ++ atLeast 1 digit

def double : Pattern := notANumberOrInfinity <|> (fraction ++ optional exponent)

def jsonFrac : Pattern := plain '.' ++ atLeast 1 digit

/-- An exponent whose mark has either letter case. -/
def jsonExp : Pattern :=
  octet (Octet.oneOf "eE") ++ optional (octet (Octet.oneOf "-+")) ++ atLeast 1 digit

/-- A JSON number: no leading zeros, and a point or an exponent without digits is left behind. -/
def jsonNumber : Pattern :=
  optional (plain '-') ++
    (plain '0' <|> (octet Octet.isOneToNine ++ many digit)) ++ optional jsonFrac ++ optional jsonExp

/-- A number that a double can be read from: zeros may lead, and digits on one side of the point are enough. -/
def floatNumber : Pattern :=
  optional (octet (Octet.oneOf "-+")) ++
    ((atLeast 1 digit ++ optional (plain '.' ++ many digit)) <|> jsonFrac) ++ optional jsonExp

/-- Hexadecimal digits in five groups. -/
def guid : Pattern :=
  exactly 8 hexDigit ++ plain '-' ++ exactly 4 hexDigit ++ plain '-' ++ exactly 4 hexDigit ++
    plain '-' ++ exactly 4 hexDigit ++ plain '-' ++ exactly 12 hexDigit

end ODataLiteral.Pattern
