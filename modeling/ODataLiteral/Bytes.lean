/-! Octet strings and the octet classes that the grammar is written in.
Every class is a set of single octets below 128, apart from `isNonAscii`.
None of them holds the percent sign, which starts an encoded octet. -/
namespace ODataLiteral

/-- A source buffer. It need not be valid UTF-8. -/
abbrev Bytes := List UInt8

namespace Bytes

/-- The UTF-8 octets of a text. -/
def ofString (text : String) : Bytes :=
  text.toUTF8.toList

/-- The octets from `start` up to `stop`, fewer where the buffer ends. -/
def slice (source : Bytes) (start stop : Nat) : Bytes :=
  (source.take stop).drop start

/-- Where an expected text that stands at `offset` ends. Past the end of the buffer nothing stands, not even
the empty text. -/
def endOfPrefix? (source expected : Bytes) (offset : Nat) : Option Nat :=
  if offset ≤ source.length && expected.isPrefixOf (source.drop offset) then
    some (offset + expected.length)
  else none

end Bytes

namespace Octet

/-- An octet in a range of characters, both ends included. -/
def between (low high : Char) (octet : UInt8) : Bool :=
  low.toUInt8 ≤ octet && octet ≤ high.toUInt8

/-- An octet among the listed characters. -/
def oneOf (characters : String) (octet : UInt8) : Bool :=
  characters.toList.any (·.toUInt8 == octet)

def isAlpha (octet : UInt8) : Bool :=
  between 'A' 'Z' octet || between 'a' 'z' octet

def isDigit (octet : UInt8) : Bool :=
  between '0' '9' octet

def isOneToNine (octet : UInt8) : Bool :=
  between '1' '9' octet

/-- A hexadecimal digit in either letter case. -/
def isHexDigit (octet : UInt8) : Bool :=
  isDigit octet || between 'A' 'F' octet || between 'a' 'f' octet

/-- The URL-safe base64 alphabet. -/
def isBase64 (octet : UInt8) : Bool :=
  isAlpha octet || isDigit octet || oneOf "-_" octet

def isSpace (octet : UInt8) : Bool :=
  oneOf " " octet

def isTab (octet : UInt8) : Bool :=
  oneOf "\t" octet

/-- The characters that a URI never needs to encode. -/
def isUnreserved (octet : UInt8) : Bool :=
  isAlpha octet || isDigit octet || oneOf "-._~" octet

/-- The sub-delimiters that carry no meaning of their own inside a literal. -/
def isOtherDelim (octet : UInt8) : Bool :=
  oneOf "!()*+,;" octet

def isNonAscii (octet : UInt8) : Bool :=
  128 ≤ octet

def isNameStart (octet : UInt8) : Bool :=
  isAlpha octet || oneOf "_" octet

def isNameChar (octet : UInt8) : Bool :=
  isNameStart octet || isDigit octet

/-- The value of a hexadecimal digit, and zero for any other octet. -/
def hexValue (octet : UInt8) : UInt8 :=
  if isDigit octet then octet - '0'.toUInt8
  else if between 'a' 'f' octet then octet - 'a'.toUInt8 + 10
  else if between 'A' 'F' octet then octet - 'A'.toUInt8 + 10
  else 0

end Octet

end ODataLiteral
