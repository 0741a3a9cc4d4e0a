import ODataLiteral.Pattern

/-! Delimiters, whitespace, the characters of a path segment and names.
Most delimiters may be encoded, because a URI must or may encode them;
the equals sign of a keyword and a minus sign are only ever plain. -/
namespace ODataLiteral

namespace UriChar

/-- A space or a tab, plain or encoded. -/
def isWhitespace (character : UriChar) : Bool :=
  character.isDelimiter ' ' || character.isDelimiter '\t'

/-- A character of a path segment other than a single quote, in either form. -/
def isPathChar (character : UriChar) : Bool :=
  character.isPlain (fun octet => Octet.isUnreserved octet || Octet.isOtherDelim octet ||
    Octet.isNonAscii octet || Octet.oneOf "$&=:@" octet) ||
  character.isEncoded (· != '\''.toUInt8)

end UriChar

namespace Pattern

def quote : Pattern := delimiter '\''
def comma : Pattern := delimiter ','
def openParen : Pattern := delimiter '('
def closeParen : Pattern := delimiter ')'
def colon : Pattern := delimiter ':'
def semicolon : Pattern := delimiter ';'
def atSign : Pattern := delimiter '@'
def doubleQuote : Pattern := delimiter '"'
def backslash : Pattern := delimiter '\\'
def equalsSign : Pattern := plain '='

def digit : Pattern := octet Octet.isDigit
def hexDigit : Pattern := octet Octet.isHexDigit

/-- A plus sign may be encoded, a minus sign may not. -/
def sign : Pattern := plain '-' <|> delimiter '+'

/-- Whitespace that may be absent. -/
def optionalSpace : Pattern := many (char UriChar.isWhitespace)

/-- Whitespace that must be there. -/
def requiredSpace : Pattern := atLeast 1 (char UriChar.isWhitespace)

def pathChar : Pattern := char UriChar.isPathChar

/-- The greatest number of characters in an identifier. -/
def maxIdentifierLength : Nat := 128

/-- An identifier is never cut short: one character too many is no match. -/
def identifier : Pattern :=
  octet Octet.isNameStart ++ times 0 (some (maxIdentifierLength - 1)) (octet Octet.isNameChar) ++
    notBefore (octet Octet.isNameChar)

/-- Two identifiers or more. A dot that no identifier follows is left behind. -/
def qualifiedName : Pattern := identifier ++ atLeast 1 (plain '.' ++ identifier)

def annotationTerm : Pattern := atSign ++ qualifiedName

/-! The structural characters of JSON in a URI. Whitespace may stand around each of them,
except that a closing one leaves what follows it alone. -/

def openingBracket (bracket : Char) : Pattern :=
  optionalSpace ++ delimiter bracket ++ optionalSpace

def closingBracket (bracket : Char) : Pattern :=
  optionalSpace ++ delimiter bracket

def beginObject : Pattern := openingBracket '{'
def endObject : Pattern := closingBracket '}'
def beginArray : Pattern := openingBracket '['
def endArray : Pattern := closingBracket ']'
def nameSeparator : Pattern := optionalSpace ++ colon ++ optionalSpace
def valueSeparator : Pattern := optionalSpace ++ comma ++ optionalSpace

end Pattern

end ODataLiteral
