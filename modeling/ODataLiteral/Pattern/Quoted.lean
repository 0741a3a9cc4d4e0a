import ODataLiteral.Pattern.Terminals

/-! Quoted literals: strings, binary data and JSON strings. -/
namespace ODataLiteral

namespace UriChar

/-- A path character that may not follow a string directly: it would carry the string on. -/
def isStray (character : UriChar) : Bool :=
  character.isPathChar &&
    !(character.isPlain (· == '&'.toUInt8) || character.isDelimiter ')' ||
      character.isDelimiter ',' || character.isWhitespace)

/-- A character that a JSON string may hold without a backslash, in either form. -/
def isJsonPlain (character : UriChar) : Bool :=
  character.isPlain (fun octet => Octet.isUnreserved octet || Octet.isOtherDelim octet ||
    Octet.isNonAscii octet || Octet.oneOf ":@/?$'=" octet || Octet.oneOf " {}[]" octet) ||
  character.isEncoded (fun octet => octet != '"'.toUInt8 && octet != '\\'.toUInt8)

end UriChar

namespace Pattern

/-- A quote inside a string is written twice, each time in either form. -/
def stringUnit : Pattern := (quote ++ quote) <|> char UriChar.isWhitespace <|> pathChar

def string : Pattern :=
  quote ++ many stringUnit ++ quote ++ notBefore quote ++ notBefore (char UriChar.isStray)

def base64Char : Pattern := octet Octet.isBase64

/-- Three base64 characters that hold two octets, so that the last two bits are unused. -/
def base64Two : Pattern :=
  exactly 2 base64Char ++ octet (Octet.oneOf "AEIMQUYcgkosw048") ++ optional (plain '=')

/-- Two base64 characters that hold one octet, so that the last four bits are unused. -/
def base64One : Pattern :=
  base64Char ++ octet (Octet.oneOf "AQgw") ++ optional (word "==")

def binary : Pattern :=
  word "binary" ++ quote ++ many (exactly 4 base64Char) ++ optional (base64Two <|> base64One) ++ quote

/-- What may stand after a backslash. -/
def jsonEscape : Pattern :=
  doubleQuote <|> backslash <|> octet (Octet.oneOf "/bfnrt") <|>
    (plain 'u' ++ exactly 4 hexDigit) <|> char (UriChar.isEncoded (· == '/'.toUInt8))

def jsonChar : Pattern := char UriChar.isJsonPlain <|> (backslash ++ jsonEscape)

def jsonString : Pattern := doubleQuote ++ many jsonChar ++ doubleQuote

end Pattern

end ODataLiteral
