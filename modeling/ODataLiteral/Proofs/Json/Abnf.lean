import ODataLiteral.Proofs.Abnf
import ODataLiteral.Proofs.Utf8

/-! The grammar of JSON in a URI, rule by rule. Objects are counted, so the grammar of each depth is made of the
grammar of the depth before. -/
namespace ODataLiteral.Abnf

/-- Whitespace that may be absent: `BWS = *( SP / HTAB / "%20" / "%09" )`. -/
def bws : Language UriChar :=
  repeated 0 none (mark ' ' + mark '\t')

/-- `begin-object = BWS ( "{" / "%7B" ) BWS`, and the same for arrays. -/
def opening (bracket : Char) : Language UriChar :=
  bws * mark bracket * bws

/-- `end-object = BWS ( "}" / "%7D" )`, and the same for arrays. -/
def closing (bracket : Char) : Language UriChar :=
  bws * mark bracket

def nameSeparator : Language UriChar := bws * mark ':' * bws

def valueSeparator : Language UriChar := bws * mark ',' * bws

def quotationMark : Language UriChar := mark '"'

def escape : Language UriChar := mark '\\'

def digit : Language UriChar := raw Octet.isDigit

/-- Every encoded octet but `%22` and `%5C`. -/
def encodedUnescaped : Language UriChar :=
  encoded fun octet => octet != '"'.toUInt8 && octet != '\\'.toUInt8

/-- `qchar-unescaped`, where octets that are not ASCII may stand in their plain form. -/
def unescaped : Language UriChar :=
  raw Octet.isUnreserved + encodedUnescaped + raw Octet.isOtherDelim + raw Octet.isNonAscii +
    raw (Octet.oneOf ":@/?$'=")

/-- `qchar-JSON-special = SP / ":" / "{" / "}" / "[" / "]"`. -/
def special : Language UriChar :=
  raw (Octet.oneOf " :{}[]")

/-- What stands after the escape character. -/
def escaped : Language UriChar :=
  quotationMark + escape + mark '/' + raw (Octet.oneOf "bfnrt") +
    raw (· == 'u'.toUInt8) * repeated 4 (some 4) (raw Octet.isHexDigit)

/-- `charInJSON = qchar-unescaped / qchar-JSON-special / escape ( ... )`. -/
def charInJson : Language UriChar :=
  unescaped + special + escape * escaped

/-- `*charInJSON`, and valid UTF-8 as a whole. -/
def stringBody : Language UriChar :=
  { body : Text | body ∈ repeated 0 none charInJson ∧ Utf8.Valid body.bytes }

/-- `stringInJSON = quotation-mark *charInJSON quotation-mark`. -/
def string : Language UriChar := quotationMark * stringBody * quotationMark

/-- `numberInJSON = [ "-" ] int [ frac ] [ exp ]`. -/
def number : Language UriChar :=
  optional (raw (· == '-'.toUInt8)) *
    (raw (· == '0'.toUInt8) + raw Octet.isOneToNine * repeated 0 none digit) *
    optional (raw (· == '.'.toUInt8) * repeated 1 none digit) *
    optional (raw (Octet.oneOf "eE") * optional (raw (Octet.oneOf "-+")) * repeated 1 none digit)

/-- `primitiveLiteralInJSON = stringInJSON / numberInJSON / 'true' / 'false' / 'null'`. -/
def primitive : Language UriChar :=
  string + number + word "true" + word "false" + word "null"

/-- `odataIdentifier`: a letter or an underscore, and up to 127 more of them or of digits. -/
def identifier : Language UriChar :=
  raw Octet.isNameStart * repeated 0 (some 127) (raw Octet.isNameChar)

/-- `namespace "." termName`. -/
def qualifiedName : Language UriChar :=
  identifier * repeated 1 none (raw (· == '.'.toUInt8) * identifier)

/-- The key of an annotation: `AT namespace "." termName`. -/
def annotationKey : Language UriChar :=
  mark '@' * qualifiedName

/-- `quotation-mark key quotation-mark name-separator value`. -/
def pair (key value : Language UriChar) : Language UriChar :=
  quotationMark * key * (quotationMark * nameSeparator) * value

/-- A member of an object is an annotation or a property. -/
def member (value : Language UriChar) : Language UriChar :=
  pair annotationKey value + pair identifier value

/-- Items in a row: `item *( value-separator item )`. -/
def items (item : Language UriChar) : Language UriChar :=
  item * repeated 0 none (valueSeparator * item)

/-- `begin [ item *( value-separator item ) ] end`. -/
def delimited (opens : Char) (item : Language UriChar) (closes : Char) : Language UriChar :=
  opening opens * optional (items item) * closing closes

def array (item : Language UriChar) : Language UriChar :=
  delimited '[' item ']'

/-- `complexInUri / complexColInUri / primitiveLiteralInJSON / primitiveColInUri`. -/
def value (object : Language UriChar) : Language UriChar :=
  object + array object + primitive + array primitive

/-- `complexInUri`, with so many objects inside one another at the most. -/
def object : (depth : Nat) → Language UriChar
  | 0 => 0
  | depth + 1 => delimited '{' (member (value (object depth))) '}'

section Items

variable {item : Language UriChar} {text : Text}

theorem mem_items :
    text ∈ items item ↔ ∃ first parts, first ∈ item ∧
      (∀ part ∈ parts, part ∈ valueSeparator * item) ∧ text = first ++ List.flatten parts :=
  mem_row

theorem item_le_items : item ≤ items item :=
  item_le_row _ _

theorem more_le_items : item * valueSeparator * items item ≤ items item :=
  more_le_row _ _

end Items

end ODataLiteral.Abnf
