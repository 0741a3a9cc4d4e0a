import ODataLiteral.Grammar.Geo
import ODataLiteral.Pattern.Calendar
import ODataLiteral.Pattern.Quoted

/-! Names, which are the keys of members and the members of enumerations, and primitive literals in the order in
which they are tried.
A type with a narrower range stands before the wider ones, so an integer gets the narrowest type
that holds it. -/
namespace ODataLiteral.Grammar

def identifier : Rule := .lexeme .identifier .name Pattern.identifier

/-- A qualified name after an at sign, which is not part of the name. -/
def annotationTerm : Rule := .lexeme .annotationTerm .term Pattern.annotationTerm

open Pattern

/-- A literal whose meaning is its type. -/
def typedLiteral (type : EdmType) (pattern : Pattern) : Rule :=
  .lexeme .literal (.typed type) pattern

def null : Rule := .lexeme .literal .null (word "null")

def boolean : Rule := typedLiteral .boolean (word "true" <|> word "false")

def guid : Rule := typedLiteral .guid Pattern.guid

def date : Rule := typedLiteral .date Pattern.date

def dateTimeOffset : Rule := typedLiteral .dateTimeOffset Pattern.dateTimeOffset

def timeOfDay : Rule := typedLiteral .timeOfDay Pattern.timeOfDay

def decimal : Rule := typedLiteral .decimal Pattern.decimal

/-- A single is written like a double. -/
def single : Rule := .withType .single double

/-- A signed integer of a type with so many digits and bits. -/
def signed (type : EdmType) (digits bits : Nat) : Rule :=
  .lexeme .literal (.integer type (.signed digits bits)) (signedInteger (.signed digits bits))

def sbyte : Rule := signed .sbyte 3 8

def byte : Rule := .lexeme .literal (.integer .byte .octet) (unsignedInteger .octet)

def int16 : Rule := signed .int16 5 16

def int32 : Rule := signed .int32 10 32

def int64 : Rule := signed .int64 19 64

def string : Rule := typedLiteral .string Pattern.string

def duration : Rule := typedLiteral .duration Pattern.duration

def binary : Rule := typedLiteral .binary Pattern.binary

/-- A member of an enumeration, by its name or by its value. -/
def enumMember : Rule :=
  .orElse (.withKind .enumMember identifier) (.withKind .enumMemberValue int64)

def enumeration : Rule := .enumeration qualifiedName quote enumMember comma quote

def primitiveTable : Table :=
  [⟨"nullValue", null⟩,
   ⟨"booleanValue", boolean⟩,
   ⟨"guidValue", guid⟩,
   ⟨"dateValue", date⟩,
   ⟨"dateTimeOffsetValue", dateTimeOffset⟩,
   ⟨"timeOfDayValue", timeOfDay⟩,
   ⟨"decimalValue", decimal⟩,
   ⟨"doubleValue", double⟩,
   ⟨"singleValue", single⟩,
   ⟨"sbyteValue", sbyte⟩,
   ⟨"byteValue", byte⟩,
   ⟨"int16Value", int16⟩,
   ⟨"int32Value", int32⟩,
   ⟨"int64Value", int64⟩,
   ⟨"string", string⟩,
   ⟨"duration", duration⟩,
   ⟨"binary", binary⟩,
   ⟨"enum", enumeration⟩] ++
  Shape.all.map (fun kind => ⟨"geography" ++ kind.name, spatial .geography kind⟩) ++
  Shape.all.map (fun kind => ⟨"geometry" ++ kind.name, spatial .geometry kind⟩)

def primitiveLiteral : Rule := primitiveTable.rule

end ODataLiteral.Grammar
