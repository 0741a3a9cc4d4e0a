import ODataLiteral.Grammar.Primitive

/-! JSON in a URI. An array holds objects only or primitives only.
The key of a member is an identifier, or a term after an at sign, which makes the member an annotation. -/
namespace ODataLiteral.Grammar

open Pattern

def jsonString : Rule := .lexeme .literal .jsonString Pattern.jsonString

def jsonNumber : Rule := .lexeme .literal .jsonNumber Pattern.jsonNumber

def jsonBoolean : Rule :=
  .orElse (.lexeme .literal (.jsonBoolean true) (word "true"))
    (.lexeme .literal (.jsonBoolean false) (word "false"))

def jsonNull : Rule := .lexeme .literal .jsonNull (word "null")

def jsonPrimitiveTable : Table :=
  [⟨"stringInJSON", jsonString⟩,
   ⟨"numberInJSON", jsonNumber⟩,
   ⟨"booleanInJSON", jsonBoolean⟩,
   ⟨"nullInJSON", jsonNull⟩]

def jsonPrimitive : Rule := jsonPrimitiveTable.rule

/-- A quoted key, a colon and a value. -/
def member (key value : Rule) : Rule :=
  .pair .keyValue doubleQuote key (doubleQuote ++ nameSeparator) value

def array (item : Rule) : Rule :=
  .list .array beginArray item valueSeparator endArray true

def object : Rule := .construct .object

def objectArray : Rule := array object

def primitiveArray : Rule := array jsonPrimitive

def jsonValueTable : Table :=
  [⟨"complexInUri", object⟩,
   ⟨"complexColInUri", objectArray⟩,
   ⟨"primitiveLiteralInJSON", jsonPrimitive⟩,
   ⟨"primitiveColInUri", primitiveArray⟩]

def jsonValue : Rule := jsonValueTable.rule

def annotationMember : Rule := .withKind .annotationMember (member annotationTerm jsonValue)

def propertyMember : Rule := member identifier jsonValue

/-- The members of an object between its braces. -/
def objectMembers : Rule :=
  .list .object beginObject (.orElse annotationMember propertyMember) valueSeparator endObject true

def arrayOrObjectTable : Table :=
  [⟨"complexColInUri", objectArray⟩,
   ⟨"complexInUri", object⟩,
   ⟨"primitiveColInUri", primitiveArray⟩]

/-- A structure, but no primitive on its own. -/
def arrayOrObject : Rule :=
  .enclosed .arrayOrObject .empty arrayOrObjectTable.rule .empty

end ODataLiteral.Grammar
