import ODataLiteral.Binary64.Text
import ODataLiteral.Bracketed
import ODataLiteral.Token

/-! The text of tokens, in an outline for readers and in JSON for programs.
Both formats name the same parts in the same order and differ in a vocabulary of brackets and quotes. -/
namespace ODataLiteral

/-- How a format writes the building blocks of a token. -/
structure Vocabulary where
  /-- Named fields under a name that a format may leave out. -/
  record : String → List (String × Bracketed) → Bracketed
  /-- A name with one thing in it. -/
  variant : String → Bracketed → Bracketed
  /-- A name with named fields in it. -/
  fields : String → List (String × Bracketed) → Bracketed
  /-- A name alone. -/
  unit : String → Bracketed
  list : List Bracketed → Bracketed
  text : String → Bracketed
  number : Binary64 → Bracketed

def Kind.name : Kind → String
  | literal => "Literal"
  | enumeration => "Enum"
  | enumMember => "EnumMember"
  | enumMemberValue => "EnumMemberValue"
  | identifier => "Identifier"
  | annotationTerm => "AnnotationTerm"
  | property => "Property"
  | annotationMember => "Annotation"
  | array => "Array"
  | object => "Object"
  | arrayOrObject => "ArrayOrObject"

def Bracketed.natural (number : Nat) : Bracketed :=
  leaf (toString number)

def Span.tree (words : Vocabulary) (span : Span) : Bracketed :=
  words.record "ByteSpan" [("start", .natural span.start), ("end", .natural span.stop)]

def JsonPrimitive.tree (words : Vocabulary) : JsonPrimitive → Bracketed
  | string text => words.variant "String" (words.text text)
  | number value => words.variant "Number" (words.number value)
  | boolean value => words.variant "Boolean" (.leaf (if value then "true" else "false"))
  | null => words.unit "Null"

mutual

def Token.tree (words : Vocabulary) : Token → Bracketed
  | ⟨kind, span, value⟩ =>
    words.record "ODataToken"
      [("kind", words.unit kind.name), ("span", span.tree words), ("value", value.tree words)]

def Value.tree (words : Vocabulary) : Value → Bracketed
  | .null => words.unit "Null"
  | .typed type => words.variant "Edm" (words.unit type.name)
  | .position longitude latitude =>
    words.fields "Position"
      [("longitude", longitude.tree words), ("latitude", latitude.tree words)]
  | .nested inner => words.variant "Nested" (inner.tree words)
  | .items tokens => words.variant "Items" (words.list (Token.trees words tokens))
  | .srid identifier => words.variant "Srid" (.natural identifier)
  | .fullGeo reference literal =>
    words.fields "FullGeo" [("srid", reference.tree words), ("value", literal.tree words)]
  | .enumeration typeName members =>
    words.fields "Enum"
      [("type_name", words.text typeName), ("members", words.list (Token.trees words members))]
  | .identifier name => words.variant "Identifier" (words.text name)
  | .keyValue key value =>
    words.fields "KeyValue" [("key", key.tree words), ("value", value.tree words)]
  | .json primitive => words.variant "Json" (primitive.tree words)

def Token.trees (words : Vocabulary) : List Token → List Bracketed
  | [] => []
  | token :: rest => token.tree words :: Token.trees words rest

end

end ODataLiteral
