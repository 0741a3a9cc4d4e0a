import ODataLiteral.Edm
import ODataLiteral.Binary64

/-! Tokens: what a rule has recognized, where it stands, and what it means.
A token's children are tokens of the same source, with absolute offsets. -/
namespace ODataLiteral

/-- The grammar category that a token belongs to. -/
inductive Kind where
  | literal
  | enumeration
  | enumMember
  | enumMemberValue
  | identifier
  | annotationTerm
  | property
  | annotationMember
  | array
  | object
  | arrayOrObject
deriving DecidableEq, Repr

/-- The octets from `start` up to `stop`. -/
structure Span where
  start : Nat
  stop : Nat
deriving DecidableEq, Repr

namespace Span

def length (span : Span) : Nat :=
  span.stop - span.start

def isEmpty (span : Span) : Bool :=
  span.start == span.stop

end Span

/-- A JSON primitive. The text of a string keeps its escapes as they were written. -/
inductive JsonPrimitive where
  | string (text : String)
  | number (value : Binary64)
  | boolean (value : Bool)
  | null
deriving DecidableEq, Repr

mutual

structure Token where
  kind : Kind
  span : Span
  value : Value

/-- The meaning of a token. Literals whose text is their meaning carry a type only. -/
inductive Value where
  | null
  | typed (type : EdmType)
  | position (longitude latitude : Token)
  | nested (inner : Token)
  | items (items : List Token)
  | srid (identifier : Nat)
  | fullGeo (srid literal : Token)
  | enumeration (typeName : String) (members : List Token)
  | identifier (name : String)
  | keyValue (key value : Token)
  | json (primitive : JsonPrimitive)

end

/-- The tokens directly inside a value, in source order. -/
def Value.children : Value → List Token
  | .position longitude latitude => [longitude, latitude]
  | .nested inner => [inner]
  | .items tokens => tokens
  | .fullGeo reference literal => [reference, literal]
  | .enumeration _ members => members
  | .keyValue key value => [key, value]
  | .null | .typed _ | .srid _ | .identifier _ | .json _ => []

namespace Token

def children (token : Token) : List Token :=
  token.value.children

/-- The type that the token is tagged with, if a type is all its meaning. -/
def type? (token : Token) : Option EdmType :=
  match token.value with
  | .typed type => some type
  | _ => none

/-- The same text under another type. -/
def withType (token : Token) (type : EdmType) : Token :=
  { token with value := .typed type }

/-- The same text and meaning in another category. -/
def withKind (token : Token) (kind : Kind) : Token :=
  { token with kind }

end Token

/-- Why a span cannot be a token of a source. -/
inductive SpanError where
  | reversed (start stop : Nat)
  | pastEnd (stop length : Nat)
deriving DecidableEq, Repr

def SpanError.message : SpanError → String
  | reversed start stop => s!"recognizer reported a match ending at {stop} before its start {start}"
  | pastEnd stop length =>
    s!"recognizer reported a match ending at {stop} past the end of a {length}-byte source"

/-- A token of a source of some length. A span that ends before it starts is refused first. -/
def Token.ofSpan (length : Nat) (kind : Kind) (span : Span) (value : Value) : Except SpanError Token :=
  if span.stop < span.start then .error (.reversed span.start span.stop)
  else if length < span.stop then .error (.pastEnd span.stop length)
  else .ok { kind, span, value }

end ODataLiteral
