import ODataLiteral.Grammar
import ODataLiteral.Proofs.Pattern.Split

/-! Reading rules as a function of a text, without checks, accounts and budgets of octets.
The only thing that is left to count is how many constructs may still be opened inside one another.
This is what the reader computes: it finds no fault on the way and hands its account back as it got it. -/
namespace ODataLiteral

/-- A place in a text: an offset in octets and the characters from there on. -/
structure Place where
  offset : Nat
  rest : Text

/-- Going on from one place over a text leads to another place. -/
structure Place.Advances (start : Place) (text : Text) (stop : Place) : Prop where
  rest : start.rest = text ++ stop.rest
  offset : stop.offset = start.offset + text.width

/-- The characters at a place of a buffer. -/
def Cursor.place (cursor : Cursor) : Place where
  offset := cursor.offset
  rest := Text.ofBytes cursor.rest

/-- The place of an offset in a source. -/
def Place.ofSource (source : Bytes) (offset : Nat) : Place :=
  (Cursor.ofSource source offset).place

/-- The text that a pattern takes at a place, and the place after it. -/
def Pattern.parse (pattern : Pattern) (place : Place) : Option (Text × Place) :=
  (pattern.split place.rest).map fun (text, rest) =>
    (text, { offset := place.offset + text.width, rest })

/-- The value of a lexeme by its text alone. -/
def Meaning.value? (meaning : Meaning) (text : Text) : Option Value :=
  match meaning with
  | null => some .null
  | typed type => some (.typed type)
  | integer type range => if range.holds text.integer then some (.typed type) else none
  | srid => some (.srid text.natural)
  | name => (Utf8.decode? text.bytes).map .identifier
  | term => (Utf8.decode? (Text.bytes text.tail)).map .identifier
  | jsonString => (Utf8.decode? (Text.bytes text.tail.dropLast)).map (.json ∘ .string)
  | jsonNumber => some (.json (.number (Binary64.ofDecimal (Decimal.ofText text))))
  | jsonBoolean value => some (.json (.boolean value))
  | jsonNull => some (.json .null)

abbrev Parser : Type := Place → Option (Token × Place)

namespace Parser

/-- The token from one place to another. -/
def close (kind : Kind) (value : Value) (start stop : Place) : Token × Place :=
  ({ kind, span := { start := start.offset, stop := stop.offset }, value }, stop)

def lexeme (kind : Kind) (meaning : Meaning) (pattern : Pattern) : Parser := fun start => do
  let (text, stop) ← pattern.parse start
  let value ← meaning.value? text
  some (close kind value start stop)

def enclosed (kind : Kind) (opening : Pattern) (inner : Parser) (closing : Pattern) : Parser :=
  fun start => do
    let (_, first) ← opening.parse start
    let (token, after) ← inner first
    let (_, stop) ← closing.parse after
    some (close kind (.nested token) start stop)

def pair (pairing : Pairing) (opening : Pattern) (first : Parser) (between : Pattern)
    (second : Parser) : Parser := fun start => do
  let (_, left) ← opening.parse start
  let (one, after) ← first left
  let (_, right) ← between.parse after
  let (two, stop) ← second right
  some (close pairing.kind (pairing.value one two) start stop)

/-- Items up to the closing delimiter, in as many rounds as the budget has characters at the most. -/
def itemsWithin (item : Parser) (separator closing : Pattern) :
    (budget : Text) → Place → Option (List Token × Place)
  | [], _ => none
  | _ :: budget, start => do
    let (token, after) ← item start
    match closing.parse after with
    | some (_, stop) => some ([token], stop)
    | none =>
      let (_, next) ← separator.parse after
      let (tokens, stop) ← itemsWithin item separator closing budget next
      some (token :: tokens, stop)

def items (item : Parser) (separator closing : Pattern) (start : Place) :
    Option (List Token × Place) :=
  itemsWithin item separator closing start.rest start

def list (kind : Kind) (opening : Pattern) (item : Parser) (separator closing : Pattern)
    (mayBeEmpty : Bool) : Parser := fun start => do
  let (_, first) ← opening.parse start
  match if mayBeEmpty then closing.parse first else none with
  | some (_, stop) => some (close kind (.items []) start stop)
  | none =>
    let (tokens, stop) ← items item separator closing first
    some (close kind (.items tokens) start stop)

def enumeration (typeName opening : Pattern) (member : Parser) (separator closing : Pattern) :
    Parser := fun start => do
  let (text, after) ← typeName.parse start
  let (_, first) ← opening.parse after
  let (members, stop) ← items member separator closing first
  let name ← Utf8.decode? text.bytes
  some (close .enumeration (.enumeration name members) start stop)

def mapToken (change : Token → Token) (parser : Parser) : Parser := fun start =>
  (parser start).map fun (token, stop) => (change token, stop)

end Parser

/-- What a rule reads, given what the constructs read that it names. -/
def Rule.parseWith (construct : Construct → Parser) : Rule → Parser
  | lexeme kind meaning pattern => Parser.lexeme kind meaning pattern
  | enclosed kind opening inner closing =>
    Parser.enclosed kind opening (inner.parseWith construct) closing
  | pair pairing opening first between second =>
    Parser.pair pairing opening (first.parseWith construct) between (second.parseWith construct)
  | list kind opening item separator closing mayBeEmpty =>
    Parser.list kind opening (item.parseWith construct) separator closing mayBeEmpty
  | enumeration typeName opening member separator closing =>
    Parser.enumeration typeName opening (member.parseWith construct) separator closing
  | withType type rule => Parser.mapToken (·.withType type) (rule.parseWith construct)
  | withKind kind rule => Parser.mapToken (·.withKind kind) (rule.parseWith construct)
  | orElse first second => fun start =>
    (first.parseWith construct start).or (second.parseWith construct start)
  | never => fun _ => none
  | .construct named => construct named

/-- What a construct reads with so many levels left to open. -/
def Construct.parse : (levels : Nat) → Construct → Parser
  | 0, _ => fun _ => none
  | levels + 1, construct => construct.body.parseWith (Construct.parse levels)

/-- What a rule reads with so many levels left to open. -/
def Rule.parse (levels : Nat) (rule : Rule) : Parser :=
  rule.parseWith (Construct.parse levels)

end ODataLiteral
