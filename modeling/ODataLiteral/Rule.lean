import ODataLiteral.Nesting
import ODataLiteral.Pattern.Numeral
import ODataLiteral.Token
import ODataLiteral.Utf8

/-! Rules of the grammar, which turn text into tokens, and the reader for them.
A rule is data. It is built from patterns and from other rules, and the two constructs that may contain
themselves are named rather than unfolded, so that every rule is finite.
The reader asks its caller how to read a named construct. It checks what it relies on as it goes:
that a token lies in the source, that octets which it takes from the source are there, and that a number
fits where it is kept. -/
namespace ODataLiteral

/-- A place in a source: an offset and the octets from there on. -/
structure Cursor where
  offset : Nat
  rest : Bytes
deriving DecidableEq, Repr

/-- Past the end of the source nothing is left. -/
def Cursor.ofSource (source : Bytes) (offset : Nat) : Cursor where
  offset := offset
  rest := source.drop offset

/-- The octets of a source of some length that start `skip` octets after a place and stop at an offset. -/
def Cursor.slice (cursor : Cursor) (length skip stop : Nat) : Except Fault Bytes :=
  let start := cursor.offset + skip
  if start ≤ stop && stop ≤ length then .ok ((cursor.rest.drop skip).take (stop - start))
  else .error (.slice start stop length)

/-- The text that a pattern takes at a place, and the place after it. -/
def Pattern.read (pattern : Pattern) (cursor : Cursor) : Option (Text × Cursor) :=
  (pattern.scan cursor.rest).map fun (text, rest) =>
    (text, { offset := cursor.offset + text.width, rest })

/-- What the text of a lexeme means. -/
inductive Meaning where
  | null
  | typed (type : EdmType)
  /-- An integer of a type, which must be in the range of the type. -/
  | integer (type : EdmType) (range : Pattern.IntegerRange)
  /-- The digits of a spatial reference identifier. -/
  | srid
  /-- The text is a name. -/
  | name
  /-- The text is a name after its first character. -/
  | term
  /-- The text between the first and the last character. -/
  | jsonString
  | jsonNumber
  | jsonBoolean (value : Bool)
  | jsonNull

namespace Meaning

/-- The digits of the first numeral of a text, as a number that so many bits must hold. -/
def magnitude (bits length : Nat) (start : Cursor) (text : Text) : Except Fault Nat := do
  let lead : Text := text.takeWhile (!·.isDigit)
  let digits : Text := (text.dropWhile (!·.isDigit)).takeWhile (·.isDigit)
  let octets ← start.slice length lead.width (start.offset + lead.width + digits.width)
  Checked.numeral bits octets

/-- The value of a lexeme that starts at a place of a source of some length. A text that is to be kept or
converted must be valid UTF-8. -/
def read? (length : Nat) (start : Cursor) (text : Text) : Meaning → Except Fault (Option Value)
  | null => pure (some .null)
  | typed type => pure (some (.typed type))
  | integer type range => do
    let magnitude ← magnitude 64 length start text
    pure (if range.holds (text.withSign magnitude) then some (.typed type) else none)
  | srid => do
    let number ← magnitude 32 length start text
    pure (some (.srid number))
  | name => do
    let octets ← start.slice length 0 (start.offset + text.width)
    pure ((Utf8.decode? octets).map .identifier)
  | term => do
    let octets ← start.slice length (Text.width (text.take 1)) (start.offset + text.width)
    pure ((Utf8.decode? octets).map .identifier)
  | jsonString => do
    let octets ← start.slice length (Text.width (text.take 1)) (start.offset + Text.width text.dropLast)
    pure ((Utf8.decode? octets).map (.json ∘ .string))
  | jsonNumber => do
    let octets ← start.slice length 0 (start.offset + text.width)
    pure (((Utf8.decode? octets).bind Binary64.ofString?).map (.json ∘ .number))
  | jsonBoolean value => pure (some (.json (.boolean value)))
  | jsonNull => pure (some (.json .null))

end Meaning

/-- What two tokens in a row make up. -/
inductive Pairing where
  | position
  | fullGeo
  | keyValue
deriving DecidableEq, Repr

def Pairing.kind : Pairing → Kind
  | position => .literal
  | fullGeo => .literal
  | keyValue => .property

def Pairing.value : Pairing → Token → Token → Value
  | position => .position
  | fullGeo => .fullGeo
  | keyValue => .keyValue

/-- The constructs that may contain themselves. -/
inductive Construct where
  | object
  | collection
deriving DecidableEq, Repr

inductive Rule where
  /-- A text with a meaning. -/
  | lexeme (kind : Kind) (meaning : Meaning) (pattern : Pattern)
  /-- A token between two delimiters. -/
  | enclosed (kind : Kind) (opening : Pattern) (inner : Rule) (closing : Pattern)
  /-- Two tokens, with delimiters before and between them. -/
  | pair (pairing : Pairing) (opening : Pattern) (first : Rule) (between : Pattern) (second : Rule)
  /-- Items between delimiters, with separators between the items. -/
  | list (kind : Kind) (opening : Pattern) (item : Rule) (separator closing : Pattern)
      (mayBeEmpty : Bool)
  /-- A type name and a list of members, which is never empty. -/
  | enumeration (typeName opening : Pattern) (member : Rule) (separator closing : Pattern)
  /-- The text of a rule, with a type for its meaning. -/
  | withType (type : EdmType) (rule : Rule)
  /-- The token of a rule, in another category. -/
  | withKind (kind : Kind) (rule : Rule)
  | orElse (first second : Rule)
  | never
  | construct (construct : Construct)

/-- Reads a token at a place and moves on to the place after it. -/
abbrev Reader (account : Type) : Type :=
  Cursor → Attempt account (Token × Cursor)

namespace Reader

variable {account : Type}

/-- The place after a pattern. -/
def skip (pattern : Pattern) (cursor : Cursor) : Attempt account Cursor :=
  Attempt.ofOption ((pattern.read cursor).map (·.2))

/-- The token from one place to another of a source of some length. -/
def close (length : Nat) (kind : Kind) (value : Value) (start stop : Cursor) :
    Attempt account (Token × Cursor) := do
  let span : Span := { start := start.offset, stop := stop.offset }
  pure (← Attempt.ofChecked (Checked.token length kind span value), stop)

def lexeme (length : Nat) (kind : Kind) (meaning : Meaning) (pattern : Pattern) :
    Reader account := fun start => do
  let (text, stop) ← Attempt.ofOption (pattern.read start)
  let found ← Attempt.ofChecked (meaning.read? length start text)
  let value ← Attempt.ofOption found
  close length kind value start stop

def enclosed (length : Nat) (kind : Kind) (opening : Pattern) (inner : Reader account)
    (closing : Pattern) : Reader account := fun start => do
  let (token, after) ← inner (← skip opening start)
  close length kind (.nested token) start (← skip closing after)

def pair (length : Nat) (pairing : Pairing) (opening : Pattern) (first : Reader account)
    (between : Pattern) (second : Reader account) : Reader account := fun start => do
  let (left, after) ← first (← skip opening start)
  let (right, stop) ← second (← skip between after)
  close length pairing.kind (pairing.value left right) start stop

/-- Items up to the closing delimiter. Each round takes at least the octets of a separator, so the octets
that are left bound the number of rounds. -/
def itemsUntil (item : Reader account) (separator closing : Pattern) :
    (budget : Bytes) → (items : List Token) → Cursor → Attempt account (List Token × Cursor)
  | [], _, _ => Attempt.fail
  | _ :: budget, items, start => do
    let (token, after) ← item start
    match closing.read after with
    | some (_, stop) => pure ((token :: items).reverse, stop)
    | none => itemsUntil item separator closing budget (token :: items) (← skip separator after)

/-- The items from a place on, which is after the opening delimiter. -/
def items (item : Reader account) (separator closing : Pattern) (start : Cursor) :
    Attempt account (List Token × Cursor) :=
  itemsUntil item separator closing start.rest [] start

def list (length : Nat) (kind : Kind) (opening : Pattern) (item : Reader account)
    (separator closing : Pattern) (mayBeEmpty : Bool) : Reader account := fun start => do
  let first ← skip opening start
  match if mayBeEmpty then closing.read first else none with
  | some (_, stop) => close length kind (.items []) start stop
  | none =>
    let (tokens, stop) ← items item separator closing first
    close length kind (.items tokens) start stop

def enumeration (length : Nat) (typeName opening : Pattern) (member : Reader account)
    (separator closing : Pattern) : Reader account := fun start => do
  let (_, after) ← Attempt.ofOption (typeName.read start)
  let (members, stop) ← items member separator closing (← skip opening after)
  let octets ← Attempt.ofChecked (start.slice length 0 after.offset)
  let name ← Attempt.ofOption (Utf8.decode? octets)
  close length .enumeration (.enumeration name members) start stop

def mapToken (change : Token → Token) (reader : Reader account) : Reader account := fun start => do
  let (token, stop) ← reader start
  pure (change token, stop)

end Reader

/-- The reader of a rule in a source of some length, given the readers of the constructs that it names. -/
def Rule.readWith {account : Type} (length : Nat) (construct : Construct → Reader account) :
    Rule → Reader account
  | lexeme kind meaning pattern => Reader.lexeme length kind meaning pattern
  | enclosed kind opening inner closing =>
    Reader.enclosed length kind opening (inner.readWith length construct) closing
  | pair pairing opening first between second =>
    Reader.pair length pairing opening (first.readWith length construct) between
      (second.readWith length construct)
  | list kind opening item separator closing mayBeEmpty =>
    Reader.list length kind opening (item.readWith length construct) separator closing mayBeEmpty
  | enumeration typeName opening member separator closing =>
    Reader.enumeration length typeName opening (member.readWith length construct) separator closing
  | withType type rule => Reader.mapToken (·.withType type) (rule.readWith length construct)
  | withKind kind rule => Reader.mapToken (·.withKind kind) (rule.readWith length construct)
  | orElse first second => fun start =>
    first.readWith length construct start <|> second.readWith length construct start
  | never => fun _ => Attempt.fail
  | .construct named => construct named

/-! Tables of named alternatives. The first alternative that reads wins. -/

/-- A rule under the name that the grammar gives it. -/
structure Alternative where
  name : String
  rule : Rule

/-- How an alternative is shown in an outline. -/
def Alternative.outline (alternative : Alternative) : String :=
  "NamedRecognizer(\"" ++ alternative.name ++ "\")"

abbrev Table := List Alternative

/-- The rule that tries the alternatives in order. -/
def Table.rule (table : Table) : Rule :=
  table.foldr (fun alternative rest => .orElse alternative.rule rest) .never

theorem Table.rule_of_forall {table : Table} (good : Rule → Prop) (never : good .never)
    (orElse : ∀ {first second : Rule}, good first → good second → good (.orElse first second))
    (each : ∀ alternative ∈ table, good alternative.rule) : good table.rule := by
  induction table with
  | nil => exact never
  | cons alternative rest ih =>
    obtain ⟨first, others⟩ := List.forall_mem_cons.mp each
    exact orElse first (ih others)

end ODataLiteral
