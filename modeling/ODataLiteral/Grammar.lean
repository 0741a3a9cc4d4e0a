import ODataLiteral.Grammar.Json
import ODataLiteral.Grammar.Primitive

/-! The whole grammar: what the named constructs stand for, and reading a rule at an offset of a source.
Every construct takes at least one octet before it can contain itself, so the number of octets bounds
how often constructs are unfolded, whatever the policy on nesting says. -/
namespace ODataLiteral

/-- What a construct stands for, inside its own level. -/
def Construct.body : Construct → Rule
  | object => Grammar.objectMembers
  | collection => Grammar.collection

/-- The reader of a construct that unfolds constructs `unfoldings` times at the most. -/
def Construct.reader {account : Type} (nesting : Nesting account) (length : Nat) :
    (unfoldings : Nat) → Construct → Reader account
  | 0, _ => fun _ => Attempt.fail
  | unfoldings + 1, construct => fun start =>
    nesting.within
      (construct.body.readWith length (Construct.reader nesting length unfoldings) start)

/-- The token of a rule at an offset of a source under a policy on nesting. -/
def Rule.read {account : Type} (nesting : Nesting account) (rule : Rule) (source : Bytes)
    (offset : Nat) : Attempt account Token := do
  let start := Cursor.ofSource source offset
  let construct := Construct.reader nesting source.length start.rest.length
  let (token, _) ← rule.readWith source.length construct start
  pure token

/-- The greatest number of objects or collections inside one another. -/
def maxDepth : Nat := 64

/-- The token of a rule at an offset of a source, read with some levels open already. -/
def Rule.attempt (rule : Rule) (source : Bytes) (offset : Nat) : Attempt Nat Token :=
  rule.read (Nesting.bounded maxDepth) source offset

/-- The token of a rule at an offset of a source. -/
def Rule.tokenAt? (rule : Rule) (source : Bytes) (offset : Nat) : Option Token :=
  (rule.attempt source offset 0).1.value?

/-- One call after another, each with the account that the one before has left. -/
def Rule.attemptAll : List (Rule × Bytes × Nat) → Nat → List (Option Token) × Nat
  | [], depth => ([], depth)
  | (rule, source, offset) :: calls, depth =>
    let (outcome, after) := rule.attempt source offset depth
    let (outcomes, last) := Rule.attemptAll calls after
    (outcome.value? :: outcomes, last)

/-- The first alternative that reads at an offset, with its token. -/
def Table.firstMatch? (table : Table) (source : Bytes) (offset : Nat) : Option (String × Token) :=
  table.findSome? fun alternative =>
    (alternative.rule.tokenAt? source offset).map fun token => (alternative.name, token)

/-- Why a text is not a literal. -/
inductive LiteralError where
  | noMatch (offset : Nat)
  | trailingInput (stop length : Nat)
deriving DecidableEq, Repr

def LiteralError.message : LiteralError → String
  | noMatch offset => s!"no literal matches at byte offset {offset}"
  | trailingInput stop length =>
    s!"literal ends at byte offset {stop} but the input is {length} bytes long"

/-- The token of a rule that takes the source as a whole. -/
def Rule.complete (rule : Rule) (source : Bytes) : Except LiteralError Token :=
  match rule.tokenAt? source 0 with
  | some token =>
    if token.span.stop = source.length then .ok token
    else .error (.trailingInput token.span.stop source.length)
  | none => .error (.noMatch 0)

namespace Grammar

/-! Every rule that a caller may ask for by name. The tables dispatch to them, and each is also a rule on its own. -/

/-- The rules of one shape: its literal alone, with a reference system, and as a value on either surface. -/
def shapeCatalogue (kind : Shape) : List Rule :=
  [shape kind, withSrid (shape kind), spatial .geography kind, spatial .geometry kind]

def primitiveCatalogue : List Rule :=
  [null, boolean, guid, date, dateTimeOffset, timeOfDay, decimal, double, single, sbyte, byte, int16,
   int32, int64, string, duration, binary, enumeration, identifier, primitiveLiteral]

def geoCatalogue : List Rule :=
  [position, pointData, lineStringData, ring, polygonData, srid, geoLiteral] ++
    Shape.all.flatMap shapeCatalogue

def jsonCatalogue : List Rule :=
  [jsonString, jsonNumber, jsonBoolean, jsonNull, jsonPrimitive, annotationTerm, annotationMember,
   propertyMember, object, objectArray, primitiveArray, jsonValue, arrayOrObject]

def catalogue : List Rule :=
  primitiveCatalogue ++ geoCatalogue ++ jsonCatalogue

/-- The alternatives before the spatial ones are rules on their own as well. -/
theorem forall_primitiveCatalogue (good : Rule → Prop) (name : good identifier)
    (each : ∀ alternative ∈ primitiveTable, good alternative.rule) (literal : good primitiveLiteral) :
    ∀ rule ∈ primitiveCatalogue, good rule := by
  have parts : primitiveCatalogue = (primitiveTable.take 18).map (·.rule) ++ [identifier, primitiveLiteral] := rfl
  rw [parts, List.forall_mem_append, List.forall_mem_map, List.forall_mem_cons, List.forall_mem_singleton]
  exact ⟨fun alternative member => each alternative (List.mem_of_mem_take member), name, literal⟩

end Grammar

end ODataLiteral
