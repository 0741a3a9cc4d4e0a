import ODataLiteral.Proofs.Rule.Reading

/-! Where in a source a text stands changes nothing but the offsets of its token, and these all by the same
number. -/
namespace ODataLiteral

mutual

/-- The same token after so many more octets. -/
def Token.shift (count : Nat) : Token → Token
  | ⟨kind, span, value⟩ =>
    ⟨kind, { start := span.start + count, stop := span.stop + count }, value.shift count⟩

def Value.shift (count : Nat) : Value → Value
  | .position longitude latitude => .position (longitude.shift count) (latitude.shift count)
  | .nested inner => .nested (inner.shift count)
  | .items tokens => .items (Token.shiftAll count tokens)
  | .fullGeo reference literal => .fullGeo (reference.shift count) (literal.shift count)
  | .enumeration typeName members => .enumeration typeName (Token.shiftAll count members)
  | .keyValue key value => .keyValue (key.shift count) (value.shift count)
  | .null => .null
  | .typed type => .typed type
  | .srid identifier => .srid identifier
  | .identifier name => .identifier name
  | .json primitive => .json primitive

def Token.shiftAll (count : Nat) : List Token → List Token
  | [] => []
  | token :: rest => token.shift count :: Token.shiftAll count rest

end

theorem Token.shift_eq (count : Nat) (token : Token) :
    token.shift count =
      ⟨token.kind, { start := token.span.start + count, stop := token.span.stop + count },
        token.value.shift count⟩ := by
  cases token
  rw [Token.shift]

theorem Meaning.shift_of_value? {meaning : Meaning} {text : Text} {value : Value} (count : Nat)
    (known : meaning.value? text = some value) : value.shift count = value := by
  have kept {text : Option String} {make : String → Value} (same : ∀ one, (make one).shift count = make one)
      (known : text.map make = some value) : value.shift count = value := by
    obtain ⟨one, _, rfl⟩ := Option.map_eq_some_iff.mp known
    exact same one
  cases meaning with
  | name | term => exact kept (fun _ => by rw [Value.shift]) known
  | jsonString => exact kept (fun _ => by rw [Function.comp, Value.shift]) known
  | integer type range =>
    simp only [Meaning.value?] at known
    split at known <;> cases known
    rw [Value.shift]
  | null | typed _ | srid | jsonNumber | jsonBoolean _ | jsonNull =>
    cases known
    rw [Value.shift]

theorem Pairing.shift_value (pairing : Pairing) (count : Nat) (one two : Token) :
    (pairing.value one two).shift count = pairing.value (one.shift count) (two.shift count) := by
  cases pairing <;> simp only [Pairing.value, Value.shift]

/-- The same text after so many more octets. -/
def Place.shift (count : Nat) (place : Place) : Place :=
  { place with offset := place.offset + count }

theorem Pattern.parse_shift (pattern : Pattern) (count : Nat) (start : Place) :
    pattern.parse (start.shift count) =
      (pattern.parse start).map fun found => (found.1, found.2.shift count) := by
  simp only [Pattern.parse, Place.shift, Option.map_map]
  congr 1
  funext found
  simp only [Function.comp, Nat.add_right_comm]

namespace Parser

/-- A parser that reads the same after so many more octets. -/
def Uniform (parser : Parser) : Prop :=
  ∀ count start, parser (start.shift count) =
    (parser start).map fun (token, stop) => (token.shift count, stop.shift count)

theorem shift_close (kind : Kind) (value : Value) (count : Nat) (start stop : Place) :
    close kind (value.shift count) (start.shift count) (stop.shift count) =
      ((close kind value start stop).1.shift count, (close kind value start stop).2.shift count) := by
  simp only [close, Place.shift, Token.shift]

section Uniform

variable {parser first second : Parser} {opening between separator closing : Pattern}

theorem lexeme_uniform (kind : Kind) (meaning : Meaning) (pattern : Pattern) :
    (lexeme kind meaning pattern).Uniform := by
  intro count start
  simp only [lexeme, Pattern.parse_shift]
  cases pattern.parse start with
  | none => rfl
  | some found =>
    obtain ⟨text, stop⟩ := found
    simp only [Option.map_some, Option.bind_eq_bind, Option.bind_some]
    cases known : meaning.value? text with
    | none => rfl
    | some value =>
      have closed := shift_close kind value count start stop
      rw [Meaning.shift_of_value? count known] at closed
      simp only [Option.bind_some, Option.map_some, closed]

theorem enclosed_uniform (uniform : parser.Uniform) (kind : Kind) :
    (enclosed kind opening parser closing).Uniform := by
  intro count start
  simp only [enclosed, Pattern.parse_shift]
  cases opening.parse start with
  | none => rfl
  | some found =>
    simp only [Option.map_some, Option.bind_eq_bind, Option.bind_some, uniform count found.2]
    cases parser found.2 with
    | none => rfl
    | some inner =>
      simp only [Option.map_some, Option.bind_some, Pattern.parse_shift]
      cases closing.parse inner.2 with
      | none => rfl
      | some behind =>
        have closed := shift_close kind (.nested inner.1) count start behind.2
        simp only [Value.shift] at closed
        simp only [Option.map_some, Option.bind_some, closed]

theorem pair_uniform (uniform : first.Uniform) (uniformToo : second.Uniform) (pairing : Pairing) :
    (pair pairing opening first between second).Uniform := by
  intro count start
  simp only [pair, Pattern.parse_shift]
  cases opening.parse start with
  | none => rfl
  | some found =>
    simp only [Option.map_some, Option.bind_eq_bind, Option.bind_some, uniform count found.2]
    cases first found.2 with
    | none => rfl
    | some one =>
      simp only [Option.map_some, Option.bind_some, Pattern.parse_shift]
      cases between.parse one.2 with
      | none => rfl
      | some gap =>
        simp only [Option.map_some, Option.bind_some, uniformToo count gap.2]
        cases second gap.2 with
        | none => rfl
        | some two =>
          have closed := shift_close pairing.kind (pairing.value one.1 two.1) count start two.2
          rw [Pairing.shift_value] at closed
          simp only [Option.map_some, Option.bind_some, closed]

theorem itemsWithin_shift (uniform : parser.Uniform) (budget : Text) (count : Nat) (start : Place) :
    itemsWithin parser separator closing budget (start.shift count) =
      (itemsWithin parser separator closing budget start).map fun (tokens, stop) =>
        (Token.shiftAll count tokens, stop.shift count) := by
  induction budget generalizing start with
  | nil => rfl
  | cons _ budget ih =>
    simp only [itemsWithin, uniform count start]
    cases parser start with
    | none => rfl
    | some one =>
      simp only [Option.map_some, Option.bind_eq_bind, Option.bind_some, Pattern.parse_shift]
      cases closing.parse one.2 with
      | some behind => simp only [Option.map_some, Token.shiftAll]
      | none =>
        simp only [Option.map_none]
        cases separator.parse one.2 with
        | none => rfl
        | some gap =>
          simp only [Option.map_some, Option.bind_some, ih gap.2]
          cases itemsWithin parser separator closing budget gap.2 with
          | none => rfl
          | some others => simp only [Option.map_some, Option.bind_some, Token.shiftAll]

theorem items_shift (uniform : parser.Uniform) (count : Nat) (start : Place) :
    items parser separator closing (start.shift count) =
      (items parser separator closing start).map fun (tokens, stop) =>
        (Token.shiftAll count tokens, stop.shift count) :=
  itemsWithin_shift uniform start.rest count start

theorem list_uniform (uniform : parser.Uniform) (kind : Kind) (mayBeEmpty : Bool) :
    (list kind opening parser separator closing mayBeEmpty).Uniform := by
  intro count start
  simp only [list, Pattern.parse_shift]
  cases opening.parse start with
  | none => rfl
  | some found =>
    have empty : (if mayBeEmpty = true then closing.parse (found.2.shift count) else none) =
        (if mayBeEmpty = true then closing.parse found.2 else none).map fun behind =>
          (behind.1, behind.2.shift count) := by
      split
      · exact Pattern.parse_shift closing count found.2
      · rfl
    simp only [Option.map_some, Option.bind_eq_bind, Option.bind_some]
    rw [empty]
    cases (if mayBeEmpty = true then closing.parse found.2 else none) with
    | some behind =>
      have closed := shift_close kind (.items []) count start behind.2
      simp only [Value.shift, Token.shiftAll] at closed
      simp only [Option.map_some, closed]
    | none =>
      simp only [Option.map_none, items_shift uniform count found.2]
      cases items parser separator closing found.2 with
      | none => rfl
      | some others =>
        have closed := shift_close kind (.items others.1) count start others.2
        simp only [Value.shift] at closed
        simp only [Option.map_some, Option.bind_some, closed]

theorem enumeration_uniform (uniform : parser.Uniform) (typeName : Pattern) :
    (enumeration typeName opening parser separator closing).Uniform := by
  intro count start
  simp only [enumeration, Pattern.parse_shift]
  cases typeName.parse start with
  | none => rfl
  | some named =>
    simp only [Option.map_some, Option.bind_eq_bind, Option.bind_some, Pattern.parse_shift]
    cases opening.parse named.2 with
    | none => rfl
    | some found =>
      simp only [Option.map_some, Option.bind_some, items_shift uniform count found.2]
      cases items parser separator closing found.2 with
      | none => rfl
      | some members =>
        simp only [Option.map_some, Option.bind_some]
        cases Utf8.decode? named.1.bytes with
        | none => rfl
        | some name =>
          have closed := shift_close .enumeration (.enumeration name members.1) count start members.2
          simp only [Value.shift] at closed
          simp only [Option.map_some, Option.bind_some, closed]

theorem mapToken_uniform (uniform : parser.Uniform) {change : Token → Token}
    (keeps : ∀ count token, (change token).shift count = change (token.shift count)) :
    (mapToken change parser).Uniform := by
  intro count start
  simp only [mapToken, uniform count start]
  cases parser start with
  | none => rfl
  | some found => simp only [Option.map_some, keeps]

end Uniform

end Parser

theorem Rule.parseWith_uniform {construct : Construct → Parser}
    (uniform : ∀ named, (construct named).Uniform) (rule : Rule) : (rule.parseWith construct).Uniform := by
  induction rule with
  | lexeme kind meaning pattern => exact Parser.lexeme_uniform kind meaning pattern
  | enclosed kind opening inner closing ih => exact Parser.enclosed_uniform ih kind
  | pair pairing opening first between second ihFirst ihSecond =>
    exact Parser.pair_uniform ihFirst ihSecond pairing
  | list kind opening item separator closing mayBeEmpty ih => exact Parser.list_uniform ih kind mayBeEmpty
  | enumeration typeName opening member separator closing ih => exact Parser.enumeration_uniform ih typeName
  | withType type rule ih =>
    exact Parser.mapToken_uniform ih fun count token => by
      simp only [Token.shift_eq, Token.withType, Value.shift]
  | withKind kind rule ih =>
    exact Parser.mapToken_uniform ih fun count token => by
      simp only [Token.shift_eq, Token.withKind]
  | orElse first second ihFirst ihSecond =>
    intro count start
    simp only [Rule.parseWith, ihFirst count start, ihSecond count start, Option.map_or]
  | never =>
    intro count start
    rfl
  | construct named => exact uniform named

theorem Construct.parse_uniform (levels : Nat) (construct : Construct) :
    (construct.parse levels).Uniform := by
  induction levels generalizing construct with
  | zero =>
    intro count start
    rfl
  | succ levels ih => exact Rule.parseWith_uniform ih construct.body

theorem Rule.parse_uniform (levels : Nat) (rule : Rule) : (rule.parse levels).Uniform :=
  Rule.parseWith_uniform (Construct.parse_uniform levels) rule

end ODataLiteral
