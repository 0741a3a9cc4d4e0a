import ODataLiteral.Proofs.Pattern.Caseless
import ODataLiteral.Proofs.Rule.Steps
import ODataLiteral.Proofs.Utf8

/-! Rules in a text and in the same text with small digits. They read the same tokens, but that a JSON string keeps
its text as it is written: erasing those texts makes the tokens equal.
Whether a text is valid UTF-8 does not depend on its digits, so a string that is found here is found there. -/
namespace ODataLiteral

/-- A JSON value without the text of a string. -/
def JsonPrimitive.erase : JsonPrimitive → JsonPrimitive
  | string _ => string ""
  | number value => number value
  | boolean value => boolean value
  | null => null

mutual

/-- The same token without the texts of the JSON strings in it. -/
def Token.erase : Token → Token
  | ⟨kind, span, value⟩ => ⟨kind, span, value.erase⟩

def Value.erase : Value → Value
  | .position longitude latitude => .position longitude.erase latitude.erase
  | .nested inner => .nested inner.erase
  | .items tokens => .items (Token.eraseAll tokens)
  | .fullGeo reference literal => .fullGeo reference.erase literal.erase
  | .enumeration typeName members => .enumeration typeName (Token.eraseAll members)
  | .keyValue key value => .keyValue key.erase value.erase
  | .null => .null
  | .typed type => .typed type
  | .srid identifier => .srid identifier
  | .identifier name => .identifier name
  | .json primitive => .json primitive.erase

def Token.eraseAll : List Token → List Token
  | [] => []
  | token :: rest => token.erase :: Token.eraseAll rest

end

theorem Token.erase_eq (token : Token) : token.erase = ⟨token.kind, token.span, token.value.erase⟩ := by
  cases token
  rw [Token.erase]

theorem Pairing.erase_value (pairing : Pairing) (one two : Token) :
    (pairing.value one two).erase = pairing.value one.erase two.erase := by
  cases pairing <;> simp only [Pairing.value, Value.erase]

section Meaning

/-- The texts in small digits mean the same, but for the text of a JSON string. -/
def Meaning.Caseless (meaning : Meaning) (pattern : Pattern) : Prop :=
  ∀ text taken rest, pattern.split text = some (taken, rest) →
    Option.Rel (fun found expected : Value => found.erase = expected.erase) (meaning.value? taken.small)
      (meaning.value? taken)

theorem Text.extendNumeral_small (value : Nat) (character : UriChar) :
    extendNumeral value character.small = extendNumeral value character := by
  cases character <;> rfl

theorem Text.natural_small (text : Text) : text.small.natural = text.natural := by
  rw [natural, natural, small, List.foldl_map]
  simp only [extendNumeral_small]

theorem Text.withSign_small (text : Text) (magnitude : Nat) :
    text.small.withSign magnitude = text.withSign magnitude := by
  unfold withSign small
  rw [List.head?_map]
  cases text.head? with
  | none => rfl
  | some character => simp only [Option.map_some, Option.some.injEq, UriChar.small_eq_plain_iff]

theorem Text.integer_small (text : Text) : text.small.integer = text.integer := by
  rw [integer, integer, withSign_small, natural_small]

theorem Text.alike_small (text : Text) : List.Forall₂ Utf8.Alike text.bytes text.small.bytes := by
  have same (octet : UInt8) : Utf8.Alike octet octet := .inl rfl
  have digit (octet : UInt8) : Utf8.Alike octet (Octet.small octet) := by
    rcases Octet.small_eq_or_lt octet with kept | ⟨low, lowToo⟩
    · exact .inl kept.symm
    · exact .inr ⟨lowToo, low⟩
  induction text with
  | nil => exact .nil
  | cons character rest ih =>
    cases character with
    | plain octet => exact .cons (same octet) ih
    | encoded high low => exact .cons (same _) (.cons (digit high) (.cons (digit low) ih))

theorem Text.isSome_decode?_small (text : Text) :
    (Utf8.decode? text.small.bytes).isSome = (Utf8.decode? text.bytes).isSome := by
  rw [Bool.eq_iff_iff, Utf8.decode?_isSome_iff, Utf8.decode?_isSome_iff]
  have alike := text.alike_small
  constructor
  · intro valid
    exact valid.of_alike (alike.flip.imp fun _ _ => Utf8.Alike.symm)
  · intro valid
    exact valid.of_alike alike

namespace Meaning

theorem caseless_of_same {meaning : Meaning} {pattern : Pattern}
    (same : ∀ text taken rest, pattern.split text = some (taken, rest) →
      meaning.value? taken.small = meaning.value? taken) : meaning.Caseless pattern := by
  intro text taken rest read
  rw [same text taken rest read]
  cases meaning.value? taken with
  | none => exact .none
  | some value => exact .some rfl

theorem integer_caseless (type : EdmType) (range : Pattern.IntegerRange) (pattern : Pattern) :
    (integer type range).Caseless pattern := by
  apply caseless_of_same
  intro text taken rest _
  simp only [value?, Text.integer_small]

theorem srid_caseless (pattern : Pattern) : srid.Caseless pattern := by
  apply caseless_of_same
  intro text taken rest _
  simp only [value?, Text.natural_small]

theorem jsonString_caseless (pattern : Pattern) : jsonString.Caseless pattern := by
  intro text taken rest _
  have inner : taken.small.tail.dropLast = Text.small taken.tail.dropLast := by
    simp only [Text.small, List.map_dropLast, List.map_tail]
  have found := Text.isSome_decode?_small taken.tail.dropLast
  simp only [value?, inner]
  revert found
  generalize Utf8.decode? (Text.bytes (Text.small taken.tail.dropLast)) = one
  generalize Utf8.decode? (Text.bytes taken.tail.dropLast) = two
  intro found
  -- Both texts are UTF-8 or neither is, and which texts they are is erased.
  cases one <;> cases two <;> cases found
  · exact .none
  · exact .some (by simp only [Function.comp, Value.erase, JsonPrimitive.erase])

theorem caseless_of_spells (meaning : Meaning) {pattern : Pattern} (steady : pattern.steady = true)
    (plain : pattern.Spells fun character => character.small = character) : meaning.Caseless pattern := by
  apply caseless_of_same
  intro text taken rest read
  rw [Text.small_of_forall (Pattern.spells_of_split steady plain read)]

end Meaning

end Meaning

def Place.small (place : Place) : Place :=
  { place with rest := place.rest.small }

theorem Pattern.parse_small {pattern : Pattern} (caseless : pattern.Caseless) (start : Place) :
    pattern.parse start.small = (pattern.parse start).map fun found => (found.1.small, found.2.small) := by
  simp only [parse, Place.small, split_small caseless, Option.map_map]
  congr 1
  funext found
  simp only [Function.comp, inSmall, Text.width_small]

/-- What is read in small digits is what is read here, without the texts of JSON strings. -/
structure Place.Alike (found expected : Token × Place) : Prop where
  token : found.1.erase = expected.1.erase
  stop : found.2 = expected.2.small

namespace Parser

def Caseless (parser : Parser) : Prop :=
  ∀ start, Option.Rel Place.Alike (parser start.small) (parser start)

section Related

variable {α β γ δ : Type} {related : α → β → Prop} {onward : γ → δ → Prop} {one : Option α} {two : Option β}

theorem rel_bind {first : α → Option γ} {second : β → Option δ} (same : Option.Rel related one two)
    (others : ∀ left right, related left right → Option.Rel onward (first left) (second right)) :
    Option.Rel onward (one >>= first) (two >>= second) := by
  cases same with
  | none => exact .none
  | some same => exact others _ _ same

theorem rel_map {first : α → γ} {second : β → δ} (same : Option.Rel related one two)
    (kept : ∀ left right, related left right → onward (first left) (second right)) :
    Option.Rel onward (one.map first) (two.map second) := by
  cases same with
  | none => exact .none
  | some same => exact .some (kept _ _ same)

theorem map_eq_of_rel {first : α → γ} {second : β → γ} (same : Option.Rel related one two)
    (equal : ∀ left right, related left right → first left = second right) : one.map first = two.map second := by
  cases same with
  | none => rfl
  | some same => exact congrArg some (equal _ _ same)

theorem rel_or {other : Option α} {otherToo : Option β} (same : Option.Rel related one two)
    (others : Option.Rel related other otherToo) : Option.Rel related (one.or other) (two.or otherToo) := by
  cases same with
  | none => exact others
  | some same => exact .some same

end Related

theorem skip_caseless {pattern : Pattern} (caseless : pattern.Caseless) (start : Place) :
    Option.Rel (fun found expected : Text × Place => found.1 = expected.1.small ∧ found.2 = expected.2.small)
      (pattern.parse start.small) (pattern.parse start) := by
  rw [Pattern.parse_small caseless]
  cases pattern.parse start with
  | none => exact .none
  | some found => exact .some ⟨rfl, rfl⟩

theorem close_caseless (kind : Kind) {value other : Value} (same : value.erase = other.erase)
    (start stop : Place) :
    Option.Rel Place.Alike (some (close kind value start.small stop.small)) (some (close kind other start stop)) := by
  refine .some ⟨?_, rfl⟩
  simp only [close, Token.erase, same]
  rfl

section Caseless

variable {parser first second : Parser} {opening between separator closing : Pattern}

theorem lexeme_caseless {meaning : Meaning} {pattern : Pattern} (caseless : pattern.Caseless)
    (means : meaning.Caseless pattern) (kind : Kind) : (lexeme kind meaning pattern).Caseless := by
  intro start
  simp only [lexeme, Pattern.parse_small caseless]
  cases read : pattern.parse start with
  | none => exact .none
  | some found =>
    have same := means _ _ _ (Pattern.parse_iff.mp read).1
    simp only [Option.map_some, Option.bind_eq_bind, Option.bind_some]
    apply rel_bind same
    intro value other alike
    exact close_caseless kind alike start found.2

theorem enclosed_caseless (opens : opening.Caseless) (same : parser.Caseless) (closes : closing.Caseless)
    (kind : Kind) : (enclosed kind opening parser closing).Caseless := by
  intro start
  apply rel_bind (skip_caseless opens start)
  rintro ⟨_, _⟩ ⟨_, first⟩ ⟨_, rfl⟩
  apply rel_bind (same first)
  rintro ⟨token, _⟩ ⟨other, after⟩ ⟨alike, rfl⟩
  apply rel_bind (skip_caseless closes after)
  rintro ⟨_, _⟩ ⟨_, stop⟩ ⟨_, rfl⟩
  apply close_caseless kind
  simp only [Value.erase, alike]

theorem pair_caseless (opens : opening.Caseless) (one : first.Caseless) (parts : between.Caseless)
    (two : second.Caseless) (pairing : Pairing) :
    (pair pairing opening first between second).Caseless := by
  intro start
  apply rel_bind (skip_caseless opens start)
  rintro ⟨_, _⟩ ⟨_, left⟩ ⟨_, rfl⟩
  apply rel_bind (one left)
  rintro ⟨_, _⟩ ⟨_, after⟩ ⟨alike, rfl⟩
  apply rel_bind (skip_caseless parts after)
  rintro ⟨_, _⟩ ⟨_, right⟩ ⟨_, rfl⟩
  apply rel_bind (two right)
  rintro ⟨_, _⟩ ⟨_, stop⟩ ⟨alikeToo, rfl⟩
  apply close_caseless pairing.kind
  simp only [Pairing.erase_value, alike, alikeToo]

def AlikeItems (found expected : List Token × Place) : Prop :=
  Token.eraseAll found.1 = Token.eraseAll expected.1 ∧ found.2 = expected.2.small

theorem itemsWithin_caseless (same : parser.Caseless) (parts : separator.Caseless) (closes : closing.Caseless)
    (budget : Text) (start : Place) :
    Option.Rel AlikeItems (itemsWithin parser separator closing budget.small start.small)
      (itemsWithin parser separator closing budget start) := by
  induction budget generalizing start with
  | nil => exact .none
  | cons character budget ih =>
    apply rel_bind (same start)
    rintro ⟨token, _⟩ ⟨other, after⟩ ⟨alike, rfl⟩
    -- The list is closed here in both texts, or goes on in both.
    have closed := skip_caseless closes after
    dsimp only
    revert closed
    generalize closing.parse after.small = found
    generalize closing.parse after = expected
    rintro (⟨_, rest⟩ | _)
    · exact .some ⟨by simp only [Token.eraseAll, alike], rest⟩
    · apply rel_bind (skip_caseless parts after)
      rintro ⟨_, _⟩ ⟨_, next⟩ ⟨_, rfl⟩
      apply rel_bind (ih next)
      rintro ⟨_, _⟩ ⟨_, stop⟩ ⟨others, rfl⟩
      exact .some ⟨by simp only [Token.eraseAll, alike, others], rfl⟩

theorem items_caseless (same : parser.Caseless) (parts : separator.Caseless) (closes : closing.Caseless)
    (start : Place) :
    Option.Rel AlikeItems (items parser separator closing start.small) (items parser separator closing start) :=
  itemsWithin_caseless same parts closes start.rest start

theorem list_caseless (opens : opening.Caseless) (same : parser.Caseless) (parts : separator.Caseless)
    (closes : closing.Caseless) (kind : Kind) (mayBeEmpty : Bool) :
    (list kind opening parser separator closing mayBeEmpty).Caseless := by
  intro start
  apply rel_bind (skip_caseless opens start)
  rintro ⟨_, _⟩ ⟨_, first⟩ ⟨_, rfl⟩
  have empty : Option.Rel
      (fun found expected : Text × Place => found.1 = expected.1.small ∧ found.2 = expected.2.small)
      (if mayBeEmpty then closing.parse first.small else none) (if mayBeEmpty then closing.parse first else none) := by
    split
    · exact skip_caseless closes first
    · exact .none
  dsimp only
  revert empty
  generalize (if mayBeEmpty = true then closing.parse first.small else none) = found
  generalize (if mayBeEmpty = true then closing.parse first else none) = expected
  rintro (⟨_, stop⟩ | _)
  · dsimp only
    rw [stop]
    exact close_caseless kind rfl start _
  · apply rel_bind (items_caseless same parts closes first)
    rintro ⟨_, _⟩ ⟨_, stop⟩ ⟨alike, rfl⟩
    apply close_caseless kind
    simp only [Value.erase, alike]

theorem enumeration_caseless {typeName : Pattern} (named : typeName.Caseless) (steady : typeName.steady = true)
    (plain : typeName.Spells fun character => character.small = character) (opens : opening.Caseless)
    (same : parser.Caseless) (parts : separator.Caseless) (closes : closing.Caseless) :
    (enumeration typeName opening parser separator closing).Caseless := by
  intro start
  simp only [enumeration, Pattern.parse_small named]
  cases read : typeName.parse start with
  | none => exact .none
  | some found =>
    -- The name is kept as it is written, so it must not have an encoded octet.
    have kept := Text.small_of_forall (Pattern.spells_of_split steady plain (Pattern.parse_iff.mp read).1)
    simp only [Option.map_some, Option.bind_eq_bind, Option.bind_some, kept]
    apply rel_bind (skip_caseless opens found.2)
    rintro ⟨_, _⟩ ⟨_, first⟩ ⟨_, rfl⟩
    apply rel_bind (items_caseless same parts closes first)
    rintro ⟨_, _⟩ ⟨_, stop⟩ ⟨alike, rfl⟩
    dsimp only
    cases Utf8.decode? found.1.bytes with
    | none => exact .none
    | some name =>
      apply close_caseless .enumeration
      simp only [Value.erase, alike]

theorem mapToken_caseless {change : Token → Token} (same : parser.Caseless)
    (kept : ∀ one two : Token, one.erase = two.erase → (change one).erase = (change two).erase) :
    (mapToken change parser).Caseless := by
  intro start
  unfold mapToken
  apply rel_map (same start)
  rintro ⟨token, _⟩ ⟨other, stop⟩ ⟨alike, rest⟩
  exact ⟨kept token other alike, rest⟩

end Caseless

end Parser

/-- Rules with patterns and meanings that do not depend on the letter case of digits. -/
def Rule.Caseless : Rule → Prop
  | lexeme _ meaning pattern => pattern.Caseless ∧ meaning.Caseless pattern
  | enclosed _ opening inner closing => opening.Caseless ∧ inner.Caseless ∧ closing.Caseless
  | pair _ opening first between second =>
    opening.Caseless ∧ first.Caseless ∧ between.Caseless ∧ second.Caseless
  | list _ opening item separator closing _ =>
    opening.Caseless ∧ item.Caseless ∧ separator.Caseless ∧ closing.Caseless
  | enumeration typeName opening member separator closing =>
    (typeName.Caseless ∧ typeName.steady = true ∧ typeName.Spells fun character => character.small = character) ∧
      opening.Caseless ∧ member.Caseless ∧ separator.Caseless ∧ closing.Caseless
  | withType _ rule | withKind _ rule => rule.Caseless
  | orElse first second => first.Caseless ∧ second.Caseless
  | never | .construct _ => True

theorem Token.erase_withType (type : EdmType) (token other : Token) (same : token.erase = other.erase) :
    (token.withType type).erase = (other.withType type).erase := by
  simp only [Token.erase_eq, Token.mk.injEq] at same
  simp only [Token.erase_eq, Token.withType, same.1, same.2.1]

theorem Token.erase_withKind (kind : Kind) (token other : Token) (same : token.erase = other.erase) :
    (token.withKind kind).erase = (other.withKind kind).erase := by
  simp only [Token.erase_eq, Token.mk.injEq] at same
  simp only [Token.erase_eq, Token.withKind, same.2.1, same.2.2]

theorem Rule.parseWith_caseless {construct : Construct → Parser} (constructs : ∀ one, (construct one).Caseless)
    {rule : Rule} (caseless : rule.Caseless) : (rule.parseWith construct).Caseless := by
  induction rule with
  | lexeme kind meaning pattern => exact Parser.lexeme_caseless caseless.1 caseless.2 kind
  | enclosed kind opening inner closing ih =>
    obtain ⟨opens, within, closes⟩ := caseless
    exact Parser.enclosed_caseless opens (ih within) closes kind
  | pair pairing opening first between second ihFirst ihSecond =>
    obtain ⟨opens, one, parts, two⟩ := caseless
    exact Parser.pair_caseless opens (ihFirst one) parts (ihSecond two) pairing
  | list kind opening item separator closing mayBeEmpty ih =>
    obtain ⟨opens, within, parts, closes⟩ := caseless
    exact Parser.list_caseless opens (ih within) parts closes kind mayBeEmpty
  | enumeration typeName opening member separator closing ih =>
    obtain ⟨⟨named, steady, plain⟩, opens, within, parts, closes⟩ := caseless
    exact Parser.enumeration_caseless named steady plain opens (ih within) parts closes
  | withType type rule ih => exact Parser.mapToken_caseless (ih caseless) (Token.erase_withType type)
  | withKind kind rule ih => exact Parser.mapToken_caseless (ih caseless) (Token.erase_withKind kind)
  | orElse first second ihFirst ihSecond =>
    intro start
    exact Parser.rel_or (ihFirst caseless.1 start) (ihSecond caseless.2 start)
  | never => exact fun _ => .none
  | construct one => exact constructs one

end ODataLiteral
