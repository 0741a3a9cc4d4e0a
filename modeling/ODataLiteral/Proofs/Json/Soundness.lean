import ODataLiteral.Proofs.Json.Terminals
import ODataLiteral.Proofs.Rule.Soundness

/-! What the rules of JSON read is derived from the grammar, and the token says how. The items of a structure stand in
it in a row, each with its own octets, and nothing stands beside them but the opening delimiter, one separator between
two neighbours and the closing delimiter. -/
namespace ODataLiteral

namespace Token

open Abnf (Derives)

variable (source : Bytes)

/-- Items from the offset where the first one starts to the offset where the last one stops. -/
inductive Listed (item : Token → Prop) : Nat → List Token → Nat → Prop
  | last {token : Token} (here : item token) : Listed item token.span.start [token] token.span.stop
  | more {token : Token} {next stop : Nat} {tokens : List Token} (here : item token)
      (separator : Derives Abnf.valueSeparator (source.slice token.span.stop next))
      (others : Listed item next tokens stop) :
      Listed item token.span.start (token :: tokens) stop

/-- A token of items between delimiters. -/
def IsList (kind : Kind) (opens : Char) (item : Token → Prop) (closes : Char) (token : Token) : Prop :=
  token.kind = kind ∧ ∃ tokens first last, token.value = .items tokens ∧
    Derives (Abnf.opening opens) (source.slice token.span.start first) ∧
    (tokens = [] ∧ last = first ∨ Listed source item first tokens last) ∧
    Derives (Abnf.closing closes) (source.slice last token.span.stop)

def IsArray (item : Token → Prop) : Token → Prop :=
  IsList source .array '[' item ']'

def IsPrimitive (token : Token) : Prop :=
  (∃ primitive, token.value = .json primitive) ∧ Derives Abnf.primitive (token.octets source)

/-- A text that begins with an at sign in either form. -/
def StartsWithAt (octets : Bytes) : Prop :=
  ∃ sign rest, octets = sign ++ rest ∧ Derives (Abnf.mark '@') sign

/-- A token of a quoted key and its content. -/
structure Pairs (keys : Language UriChar) (token key content : Token) : Prop where
  value : token.value = .keyValue key content
  opens : Derives Abnf.quotationMark (source.slice token.span.start key.span.start)
  name : Derives keys (key.octets source)
  separates : Derives (Abnf.quotationMark * Abnf.nameSeparator)
    (source.slice key.span.stop content.span.start)
  stops : content.span.stop = token.span.stop

/-- A member of an object. Its key decides whether it is an annotation or a property. -/
def IsMember (value : Token → Prop) (token : Token) : Prop :=
  ∃ key content, Pairs source (Abnf.annotationKey + Abnf.identifier) token key content ∧ value content ∧
    (token.kind = .annotationMember ↔ StartsWithAt (key.octets source)) ∧
    (token.kind = .property ↔ ¬ StartsWithAt (key.octets source))

def IsValue (object : Token → Prop) (token : Token) : Prop :=
  object token ∨ IsArray source object token ∨ IsPrimitive source token ∨
    IsArray source (IsPrimitive source) token

/-- An object with so many objects inside one another at the most, itself included. -/
def IsObject : (depth : Nat) → Token → Prop
  | 0, _ => False
  | depth + 1, token =>
    IsList source .object '{' (IsMember source (IsValue source (IsObject depth))) '}' token

end Token

open Pattern

variable (source : Bytes) (levels : Nat)

namespace Grammar

section Primitive

theorem jsonString_sound : (jsonString.parse levels).Sound source Abnf.string fun token =>
    ∃ primitive, token.value = .json primitive := by
  refine (Parser.lexeme_sound (by decide) (by decide) ?_).mono le_rfl ?_
  · intro text member value known
    obtain ⟨string, read, _⟩ := Option.map_eq_some_iff.mp known
    exact mem_string_iff.mpr ⟨member, Utf8.decode?_isSome_iff.mp (by rw [read]; rfl)⟩
  · rintro token ⟨_, text, known⟩
    obtain ⟨string, _, same⟩ := Option.map_eq_some_iff.mp known
    exact ⟨_, same.symm⟩

theorem jsonNumber_sound : (jsonNumber.parse levels).Sound source Abnf.number fun token =>
    ∃ primitive, token.value = .json primitive := by
  refine (Parser.lexeme_sound (by decide) (by decide) fun text member _ _ => member).mono le_rfl ?_
  rintro token ⟨_, text, known⟩
  exact ⟨_, (Option.some.inj known).symm⟩

theorem keyword_sound (keyword : String) (steady : (word keyword).steady = true)
    (clean : (word keyword).clean = true) (meaning : Meaning) {primitive : JsonPrimitive}
    (means : ∀ text, meaning.value? text = some (.json primitive)) :
    ((Rule.lexeme .literal meaning (word keyword)).parse levels).Sound source (Abnf.word keyword)
      fun token => ∃ primitive, token.value = .json primitive := by
  refine (Parser.lexeme_sound steady clean fun text member _ _ => ?_).mono le_rfl ?_
  · rwa [language_word] at member
  · rintro token ⟨_, text, known⟩
    rw [means] at known
    exact ⟨_, (Option.some.inj known).symm⟩

theorem jsonPrimitive_sound :
    (jsonPrimitive.parse levels).Sound source Abnf.primitive (Token.IsPrimitive source) := by
  have isTrue := keyword_sound source levels "true" (by decide) (by decide) (.jsonBoolean true) fun _ => rfl
  have isFalse := keyword_sound source levels "false" (by decide) (by decide) (.jsonBoolean false) fun _ => rfl
  have isNull := keyword_sound source levels "null" (by decide) (by decide) .jsonNull fun _ => rfl
  have sound : (jsonPrimitive.parse levels).Sound source _ _ :=
    Parser.or_sound (jsonString_sound source levels) (Parser.or_sound (jsonNumber_sound source levels)
      (Parser.or_sound (Parser.or_sound isTrue isFalse) (Parser.or_sound isNull Parser.none_sound)))
  have same : Abnf.string + (Abnf.number + (Abnf.word "true" + Abnf.word "false" +
      (Abnf.word "null" + 0))) = Abnf.primitive := by
    rw [Abnf.primitive, add_zero]
    ac_rfl
  intro start token stop inside read
  obtain ⟨way, shape⟩ := sound start token stop inside read
  rw [same] at way
  refine ⟨way, ?_, way.octets inside read⟩
  simpa only [or_self, or_false] using shape

end Primitive

section List

variable {source : Bytes} {levels : Nat} {grammar : Language UriChar} {shape : Token → Prop}

theorem openingBracket_over {bracket : Char} (clean : (openingBracket bracket).clean = true)
    {start stop : Place} {text : Text} (inside : start.In source)
    (read : (openingBracket bracket).parse start = some (text, stop)) :
    Place.Over (Abnf.opening bracket) start stop := by
  have way := over_of_parse rfl clean inside read
  rwa [language_openingBracket] at way

theorem closingBracket_over {bracket : Char} (clean : (closingBracket bracket).clean = true)
    {start stop : Place} {text : Text} (inside : start.In source)
    (read : (closingBracket bracket).parse start = some (text, stop)) :
    Place.Over (Abnf.closing bracket) start stop := by
  have way := over_of_parse rfl clean inside read
  rwa [language_closingBracket] at way

theorem items_listed {item : Rule} (sound : (item.parse levels).Sound source grammar shape) {closes : Char}
    (clean : (closingBracket closes).clean = true) {start stop : Place} {tokens : List Token}
    (inside : start.In source)
    (run : Parser.Items (item.parse levels) valueSeparator (closingBracket closes) start tokens stop) :
    ∃ last, Place.Over (Abnf.items grammar) start last ∧ Place.Over (Abnf.closing closes) last stop ∧
      Token.Listed source shape start.offset tokens last.offset := by
  induction run with
  | @last start after stop token text read closed =>
    obtain ⟨way, here⟩ := sound _ _ _ inside read
    have listed : Token.Listed source shape token.span.start [token] token.span.stop := .last here
    rw [Rule.parse_spans levels item _ _ _ read] at listed
    exact ⟨after, way.mono Abnf.item_le_items, closingBracket_over clean (inside.across way) closed, listed⟩
  | @more start after next stop token tokens gap read goesOn between others ih =>
    obtain ⟨way, here⟩ := sound _ _ _ inside read
    have gap : Place.Over Abnf.valueSeparator after next :=
      openingBracket_over (by decide) (inside.across way) between
    obtain ⟨last, rest, closed, row⟩ := ih ((inside.across way).across gap)
    have separator := gap.derives (inside.across way)
    have span := Rule.parse_spans levels item _ _ _ read
    have stopsHere : token.span.stop = after.offset := by rw [span]
    rw [← stopsHere] at separator
    have listed := Token.Listed.more here separator row
    rw [span] at listed
    exact ⟨last, ((way.trans gap).trans rest).mono Abnf.more_le_items, closed, listed⟩

theorem list_sound {item : Rule} (sound : (item.parse levels).Sound source grammar shape) {kind : Kind}
    {opens closes : Char} (cleanOpening : (openingBracket opens).clean = true)
    (cleanClosing : (closingBracket closes).clean = true) :
    ((Rule.list kind (openingBracket opens) item valueSeparator (closingBracket closes) true).parse
        levels).Sound source (Abnf.delimited opens grammar closes)
      (Token.IsList source kind opens shape closes) := by
  intro start token stop inside read
  obtain ⟨_, first, tokens, opened, rfl, ⟨_, rfl, _, closed⟩ | ⟨_, run⟩⟩ := Parser.list_iff.mp read
  · have opening := openingBracket_over cleanOpening inside opened
    have closing := closingBracket_over cleanClosing (inside.across opening) closed
    have nothing : Place.Over (Abnf.optional (Abnf.items grammar)) first first :=
      Place.Over.refl.mono fun _ empty => Abnf.mem_optional.mpr (.inl ((Language.mem_one _).mp empty))
    exact ⟨(opening.trans nothing).trans closing, rfl, [], first.offset, first.offset, rfl,
      opening.derives inside, .inl ⟨rfl, rfl⟩, closing.derives (inside.across opening)⟩
  · have opening := openingBracket_over cleanOpening inside opened
    obtain ⟨last, row, closing, listed⟩ :=
      items_listed sound cleanClosing (inside.across opening) (Parser.items_of_itemsWithin run)
    have filled : Place.Over (Abnf.optional (Abnf.items grammar)) first last :=
      row.mono fun _ member => Abnf.mem_optional.mpr (.inr member)
    exact ⟨(opening.trans filled).trans closing, rfl, tokens, first.offset, last.offset, rfl,
      opening.derives inside, .inr listed, closing.derives ((inside.across opening).across row)⟩

end List

section Member

variable {source : Bytes} {levels : Nat} {keys values : Language UriChar} {named shape : Token → Prop}

theorem member_sound {key value : Rule} (keySound : (key.parse levels).Sound source keys named)
    (valueSound : (value.parse levels).Sound source values shape) :
    ((member key value).parse levels).Sound source (Abnf.pair keys values) fun token =>
      token.kind = .property ∧
        ∃ key content, Token.Pairs source keys token key content ∧ shape content := by
  intro start token stop inside read
  obtain ⟨_, left, one, middle, _, right, two, opened, readKey, separated, readValue, rfl⟩ :=
    Parser.pair_iff.mp read
  have quote := over_of_parse rfl (by decide) inside opened
  rw [language_doubleQuote] at quote
  have atKey := inside.across quote
  obtain ⟨name, _⟩ := keySound _ _ _ atKey readKey
  have between := over_of_parse rfl (by decide) (atKey.across name) separated
  have same : (doubleQuote ++ nameSeparator).language = Abnf.quotationMark * Abnf.nameSeparator := by
    rw [← language_doubleQuote, ← language_nameSeparator]
    rfl
  rw [same] at between
  have atValue := (atKey.across name).across between
  obtain ⟨content, here⟩ := valueSound _ _ _ atValue readValue
  have spanKey := Rule.parse_spans levels key _ _ _ readKey
  have spanValue := Rule.parse_spans levels value _ _ _ readValue
  refine ⟨((quote.trans name).trans between).trans content, rfl, one, two, ⟨rfl, ?_, ?_, ?_, ?_⟩, here⟩
  · rw [spanKey]
    exact quote.derives inside
  · exact name.octets atKey readKey
  · rw [spanKey, spanValue]
    exact between.derives (atKey.across name)
  · rw [spanValue]

theorem startsWithAt_of_annotationKey {octets : Bytes} (derived : Abnf.Derives Abnf.annotationKey octets) :
    Token.StartsWithAt octets := by
  obtain ⟨_, ⟨sign, isSign, rest, _, rfl⟩, legible, rfl⟩ := derived
  refine ⟨Text.bytes sign, Text.bytes rest, Text.bytes_append _ _, sign, isSign, ?_, rfl⟩
  exact fun character inside => legible character (List.mem_append_left _ inside)

/-- The first octet of an identifier is no at sign and no percent sign. -/
theorem not_startsWithAt_of_identifier {octets : Bytes} (derived : Abnf.Derives Abnf.identifier octets) :
    ¬ Token.StartsWithAt octets := by
  rintro ⟨_, rest, same, _, isSign, _, rfl⟩
  obtain ⟨_, ⟨_, first, others, _, rfl⟩, _, rfl⟩ := derived
  obtain ⟨octet, nameStart, rfl⟩ := Abnf.mem_raw.mp first
  obtain ⟨character, accepted, rfl⟩ := Abnf.mem_mark.mp isSign
  cases character with
  | plain other =>
    have isAt : other = '@'.toUInt8 := by
      simpa [UriChar.isDelimiter, UriChar.isPlain, UriChar.isEncoded, UriChar.decoded?] using accepted
    have head : octet = other := (List.cons.inj same).1
    rw [head, isAt] at nameStart
    exact absurd nameStart (by decide)
  | encoded high low =>
    have head : octet = UriChar.percent := (List.cons.inj same).1
    rw [head] at nameStart
    exact absurd nameStart (by decide)

theorem objectMember_sound {value : Rule} (sound : (value.parse levels).Sound source values shape) :
    ((Rule.orElse (.withKind .annotationMember (member annotationTerm value))
      (member identifier value)).parse levels).Sound source (Abnf.member values)
      (Token.IsMember source shape) := by
  have term : (annotationTerm.parse levels).Sound source Abnf.annotationKey fun _ => True := by
    refine (Parser.lexeme_sound (by decide) (by decide) fun text member _ _ => ?_).mono le_rfl
      fun _ _ => trivial
    rwa [language_annotationTerm] at member
  have name : (identifier.parse levels).Sound source Abnf.identifier fun _ => True := by
    refine (Parser.lexeme_sound (by decide) (by decide) fun text member _ _ => ?_).mono le_rfl
      fun _ _ => trivial
    rwa [language_identifier] at member
  intro start token stop inside read
  rcases Option.or_eq_some_iff.mp read with read | ⟨_, read⟩
  · obtain ⟨child, inner, rfl⟩ := Rule.parse_withKind_iff.mp read
    obtain ⟨way, _, key, content, pairs, here⟩ := member_sound term sound _ _ _ inside inner
    have marked := startsWithAt_of_annotationKey pairs.name
    have either := (Abnf.Derives.mono le_sup_left pairs.name : Abnf.Derives (_ + Abnf.identifier) _)
    exact ⟨way.mono le_sup_left, key, content,
      ⟨pairs.value, pairs.opens, either, pairs.separates, pairs.stops⟩, here, iff_of_true rfl marked,
      iff_of_false nofun (not_not_intro marked)⟩
  · obtain ⟨way, isProperty, key, content, pairs, here⟩ := member_sound name sound _ _ _ inside read
    have unmarked := not_startsWithAt_of_identifier pairs.name
    have either := (Abnf.Derives.mono le_sup_right pairs.name : Abnf.Derives (Abnf.annotationKey + _) _)
    refine ⟨way.mono le_sup_right, key, content,
      ⟨pairs.value, pairs.opens, either, pairs.separates, pairs.stops⟩, here, ?_, ?_⟩
    · rw [isProperty]
      exact iff_of_false nofun unmarked
    · exact iff_of_true isProperty unmarked

end Member

section Structure

variable {source : Bytes} {levels : Nat} {grammar : Language UriChar} {shape : Token → Prop}

theorem array_sound {item : Rule} (sound : (item.parse levels).Sound source grammar shape) :
    ((array item).parse levels).Sound source (Abnf.array grammar) (Token.IsArray source shape) :=
  list_sound sound (by decide) (by decide)

theorem jsonValue_sound (sound : (object.parse levels).Sound source grammar shape) :
    (jsonValue.parse levels).Sound source (Abnf.value grammar) (Token.IsValue source shape) := by
  have primitive := jsonPrimitive_sound source levels
  have either : (jsonValue.parse levels).Sound source _ _ :=
    Parser.or_sound sound (Parser.or_sound (array_sound sound) (Parser.or_sound primitive
      (Parser.or_sound (array_sound primitive) Parser.none_sound)))
  refine either.mono (le_of_eq ?_) fun token here => ?_
  · rw [Abnf.value, add_zero]
    ac_rfl
  · simpa only [Token.IsValue, or_false] using here

theorem object_sound (source : Bytes) (levels : Nat) :
    (object.parse levels).Sound source (Abnf.object levels) (Token.IsObject source levels) := by
  induction levels with
  | zero =>
    intro start token stop inside read
    cases read
  | succ levels ih => exact list_sound (objectMember_sound (jsonValue_sound ih)) (by decide) (by decide)

end Structure

end Grammar

end ODataLiteral
