import ODataLiteral.Proofs.Grammar.Firm
import ODataLiteral.Proofs.Json.Space
import ODataLiteral.Proofs.Rule.Settled

/-! Which rules of the grammar are settled, and by what. Most of them are settled whatever follows. A numeral and a name
are so where an ending follows somewhere, a delimiter that neither of them may hold, and in a spatial literal, a JSON
structure or an enumeration one always does. -/
namespace ODataLiteral

open Pattern

namespace UriChar

def endings : List Char := [' ', ',', ')', ']', '}', '\'', '"']

def isEnding (character : UriChar) : Bool :=
  endings.any character.isDelimiter

theorem isEnding_of_mem {delimiter : Char} (member : delimiter ∈ endings) {character : UriChar}
    (same : character.isDelimiter delimiter = true) : character.isEnding = true :=
  List.any_eq_true.mpr ⟨delimiter, member, same⟩

theorem ending_apart {accepts : UriChar → Bool}
    (apart : ∀ delimiter ∈ endings, Apart (isDelimiter delimiter) accepts) : Apart isEnding accepts := by
  intro character ending
  obtain ⟨delimiter, member, same⟩ := List.any_eq_true.mp ending
  exact apart delimiter member character same

theorem ending_apart_plain {accepts : UInt8 → Bool}
    (others : endings.all (fun delimiter => !accepts delimiter.toUInt8) = true) :
    Apart isEnding (isPlain accepts) := by
  refine ending_apart fun delimiter member => (plain_apart_delimiter ?_).symm
  simpa using List.all_eq_true.mp others delimiter member

theorem ending_apart_delimiter {other : Char}
    (others : endings.all (fun delimiter => delimiter.toUInt8 != other.toUInt8) = true) :
    Apart isEnding (isDelimiter other) := by
  refine ending_apart fun delimiter member => delimiters_apart ?_
  simpa using List.all_eq_true.mp others delimiter member

end UriChar

abbrev Text.Ends (text : Text) : Prop :=
  text.Meets UriChar.isEnding

theorem Text.Ends.filled {text : Text} (ends : text.Ends) : text.Filled := by
  obtain ⟨character, member, _⟩ := ends
  exact List.ne_nil_of_mem member

namespace Pattern

variable {ahead : Text → Prop}

theorem delimiter_brings {bracket : Char} (member : bracket ∈ UriChar.endings) :
    (delimiter bracket).Brings UriChar.isEnding :=
  fun _ same => UriChar.isEnding_of_mem member same

section Refuses

theorem text_refuses {expected : Text} (others : expected.all (!·.isEnding) = true) :
    (text expected).Refuses UriChar.isEnding := by
  have single {one : UriChar} (other : one.isEnding = false) : (same one).Refuses UriChar.isEnding := by
    intro character ending
    refine beq_false_of_ne fun equal => ?_
    rw [equal, other] at ending
    cases ending
  induction expected with
  | nil => trivial
  | cons character rest ih =>
    simp only [List.all_cons, Bool.and_eq_true, Bool.not_eq_true'] at others ih
    cases rest with
    | nil => exact single others.1
    | cons next rest => exact ⟨single others.1, ih others.2⟩

theorem sign_refuses : sign.Refuses UriChar.isEnding :=
  ⟨UriChar.ending_apart_plain rfl, UriChar.ending_apart_delimiter rfl⟩

theorem digit_refuses : digit.Refuses UriChar.isEnding :=
  UriChar.ending_apart_plain rfl

theorem double_refuses : double.Refuses UriChar.isEnding := by
  have names : notANumberOrInfinity.Refuses UriChar.isEnding :=
    ⟨text_refuses rfl, text_refuses rfl, text_refuses rfl⟩
  have fraction : fraction.Refuses UriChar.isEnding :=
    ⟨⟨⟨sign_refuses, digit_refuses⟩, UriChar.ending_apart_plain rfl⟩, digit_refuses⟩
  have exponent : exponent.Refuses UriChar.isEnding :=
    ⟨⟨UriChar.ending_apart_plain rfl, sign_refuses⟩, digit_refuses⟩
  exact ⟨names, fraction, exponent⟩

theorem jsonNumber_refuses : jsonNumber.Refuses UriChar.isEnding := by
  have plain {accepts : UInt8 → Bool}
      (others : UriChar.endings.all (fun delimiter => !accepts delimiter.toUInt8) = true) :
      UriChar.Apart UriChar.isEnding (UriChar.isPlain accepts) := UriChar.ending_apart_plain others
  exact ⟨⟨⟨plain rfl, plain rfl, plain rfl, digit_refuses⟩, plain rfl, digit_refuses⟩,
    ⟨plain rfl, plain rfl⟩, digit_refuses⟩

theorem qualifiedName_refuses : qualifiedName.Refuses UriChar.isEnding := by
  have names : identifier.Refuses UriChar.isEnding :=
    ⟨⟨UriChar.ending_apart_plain rfl, UriChar.ending_apart_plain rfl⟩, UriChar.ending_apart_plain rfl⟩
  exact ⟨names, UriChar.ending_apart_plain rfl, names⟩

theorem components_refuses {left : List Pattern} (refuses : ∀ unit ∈ left, unit.Refuses UriChar.isEnding) :
    (components left).Refuses UriChar.isEnding := by
  induction left with
  | nil => exact digit_refuses
  | cons unit later ih =>
    obtain ⟨first, others⟩ := List.forall_mem_cons.mp refuses
    exact ⟨⟨first, ih others⟩, ih others⟩

theorem durationParts_refuses : durationParts.Refuses UriChar.isEnding := by
  have days : (measured 'D').Refuses UriChar.isEnding := ⟨digit_refuses, UriChar.ending_apart_plain rfl⟩
  have hours : (measured 'H').Refuses UriChar.isEnding := ⟨digit_refuses, UriChar.ending_apart_plain rfl⟩
  have minutes : (measured 'M').Refuses UriChar.isEnding := ⟨digit_refuses, UriChar.ending_apart_plain rfl⟩
  have seconds : measuredSeconds.Refuses UriChar.isEnding :=
    ⟨digit_refuses, ⟨UriChar.ending_apart_plain rfl, digit_refuses⟩, UriChar.ending_apart_plain rfl⟩
  have marker : (plain 'T').Refuses UriChar.isEnding := UriChar.ending_apart_plain rfl
  have time : timeComponents.Refuses UriChar.isEnding := by
    refine components_refuses ?_
    simp only [List.forall_mem_cons]
    exact ⟨hours, minutes, seconds, List.forall_mem_nil _⟩
  exact ⟨⟨days, ⟨marker, time⟩, marker⟩, marker, time⟩

theorem base64_refuses : (base64Two <|> base64One).Refuses UriChar.isEnding := by
  have characters : base64Char.Refuses UriChar.isEnding := UriChar.ending_apart_plain rfl
  have padding : (word "==").Refuses UriChar.isEnding := text_refuses rfl
  exact ⟨⟨⟨characters, UriChar.ending_apart_plain rfl⟩, UriChar.ending_apart_plain rfl⟩,
    ⟨characters, UriChar.ending_apart_plain rfl⟩, padding⟩

end Refuses

section Settled

theorem text_settled (expected : Text) (ahead : Text → Prop) : (text expected).Settled ahead := by
  intro text taken rest read _ more
  obtain ⟨rfl, rfl⟩ := split_text_iff.mp read
  exact split_text_iff.mpr ⟨rfl, List.append_assoc _ _ _⟩

theorem delimiter_settled (bracket : Char) (ahead : Text → Prop) : (delimiter bracket).Settled ahead :=
  settled_of_fixed rfl rfl ahead

theorem quote_ends {text : Text} (here : quote.Before ahead text) : text.Ends :=
  here.meets (delimiter_brings (by decide))

theorem duration_settled (ahead : Text → Prop) : duration.Settled ahead := by
  have opening : (word "duration" ++ quote ++ optional sign ++ plain 'P').fixed = true := rfl
  have body : durationParts.Settled (quote.Before ahead) :=
    settled_of_refuses rfl durationParts_refuses fun _ => quote_ends
  exact ((settled_of_fixed rfl opening _).seq body).seq (delimiter_settled _ ahead)

theorem binary_settled (ahead : Text → Prop) : binary.Settled ahead := by
  have opening : (word "binary" ++ quote).fixed = true := rfl
  have characters : (many (exactly 4 base64Char)).Refuses UriChar.isEnding := UriChar.ending_apart_plain rfl
  -- A group looks four characters ahead and more, so it is the quote that settles where the groups end.
  have last : (optional (base64Two <|> base64One)).Settled (quote.Before ahead) :=
    settled_of_refuses rfl base64_refuses fun _ => quote_ends
  have groups : (many (exactly 4 base64Char)).Settled
      ((optional (base64Two <|> base64One)).Before (quote.Before ahead)) :=
    settled_of_refuses rfl characters fun _ here => here.meets_rest fun _ => quote_ends
  exact (((settled_of_fixed rfl opening _).seq groups).seq last).seq (delimiter_settled _ ahead)

theorem openingBracket_settled (bracket : Char) : (openingBracket bracket).Settled Text.Filled :=
  settled_of_prompt rfl

theorem closingBracket_settled (bracket : Char) (ahead : Text → Prop) : (closingBracket bracket).Settled ahead :=
  settled_of_fixed rfl rfl ahead

theorem openingBracket_excludes {opens closes : Char} (other : opens.toUInt8 ≠ closes.toUInt8) :
    (openingBracket opens).Excludes (closingBracket closes) := by
  refine Excludes.intro fun text _ _ _ _ read readToo => ?_
  obtain ⟨character, _, opening, first, _⟩ := split_openingBracket_iff.mp read
  obtain ⟨_, closing, firstToo, _⟩ := split_closingBracket_iff.mp readToo
  rw [first] at firstToo
  cases firstToo
  rw [UriChar.delimiters_apart other character opening] at closing
  cases closing

end Settled

end Pattern

theorem Text.Itemized.ends {separator closing : Pattern} {ahead : Text → Prop} {text : Text}
    (separates : separator.Brings UriChar.isEnding) (closes : closing.Brings UriChar.isEnding)
    (here : text.Itemized separator closing ahead) : text.Ends :=
  here.elim (·.meets separates) (·.meets closes)

namespace Rule

def EndSettled (rule : Rule) : Prop :=
  ∀ ahead : Text → Prop, (∀ text, ahead text → text.Ends) → rule.Settled ahead

def SelfSettled (rule : Rule) : Prop :=
  ∀ ahead : Text → Prop, rule.Settled ahead

theorem SelfSettled.endSettled {rule : Rule} (settled : rule.SelfSettled) : rule.EndSettled :=
  fun ahead _ => settled ahead

end Rule

namespace Grammar

variable {item : Rule}

section Geo

theorem space_brings : (octet Octet.isSpace).Brings UriChar.isEnding := by
  intro character accepted
  have space : character.isPlain (· == ' '.toUInt8) = true := by
    cases character with
    | plain octet =>
      obtain ⟨one, member, same⟩ := List.any_eq_true.mp accepted
      have blank : one = ' ' := List.mem_singleton.mp member
      rw [UriChar.isPlain, ← blank]
      exact BEq.symm same
    | encoded high low => cases accepted
  have member : ' ' ∈ UriChar.endings := by decide
  exact UriChar.isEnding_of_mem member (by rw [UriChar.isDelimiter, space, Bool.true_or])

theorem double_endSettled : double.EndSettled :=
  fun _ ends => settled_of_refuses rfl double_refuses ends

theorem position_endSettled : position.EndSettled := by
  intro ahead ends
  have first : double.Settled ((octet Octet.isSpace).Before Text.Filled) :=
    double_endSettled _ fun _ here => here.meets space_brings
  exact ⟨settled_of_fixed rfl rfl _, first, settled_of_fixed rfl rfl _, double_endSettled ahead ends⟩

theorem pointData_settled : pointData.SelfSettled := by
  intro ahead
  have inside : position.Settled (closeParen.Before ahead) :=
    position_endSettled _ fun _ here => here.meets (delimiter_brings (by decide))
  exact ⟨delimiter_settled _ _, inside, delimiter_settled _ ahead⟩

theorem geoList_settled (settled : item.EndSettled) {mayBeEmpty : Bool}
    (bars : mayBeEmpty = true → item.Bars closeParen) (keyword : Text) :
    (geoList keyword item mayBeEmpty).SelfSettled := by
  intro ahead
  have opening : (text keyword ++ plain '(').Settled Text.Filled :=
    (text_settled keyword _).seq (settled_of_fixed rfl rfl _)
  have inside : item.Settled (Text.Itemized comma closeParen ahead) :=
    settled _ fun _ here => here.ends (delimiter_brings (by decide)) (delimiter_brings (by decide))
  have excludes : comma.Excludes closeParen :=
    excludes_of_leads rfl rfl rfl rfl (UriChar.delimiters_apart (by decide))
  exact ⟨opening, inside, delimiter_settled _ _, delimiter_settled _ ahead, excludes, bars⟩

theorem lineStringData_settled : lineStringData.SelfSettled :=
  geoList_settled position_endSettled (fun mayBe => by cases mayBe) []

theorem polygonData_settled : polygonData.SelfSettled :=
  geoList_settled lineStringData_settled.endSettled (fun mayBe => by cases mayBe) []

theorem shapeWith_settled {data : Rule} (settled : data.SelfSettled) (kind : Shape) :
    (shapeWith kind data).SelfSettled :=
  fun ahead => ⟨text_settled _ _, settled _, settled_of_fixed rfl rfl ahead⟩

theorem shapesOf_settled {data : Rule} (settled : data.SelfSettled) {heads : UriChar → Bool}
    (leads : data.LeadsIn heads) (apart : UriChar.Apart heads (UriChar.isDelimiter ')')) (kind : Shape) :
    (shapesOf kind data).SelfSettled :=
  geoList_settled settled.endSettled (fun _ => leads.bars apart) _

theorem shape_settled (kind : Shape) : (shape kind).SelfSettled := by
  have plain : UriChar.Apart (UriChar.isPlain (· == '('.toUInt8)) (UriChar.isDelimiter ')') :=
    plain_apart_delimiter (by decide)
  have either : UriChar.Apart (UriChar.isDelimiter '(') (UriChar.isDelimiter ')') :=
    UriChar.delimiters_apart (by decide)
  cases kind with
  | collection => exact fun _ => trivial
  | lineString => exact shapeWith_settled lineStringData_settled _
  | multiLineString => exact shapesOf_settled lineStringData_settled lineStringData_leads plain _
  | multiPoint => exact shapesOf_settled pointData_settled pointData_leads either _
  | multiPolygon => exact shapesOf_settled polygonData_settled polygonData_leads plain _
  | point => exact shapeWith_settled pointData_settled _
  | polygon => exact shapeWith_settled polygonData_settled _

theorem firstShape_settled {shapes : List Shape} (different : shapes.Nodup) :
    (firstShape shapes).SelfSettled := by
  intro ahead
  induction shapes with
  | nil => trivial
  | cons kind shapes ih =>
    obtain ⟨other, rest⟩ := List.nodup_cons.mp different
    exact ⟨shape_settled kind ahead, ih rest, (firstShape_excludes other).abstains⟩

theorem geoLiteral_settled : geoLiteral.SelfSettled :=
  have different : shapeOrder.Nodup := by decide
  firstShape_settled different

theorem srid_settled : srid.SelfSettled :=
  fun ahead => settled_of_fixed rfl rfl ahead

theorem withSrid_settled (kind : Shape) : (withSrid (shape kind)).SelfSettled :=
  fun ahead => ⟨settled_of_fixed rfl rfl _, srid_settled _, settled_of_fixed rfl rfl _, shape_settled kind ahead⟩

theorem spatial_settled (surface : Surface) (kind : Shape) : (spatial surface kind).SelfSettled := by
  intro ahead
  have opening : (surfacePrefix surface ++ quote).Settled Text.Filled := by
    cases surface <;> exact (text_settled _ _).seq (delimiter_settled _ _)
  exact ⟨opening, withSrid_settled kind _, delimiter_settled _ ahead⟩

end Geo

section Json

theorem jsonString_settled : jsonString.SelfSettled :=
  fun ahead => settled_of_deterministic rfl jsonString_deterministic ahead

theorem jsonBoolean_settled : jsonBoolean.SelfSettled := by
  intro ahead
  refine ⟨text_settled _ ahead, text_settled _ ahead, Rule.abstains_of_apart rfl rfl ?_⟩
  exact UriChar.Apart.symm true_apart_false

theorem jsonNull_settled : jsonNull.SelfSettled :=
  fun ahead => text_settled _ ahead

theorem jsonPrimitive_endSettled : jsonPrimitive.EndSettled := by
  intro ahead ends
  have number : jsonNumber.Settled ahead := settled_of_refuses rfl jsonNumber_refuses ends
  refine ⟨jsonString_settled ahead, ⟨number, ⟨jsonBoolean_settled ahead, ⟨jsonNull_settled ahead, trivial,
    (Rule.never_excludes _).abstains⟩, ?_⟩, ?_⟩, ?_⟩
  · exact Rule.abstains_of_apart rfl rfl (UriChar.Apart.symm jsonBoolean_apart)
  · exact Rule.abstains_of_apart rfl rfl (UriChar.Apart.symm jsonNumber_apart)
  · exact Rule.abstains_of_apart rfl rfl (UriChar.Apart.symm jsonString_apart)

theorem closingBracket_brings {bracket : Char} (member : bracket ∈ UriChar.endings) :
    (closingBracket bracket).Brings UriChar.isEnding :=
  .inr (delimiter_brings member)

theorem valueSeparator_brings : valueSeparator.Brings UriChar.isEnding :=
  .inl (.inr (delimiter_brings (by decide)))

/-- An item that begins with another character than whitespace and the closing delimiter is never taken for the end
of a list. -/
theorem bars_of_significant {heads : UriChar → Bool} {closes : Char}
    (needs : ∀ levels start token stop, item.parse levels start = some (token, stop) →
      ∃ character, start.significant? = some character ∧ heads character = true)
    (apart : UriChar.Apart heads (UriChar.isDelimiter closes)) : item.Bars (closingBracket closes) := by
  intro levels start found read
  refine eq_none_of_significant apart (needs levels start _ _ read) fun taken stop closed => ?_
  obtain ⟨character, closing, same, _⟩ := split_closingBracket_iff.mp (Pattern.parse_iff.mp closed).1
  exact ⟨character, by rw [Place.significant?, same]; rfl, closing⟩

theorem structure_settled (settled : item.EndSettled) {opens closes : Char} (ending : closes ∈ UriChar.endings)
    (other : ','.toUInt8 ≠ closes.toUInt8) (bars : item.Bars (closingBracket closes)) (kind : Kind) :
    (Rule.list kind (openingBracket opens) item valueSeparator (closingBracket closes) true).SelfSettled := by
  intro ahead
  have inside : item.Settled (Text.Itemized valueSeparator (closingBracket closes) ahead) :=
    settled _ fun _ here => here.ends valueSeparator_brings (closingBracket_brings ending)
  exact ⟨openingBracket_settled opens, inside, openingBracket_settled ',', closingBracket_settled closes ahead,
    openingBracket_excludes other, fun _ => bars⟩

theorem primitiveArray_settled : primitiveArray.SelfSettled :=
  structure_settled jsonPrimitive_endSettled (by decide) (by decide)
    (bars_of_significant (fun _ _ _ _ => significant_of_jsonPrimitive)
      (jsonPrimitive_apart ']' (by decide) (by decide))) _

theorem objectArray_settled : objectArray.SelfSettled := by
  have objects : object.SelfSettled := fun _ => trivial
  exact structure_settled objects.endSettled (by decide) (by decide)
    (bars_of_significant (fun _ _ _ _ => significant_of_object) (UriChar.delimiters_apart (by decide))) _

/-- An array without items is one whatever its items would be. -/
theorem array_of_empty {other : Rule} {levels : Nat} {start stop : Place} {token : Token}
    (read : (array item).parse levels start = some (token, stop)) (empty : token.children = []) :
    (array other).parse levels start = some (token, stop) := by
  obtain ⟨before, first, tokens, opened, rfl, inner⟩ := Parser.list_iff.mp read
  obtain rfl : tokens = [] := empty
  rcases inner with closed | ⟨_, run⟩
  · exact Parser.list_iff.mpr ⟨before, first, [], opened, rfl, .inl closed⟩
  · cases Parser.items_of_itemsWithin run

theorem significant_extend {start : Place} {character : UriChar} (here : start.significant? = some character)
    (more : Text) : (start.extend more).significant? = some character := by
  obtain ⟨tail, same⟩ := List.head?_eq_some_iff.mp here
  show ((start.rest ++ more).dropWhile UriChar.isWhitespace).head? = some character
  rw [List.dropWhile_append, same]
  rfl

theorem objectArray_abstains {other : Rule} {heads : UriChar → Bool}
    (needs : ∀ levels start token stop, other.parse levels start = some (token, stop) →
      ∃ character, start.significant? = some character ∧ heads character = true)
    (apart : UriChar.Apart heads (UriChar.isDelimiter '[')) :
    objectArray.Abstains (.orElse other (.orElse primitiveArray .never)) := by
  have last {levels : Nat} {place : Place} {found : Token × Place} (absent : other.parse levels place = none)
      (read : (Rule.orElse other (.orElse primitiveArray .never)).parse levels place = some found) :
      primitiveArray.parse levels place = some found := by
    rcases Option.or_eq_some_iff.mp read with read | ⟨_, read⟩
    · cases absent.symm.trans read
    · exact (Option.or_eq_some_iff.mp read).resolve_right fun never => by cases never.2
  intro levels start token stop more read again refused
  cases found : objectArray.parse levels (start.extend more) with
  | none => rfl
  | some pair =>
    -- Both arrays read in the longer text, so they are empty, and an empty array reads in the shorter one too.
    have bracket := significant_of_array found
    have absent : other.parse levels start = none := by
      refine eq_none_of_significant apart.symm bracket fun _ _ one => ?_
      obtain ⟨character, here, head⟩ := needs _ _ _ _ one
      exact ⟨character, significant_extend here more, head⟩
    have absentToo : other.parse levels (start.extend more) = none :=
      eq_none_of_significant apart.symm bracket fun _ _ => needs _ _ _ _
    have again := last absentToo again
    have empty := (arrays_meet levels found again).1
    have same : primitiveArray.parse levels (start.extend more) = some pair := array_of_empty found empty
    cases again.symm.trans same
    have shorter : objectArray.parse levels start = some (token, stop) :=
      array_of_empty (last absent read) empty
    cases refused.symm.trans shorter

theorem jsonValue_endSettled : jsonValue.EndSettled := by
  intro ahead ends
  have last : (Rule.orElse primitiveArray .never).Settled ahead :=
    ⟨primitiveArray_settled ahead, trivial, (Rule.never_excludes _).abstains⟩
  have objects : object.Excludes jsonPrimitive := fun levels _ _ read => (object_excludes levels read).2.1
  refine ⟨trivial, ⟨objectArray_settled ahead, ⟨jsonPrimitive_endSettled ahead ends, last, ?_⟩, ?_⟩, ?_⟩
  · exact ((jsonPrimitive_excludes_array _).symm.orElse (Rule.never_excludes _)).abstains
  · exact objectArray_abstains (fun _ _ _ _ => significant_of_jsonPrimitive)
      (jsonPrimitive_apart '[' (by decide) (by decide))
  · refine ((array_excludes_object _).orElse (objects.symm.orElse ?_)).abstains
    exact (array_excludes_object _).orElse (Rule.never_excludes _)

theorem arrayOrObject_settled : arrayOrObject.SelfSettled := by
  intro ahead
  refine ⟨settled_of_fixed rfl rfl _, ⟨objectArray_settled _, ⟨trivial, ⟨primitiveArray_settled _, trivial, ?_⟩,
    ?_⟩, ?_⟩, settled_of_fixed rfl rfl ahead⟩
  · exact (Rule.never_excludes _).abstains
  · exact ((array_excludes_object _).orElse (Rule.never_excludes _)).abstains
  · exact objectArray_abstains (fun _ _ _ _ => significant_of_object) braces_apart

theorem annotationTerm_endSettled : annotationTerm.EndSettled :=
  fun _ ends => settled_of_refuses rfl ⟨UriChar.ending_apart_delimiter rfl, qualifiedName_refuses⟩ ends

theorem identifier_endSettled : identifier.EndSettled :=
  fun _ ends => (settled_of_prompt rfl).mono fun text here => (ends text here).filled

theorem member_endSettled {key : Rule} (settled : key.EndSettled) : (member key jsonValue).EndSettled := by
  intro ahead ends
  -- What ends a key is the quotation mark behind it.
  have quoted : (doubleQuote ++ nameSeparator).Brings UriChar.isEnding := .inl (delimiter_brings (by decide))
  have separates : (doubleQuote ++ nameSeparator).Settled Text.Filled := settled_of_prompt rfl
  exact ⟨delimiter_settled _ _, settled _ fun _ here => here.meets quoted, separates,
    jsonValue_endSettled ahead ends⟩

theorem members_endSettled : (Rule.orElse annotationMember propertyMember).EndSettled := by
  intro ahead ends
  have properties : propertyMember.Excludes annotationMember :=
    Rule.Excludes.symm fun levels _ _ read => annotationMember_excludes levels read
  exact ⟨member_endSettled annotationTerm_endSettled ahead ends,
    member_endSettled identifier_endSettled ahead ends, properties.abstains⟩

theorem members_apart {second : UriChar → Bool} (apart : UriChar.Apart (UriChar.isDelimiter '"') second) :
    UriChar.Apart (Rule.orElse annotationMember propertyMember).leads second := by
  have one := UriChar.Apart.or apart (UriChar.false_apart second)
  exact UriChar.Apart.or one one

theorem objectMembers_settled : objectMembers.SelfSettled := by
  have visible := members_apart (delimiter_apart_whitespace (by decide) (by decide))
  have bars : (Rule.orElse annotationMember propertyMember).Bars endObject :=
    bars_of_significant (fun _ _ _ _ => significant_of_rule rfl visible)
      (members_apart (UriChar.delimiters_apart (by decide)))
  exact structure_settled members_endSettled (by decide) (by decide) bars _

end Json

section Literal

theorem null_settled : null.SelfSettled :=
  fun ahead => text_settled _ ahead

theorem boolean_settled : boolean.SelfSettled := by
  intro ahead
  have excludes : (word "false").Excludes (word "true") := words_exclude (by decide) (by decide)
  exact (text_settled _ ahead).alt (text_settled _ ahead) excludes

theorem guid_settled : guid.SelfSettled :=
  fun ahead => settled_of_fixed rfl rfl ahead

theorem enumeration_settled : enumeration.SelfSettled := by
  intro ahead
  have name : qualifiedName.Settled (quote.Before Text.Filled) :=
    settled_of_refuses rfl qualifiedName_refuses fun _ => quote_ends
  -- A comma or a quote is the next character behind a member.
  have next (text : Text) (here : text.Itemized comma quote ahead) : text.Ends :=
    here.ends (delimiter_brings (by decide)) (delimiter_brings (by decide))
  have numbers : int64.Settled (Text.Itemized comma quote ahead) :=
    (settled_of_prompt rfl).mono fun text here => (next text here).filled
  have excludes : comma.Excludes quote :=
    excludes_of_leads rfl rfl rfl rfl (UriChar.delimiters_apart (by decide))
  have members : enumMember.Settled (Text.Itemized comma quote ahead) :=
    ⟨identifier_endSettled _ next, numbers, Rule.abstains_of_apart rfl rfl int64_apart_identifier⟩
  exact ⟨name, delimiter_settled _ _, members, delimiter_settled _ _, delimiter_settled _ ahead, excludes⟩

end Literal

end Grammar

theorem Construct.settled_body (construct : Construct) : construct.body.SelfSettled := by
  cases construct with
  | object => exact Grammar.objectMembers_settled
  | collection =>
    exact Grammar.geoList_settled Grammar.geoLiteral_settled.endSettled (fun mayBe => by cases mayBe) _

theorem Construct.parse_settled (levels : Nat) (construct : Construct) (ahead : Text → Prop) :
    (construct.parse levels).Settled ahead := by
  induction levels generalizing construct ahead with
  | zero =>
    intro start token stop read
    cases read
  | succ levels ih =>
    exact Rule.parse_settled_of_constructs ih construct.steady_body (construct.settled_body ahead)

/-- A settled rule reads the same token when more text is put behind the text. -/
theorem Rule.parse_settled {rule : Rule} {ahead : Text → Prop} (levels : Nat) (steady : rule.steady = true)
    (settled : rule.Settled ahead) : (rule.parse levels).Settled ahead :=
  Rule.parse_settled_of_constructs (Construct.parse_settled levels) steady settled

end ODataLiteral
