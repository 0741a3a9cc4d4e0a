import ODataLiteral.Grammar
import ODataLiteral.Proofs.Rule.Caseless

/-! No rule of the grammar tells a capital digit of an encoded octet from a small one. All its patterns are put
together from plain characters, from delimiters and from classes of encoded octets, and what is kept of a text, but
for JSON strings, is kept of plain characters. -/
namespace ODataLiteral

open Pattern

namespace Pattern

abbrev Kept (character : UriChar) : Prop :=
  character.small = character

theorem octet_kept (accepts : UInt8 → Bool) : (octet accepts).Spells Kept :=
  fun _ => UriChar.small_of_isPlain

theorem identifier_kept : identifier.Spells Kept :=
  ⟨⟨octet_kept _, octet_kept _⟩, trivial⟩

theorem qualifiedName_kept : qualifiedName.Spells Kept :=
  ⟨identifier_kept, octet_kept _, identifier_kept⟩

theorem jsonNumber_kept : jsonNumber.Spells Kept :=
  ⟨⟨⟨octet_kept _, octet_kept _, octet_kept _, octet_kept _⟩, octet_kept _, octet_kept _⟩,
    ⟨octet_kept _, octet_kept _⟩, octet_kept _⟩

section Classes

theorem digit_caseless : digit.Caseless := octet_caseless _

theorem sign_caseless : sign.Caseless := ⟨octet_caseless _, delimiter_caseless _⟩

theorem optionalSpace_caseless : optionalSpace.Caseless := UriChar.isWhitespace_small

theorem openingBracket_caseless (bracket : Char) : (openingBracket bracket).Caseless :=
  ⟨⟨optionalSpace_caseless, delimiter_caseless _⟩, optionalSpace_caseless⟩

theorem closingBracket_caseless (bracket : Char) : (closingBracket bracket).Caseless :=
  ⟨optionalSpace_caseless, delimiter_caseless _⟩

theorem identifier_caseless : identifier.Caseless :=
  ⟨⟨octet_caseless _, octet_caseless _⟩, octet_caseless _⟩

theorem qualifiedName_caseless : qualifiedName.Caseless :=
  ⟨identifier_caseless, octet_caseless _, identifier_caseless⟩

theorem integer_caseless {leading : Pattern} (caseless : leading.Caseless) (range : IntegerRange) :
    (integer leading range).Caseless :=
  ⟨⟨caseless, digit_caseless⟩, digit_caseless⟩

theorem fraction_caseless : fraction.Caseless :=
  ⟨⟨⟨sign_caseless, digit_caseless⟩, octet_caseless _⟩, digit_caseless⟩

theorem double_caseless : double.Caseless := by
  refine ⟨⟨word_caseless _, word_caseless _, word_caseless _⟩, fraction_caseless, ?_⟩
  exact ⟨⟨octet_caseless _, sign_caseless⟩, digit_caseless⟩

theorem jsonNumber_caseless : jsonNumber.Caseless := by
  have magnitude : (plain '0' <|> (octet Octet.isOneToNine ++ many digit)).Caseless :=
    ⟨octet_caseless _, octet_caseless _, digit_caseless⟩
  exact ⟨⟨⟨octet_caseless _, magnitude⟩, octet_caseless _, digit_caseless⟩,
    ⟨octet_caseless _, octet_caseless _⟩, digit_caseless⟩

theorem guid_caseless : guid.Caseless := by
  have digits : hexDigit.Caseless := octet_caseless _
  have dash : (plain '-').Caseless := octet_caseless _
  exact ⟨⟨⟨⟨⟨⟨⟨⟨digits, dash⟩, digits⟩, dash⟩, digits⟩, dash⟩, digits⟩, dash⟩, digits⟩

theorem whenLedBy_caseless {lead rest : Pattern} (caseless : lead.Caseless) (caselessToo : rest.Caseless) :
    (whenLedBy lead rest).Caseless :=
  ⟨⟨caseless, caselessToo⟩, caseless⟩

theorem hour_caseless : hour.Caseless :=
  ⟨⟨octet_caseless _, digit_caseless⟩, octet_caseless _, octet_caseless _⟩

theorem minute_caseless : minute.Caseless :=
  ⟨octet_caseless _, digit_caseless⟩

theorem yearMonthDay_caseless : yearMonthDay.Caseless := by
  have two (first second : UInt8 → Bool) : (octet first ++ octet second).Caseless :=
    ⟨octet_caseless _, octet_caseless _⟩
  have year : year.Caseless :=
    ⟨octet_caseless _, ⟨⟨octet_caseless _, digit_caseless⟩, digit_caseless⟩, octet_caseless _, digit_caseless⟩
  exact ⟨⟨⟨⟨year, octet_caseless _⟩, two _ _, two _ _⟩, octet_caseless _⟩, two _ _, two _ _, two _ _⟩

theorem timeOfDay_caseless : timeOfDay.Caseless := by
  have fraction : (whenLedBy (plain '.') fractionalSeconds).Caseless :=
    whenLedBy_caseless (octet_caseless _) digit_caseless
  exact ⟨⟨⟨hour_caseless, delimiter_caseless _⟩, minute_caseless⟩,
    whenLedBy_caseless (delimiter_caseless _) ⟨minute_caseless, fraction⟩⟩

theorem dateTimeOffset_caseless : dateTimeOffset.Caseless := by
  have zone : zone.Caseless :=
    ⟨octet_caseless _, ⟨⟨sign_caseless, hour_caseless⟩, delimiter_caseless _⟩, minute_caseless⟩
  exact ⟨⟨⟨yearMonthDay_caseless, octet_caseless _⟩, timeOfDay_caseless⟩, zone⟩

theorem measured_caseless (unit : Char) : (measured unit).Caseless :=
  ⟨digit_caseless, octet_caseless _⟩

theorem components_caseless {left : List Pattern} (caseless : ∀ unit ∈ left, unit.Caseless) :
    (components left).Caseless := by
  induction left with
  | nil => exact digit_caseless
  | cons unit later ih =>
    obtain ⟨first, others⟩ := List.forall_mem_cons.mp caseless
    exact ⟨⟨first, ih others⟩, ih others⟩

theorem duration_caseless : duration.Caseless := by
  have seconds : measuredSeconds.Caseless :=
    ⟨digit_caseless, ⟨octet_caseless _, digit_caseless⟩, octet_caseless _⟩
  have time : timeComponents.Caseless := by
    refine components_caseless ?_
    simp only [List.forall_mem_cons]
    exact ⟨measured_caseless 'H', measured_caseless 'M', seconds, List.forall_mem_nil _⟩
  have parts : durationParts.Caseless :=
    ⟨⟨measured_caseless 'D', whenLedBy_caseless (octet_caseless _) time⟩, octet_caseless _, time⟩
  exact ⟨⟨⟨⟨⟨word_caseless _, delimiter_caseless _⟩, sign_caseless⟩, octet_caseless _⟩, parts⟩, delimiter_caseless _⟩

theorem string_caseless : string.Caseless := by
  have quote : quote.Caseless := delimiter_caseless _
  exact ⟨⟨⟨⟨quote, ⟨quote, quote⟩, UriChar.isWhitespace_small, UriChar.isPathChar_small⟩, quote⟩, quote⟩,
    UriChar.isStray_small⟩

theorem binary_caseless : binary.Caseless := by
  have code : base64Char.Caseless := octet_caseless _
  have two : base64Two.Caseless := ⟨⟨code, octet_caseless _⟩, octet_caseless _⟩
  have one : base64One.Caseless := ⟨⟨code, octet_caseless _⟩, word_caseless _⟩
  exact ⟨⟨⟨⟨word_caseless _, delimiter_caseless _⟩, code⟩, two, one⟩, delimiter_caseless _⟩

theorem jsonString_caseless : jsonString.Caseless := by
  have escape : jsonEscape.Caseless :=
    ⟨delimiter_caseless _, delimiter_caseless _, octet_caseless _, ⟨octet_caseless _, octet_caseless _⟩,
      UriChar.isEncoded_small _⟩
  exact ⟨⟨delimiter_caseless _, UriChar.isJsonPlain_small, delimiter_caseless _, escape⟩, delimiter_caseless _⟩

end Classes

end Pattern

namespace Grammar

section Primitive

theorem typedLiteral_caseless (type : EdmType) {pattern : Pattern} (caseless : pattern.Caseless) :
    (typedLiteral type pattern).Caseless :=
  ⟨caseless, Meaning.caseless_of_same fun _ _ _ _ => rfl⟩

theorem null_caseless : null.Caseless :=
  ⟨word_caseless _, Meaning.caseless_of_same fun _ _ _ _ => rfl⟩

theorem double_caseless : double.Caseless :=
  typedLiteral_caseless _ Pattern.double_caseless

theorem signed_caseless (type : EdmType) (digits bits : Nat) : (signed type digits bits).Caseless :=
  ⟨integer_caseless sign_caseless _, Meaning.integer_caseless _ _ _⟩

theorem byte_caseless : byte.Caseless := by
  have unsigned : Pattern.empty.Caseless := trivial
  exact ⟨integer_caseless unsigned _, Meaning.integer_caseless _ _ _⟩

theorem identifier_caseless : identifier.Caseless :=
  ⟨Pattern.identifier_caseless, Meaning.caseless_of_spells _ rfl identifier_kept⟩

theorem enumeration_caseless : enumeration.Caseless := by
  have member : enumMember.Caseless := ⟨identifier_caseless, signed_caseless _ _ _⟩
  exact ⟨⟨qualifiedName_caseless, rfl, qualifiedName_kept⟩, delimiter_caseless _, member, delimiter_caseless _,
    delimiter_caseless _⟩

end Primitive

section Geo

theorem position_caseless : position.Caseless :=
  ⟨trivial, double_caseless, octet_caseless _, double_caseless⟩

theorem pointData_caseless : pointData.Caseless :=
  ⟨delimiter_caseless _, position_caseless, delimiter_caseless _⟩

theorem geoList_caseless {keyword : Text} {item : Rule} (plain : (text keyword).Caseless) (caseless : item.Caseless)
    (mayBeEmpty : Bool) : (geoList keyword item mayBeEmpty).Caseless :=
  ⟨⟨plain, octet_caseless _⟩, caseless, delimiter_caseless _, delimiter_caseless _⟩

theorem lineStringData_caseless : lineStringData.Caseless :=
  geoList_caseless (text_caseless (List.forall_mem_nil _)) position_caseless false

theorem polygonData_caseless : polygonData.Caseless :=
  geoList_caseless (text_caseless (List.forall_mem_nil _)) lineStringData_caseless false

theorem shape_caseless (kind : Shape) : (shape kind).Caseless := by
  cases kind with
  | collection => trivial
  | lineString => exact ⟨word_caseless _, lineStringData_caseless, trivial⟩
  | multiLineString => exact geoList_caseless (word_caseless _) lineStringData_caseless true
  | multiPoint => exact geoList_caseless (word_caseless _) pointData_caseless true
  | multiPolygon => exact geoList_caseless (word_caseless _) polygonData_caseless true
  | point => exact ⟨word_caseless _, pointData_caseless, trivial⟩
  | polygon => exact ⟨word_caseless _, polygonData_caseless, trivial⟩

theorem geoLiteral_caseless : geoLiteral.Caseless :=
  ⟨shape_caseless .collection, shape_caseless .lineString, shape_caseless .multiPoint,
    shape_caseless .multiLineString, shape_caseless .multiPolygon, shape_caseless .point, shape_caseless .polygon,
    trivial⟩

theorem srid_caseless : srid.Caseless :=
  ⟨⟨⟨⟨word_caseless _, octet_caseless _⟩, digit_caseless⟩, delimiter_caseless _⟩, Meaning.srid_caseless _⟩

theorem withSrid_caseless (kind : Shape) : (withSrid (shape kind)).Caseless :=
  ⟨trivial, srid_caseless, trivial, shape_caseless kind⟩

theorem spatial_caseless (surface : Surface) (kind : Shape) : (spatial surface kind).Caseless := by
  have opening : (surfacePrefix surface ++ quote).Caseless := by
    cases surface <;> exact ⟨word_caseless _, delimiter_caseless _⟩
  exact ⟨opening, withSrid_caseless kind, delimiter_caseless _⟩

end Geo

section Json

theorem jsonPrimitive_caseless : jsonPrimitive.Caseless := by
  refine ⟨⟨Pattern.jsonString_caseless, Meaning.jsonString_caseless _⟩, ⟨Pattern.jsonNumber_caseless,
    Meaning.caseless_of_spells _ rfl jsonNumber_kept⟩, ⟨⟨word_caseless _, ?_⟩, ⟨word_caseless _, ?_⟩⟩,
    ⟨word_caseless _, ?_⟩, trivial⟩
  all_goals exact Meaning.caseless_of_same fun _ _ _ _ => rfl

theorem annotationTerm_caseless : annotationTerm.Caseless := by
  refine ⟨⟨delimiter_caseless _, qualifiedName_caseless⟩, Meaning.caseless_of_same ?_⟩
  intro text taken rest read
  -- The at sign may be encoded, but the name starts behind it.
  obtain ⟨before, middle, name, at_, named, rfl⟩ := split_seq_iff.mp read
  obtain ⟨character, _, rfl, _⟩ := split_char_iff.mp at_
  have kept := Text.small_of_forall (spells_of_split rfl qualifiedName_kept named)
  show (Utf8.decode? (Text.bytes name.small)).map Value.identifier = (Utf8.decode? name.bytes).map Value.identifier
  rw [kept]

theorem array_caseless {item : Rule} (caseless : item.Caseless) : (array item).Caseless :=
  ⟨openingBracket_caseless _, caseless, openingBracket_caseless _, closingBracket_caseless _⟩

theorem jsonValue_caseless : jsonValue.Caseless :=
  ⟨trivial, array_caseless trivial, jsonPrimitive_caseless, array_caseless jsonPrimitive_caseless, trivial⟩

theorem member_caseless {key : Rule} (caseless : key.Caseless) : (member key jsonValue).Caseless :=
  ⟨delimiter_caseless _, caseless, ⟨delimiter_caseless _, openingBracket_caseless _⟩, jsonValue_caseless⟩

theorem arrayOrObject_caseless : arrayOrObject.Caseless :=
  ⟨trivial, ⟨array_caseless trivial, trivial, array_caseless jsonPrimitive_caseless, trivial⟩, trivial⟩

end Json

theorem primitiveTable_caseless : ∀ alternative ∈ primitiveTable, alternative.rule.Caseless := by
  simp only [primitiveTable, List.forall_mem_append, List.forall_mem_cons, List.forall_mem_map]
  exact ⟨⟨⟨null_caseless, typedLiteral_caseless _ ⟨word_caseless _, word_caseless _⟩,
    typedLiteral_caseless _ guid_caseless, typedLiteral_caseless _ ⟨yearMonthDay_caseless, octet_caseless _⟩,
    typedLiteral_caseless _ dateTimeOffset_caseless, typedLiteral_caseless _ timeOfDay_caseless,
    typedLiteral_caseless _ ⟨fraction_caseless, octet_caseless _⟩, double_caseless, double_caseless,
    signed_caseless _ _ _, byte_caseless, signed_caseless _ _ _, signed_caseless _ _ _, signed_caseless _ _ _,
    typedLiteral_caseless _ string_caseless, typedLiteral_caseless _ duration_caseless,
    typedLiteral_caseless _ binary_caseless, enumeration_caseless, List.forall_mem_nil _⟩,
    fun kind _ => spatial_caseless .geography kind⟩, fun kind _ => spatial_caseless .geometry kind⟩

theorem primitiveCatalogue_caseless : ∀ rule ∈ primitiveCatalogue, rule.Caseless :=
  forall_primitiveCatalogue Rule.Caseless identifier_caseless primitiveTable_caseless
    (Table.rule_of_forall Rule.Caseless trivial And.intro primitiveTable_caseless)

theorem catalogue_caseless : ∀ rule ∈ catalogue, rule.Caseless := by
  have shapes (kind : Shape) : ∀ rule ∈ shapeCatalogue kind, rule.Caseless := by
    simp only [shapeCatalogue, List.forall_mem_cons]
    exact ⟨shape_caseless kind, withSrid_caseless kind, spatial_caseless _ kind, spatial_caseless _ kind,
      List.forall_mem_nil _⟩
  have json := jsonPrimitive_caseless
  simp only [catalogue, geoCatalogue, jsonCatalogue, List.forall_mem_append, List.forall_mem_cons,
    List.forall_mem_flatMap]
  refine ⟨⟨primitiveCatalogue_caseless, ?_, fun kind _ => shapes kind⟩, ?_⟩
  · exact ⟨position_caseless, pointData_caseless, lineStringData_caseless, lineStringData_caseless,
      polygonData_caseless, srid_caseless, geoLiteral_caseless, List.forall_mem_nil _⟩
  · exact ⟨json.1, json.2.1, json.2.2.1, json.2.2.2.1, json, annotationTerm_caseless,
      member_caseless annotationTerm_caseless, member_caseless identifier_caseless, trivial, array_caseless trivial,
      array_caseless json, jsonValue_caseless, arrayOrObject_caseless, List.forall_mem_nil _⟩

end Grammar

theorem Construct.body_caseless (construct : Construct) : construct.body.Caseless := by
  cases construct with
  | object =>
    exact ⟨openingBracket_caseless _, ⟨Grammar.member_caseless Grammar.annotationTerm_caseless,
      Grammar.member_caseless Grammar.identifier_caseless⟩, openingBracket_caseless _, closingBracket_caseless _⟩
  | collection => exact Grammar.geoList_caseless (word_caseless _) Grammar.geoLiteral_caseless false

theorem Construct.parse_caseless (levels : Nat) (construct : Construct) : (construct.parse levels).Caseless := by
  induction levels generalizing construct with
  | zero => exact fun _ => .none
  | succ levels ih => exact Rule.parseWith_caseless ih construct.body_caseless

theorem Rule.parse_caseless (levels : Nat) {rule : Rule} (caseless : rule.Caseless) : (rule.parse levels).Caseless :=
  Rule.parseWith_caseless (Construct.parse_caseless levels) caseless

end ODataLiteral
