import ODataLiteral.Proofs.Binary64
import ODataLiteral.Proofs.Rule.Meaning
import ODataLiteral.Proofs.Rule.Steady

/-! Every lexeme of the grammar has a meaning that can be read of what its pattern takes. Only four patterns need
a reason: integers and reference identifiers have few digits, a JSON string has two quotes, and a JSON number
has plain characters only. -/
namespace ODataLiteral

open Pattern

/-- A rule whose lexemes can all be read. -/
def Rule.Fits : Rule → Prop
  | lexeme _ meaning pattern => meaning.Fits pattern
  | enclosed _ _ inner _ => inner.Fits
  | pair _ _ first _ second => first.Fits ∧ second.Fits
  | list _ _ item _ _ _ => item.Fits
  | enumeration _ _ member _ _ => member.Fits
  | withType _ rule | withKind _ rule => rule.Fits
  | orElse first second => first.Fits ∧ second.Fits
  | never | .construct _ => True

namespace Meaning

/-- A numeral after characters that are no digits has the digits that its pattern takes. -/
theorem integer_fits {type : EdmType} {range : IntegerRange} {leading : Pattern}
    (steady : leading.steady = true) (noDigits : leading.Spells (·.isDigit = false))
    (few : range.digits ≤ 19) : (integer type range).Fits (Pattern.integer leading range) := by
  intro text taken rest read
  simp only [Pattern.integer, append_eq_seq] at read
  obtain ⟨numeral, _, after, body, ahead, rfl⟩ := split_seq_iff.mp read
  obtain ⟨_, rfl, _⟩ := split_notBefore_iff.mp ahead
  obtain ⟨lead, middle, digits, one, two, rfl⟩ := split_seq_iff.mp body
  obtain ⟨_, least, row⟩ := split_row_iff.mp two
  refine ⟨lead, digits, [], by simp, List.length_pos_iff.mp least, ?_,
    spells_of_split steady noDigits one, row.class_of, nofun⟩
  exact Nat.le_trans (row.length_le _ rfl) few

theorem srid_fits :
    srid.Fits (word "SRID" ++ equalsSign ++ times 1 (some 5) digit ++ semicolon) := by
  intro text taken rest read
  simp only [append_eq_seq] at read
  obtain ⟨numeral, _, after, body, last, rfl⟩ := split_seq_iff.mp read
  obtain ⟨lead, middle, digits, one, two, rfl⟩ := split_seq_iff.mp body
  obtain ⟨keyword, _, equals, named, bound, rfl⟩ := split_seq_iff.mp one
  obtain ⟨rfl, _⟩ := split_word_iff.mp named
  obtain ⟨sign, isSign, rfl, _⟩ := split_char_iff.mp bound
  obtain ⟨semi, isSemi, rfl, _⟩ := split_char_iff.mp last
  obtain ⟨_, least, row⟩ := split_row_iff.mp two
  have other (delimiter : Char) (notDigit : Octet.isDigit delimiter.toUInt8 = false)
      (character : UriChar) (isDelimiter : character.isDelimiter delimiter = true) :
      character.isDigit = false := by
    cases character with
    | encoded high low => rfl
    | plain octet =>
      simp only [UriChar.isDelimiter, UriChar.isPlain, UriChar.isEncoded, UriChar.decoded?,
        Option.any_none, Bool.or_false, beq_iff_eq] at isDelimiter
      rw [isDelimiter]
      exact notDigit
  refine ⟨Text.ofWord "SRID" ++ [sign], digits, [semi], by simp, List.length_pos_iff.mp least,
    row.length_le _ rfl, ?_, row.class_of, ?_⟩
  · intro character member
    rcases List.mem_append.mp member with member | member
    · have keyword : ∀ character ∈ Text.ofWord "SRID", character.isDigit = false := by decide
      exact keyword character member
    · rw [List.mem_singleton.mp member]
      exact other '=' (by decide) sign (by simp [UriChar.isDelimiter, isSign])
  · intro character member
    rw [List.mem_singleton.mp member]
    exact other ';' (by decide) semi isSemi

theorem jsonString_fits : jsonString.Fits Pattern.jsonString := by
  intro text taken rest read
  simp only [Pattern.jsonString, append_eq_seq] at read
  obtain ⟨before, _, after, body, closed, rfl⟩ := split_seq_iff.mp read
  obtain ⟨opening, _, characters, opened, _, rfl⟩ := split_seq_iff.mp body
  obtain ⟨first, _, rfl, _⟩ := split_char_iff.mp opened
  obtain ⟨last, _, rfl, _⟩ := split_char_iff.mp closed
  show 2 ≤ _
  simp only [List.length_append, List.length_singleton]
  omega

theorem jsonNumber_fits : jsonNumber.Fits Pattern.jsonNumber :=
  fun _ _ _ read => Binary64.ofString?_of_number read

end Meaning

namespace Grammar

theorem identifier_fits : identifier.Fits :=
  fun _ _ _ _ => trivial

theorem annotationTerm_fits : annotationTerm.Fits :=
  fun _ _ _ _ => trivial

theorem typedLiteral_fits (type : EdmType) (pattern : Pattern) : (typedLiteral type pattern).Fits :=
  fun _ _ _ _ => trivial

theorem sign_spells : (optional Pattern.sign).Spells (·.isDigit = false) := by
  refine ⟨?_, ?_⟩
  · intro character minus
    cases character with
    | encoded high low => rfl
    | plain octet =>
      have same : octet = '-'.toUInt8 := by simpa [UriChar.isPlain] using minus
      rw [same]
      decide
  · intro character plus
    cases character with
    | encoded high low => rfl
    | plain octet =>
      have same : octet = '+'.toUInt8 := by
        simpa [UriChar.isDelimiter, UriChar.isPlain, UriChar.isEncoded, UriChar.decoded?] using plus
      rw [same]
      decide

theorem signed_fits {type : EdmType} {digits bits : Nat} (few : digits ≤ 19) :
    (signed type digits bits).Fits :=
  Meaning.integer_fits (by decide) sign_spells few

theorem null_fits : null.Fits :=
  fun _ _ _ _ => trivial

theorem byte_fits : byte.Fits :=
  Meaning.integer_fits (by decide) trivial (by decide)

theorem double_fits : double.Fits :=
  typedLiteral_fits _ _

theorem position_fits : position.Fits :=
  ⟨double_fits, double_fits⟩

theorem srid_fits : srid.Fits :=
  Meaning.srid_fits

theorem shape_fits (kind : Shape) : (shape kind).Fits := by
  cases kind with
  | collection => trivial
  | lineString | multiLineString | multiPoint | multiPolygon | point | polygon => exact position_fits

theorem geoLiteral_fits : geoLiteral.Fits :=
  ⟨shape_fits .collection, shape_fits .lineString, shape_fits .multiPoint, shape_fits .multiLineString,
    shape_fits .multiPolygon, shape_fits .point, shape_fits .polygon, trivial⟩

theorem jsonPrimitive_fits : jsonPrimitive.Fits :=
  ⟨Meaning.jsonString_fits, Meaning.jsonNumber_fits,
    ⟨fun _ _ _ _ => trivial, fun _ _ _ _ => trivial⟩,
    fun _ _ _ _ => trivial, trivial⟩

theorem jsonValue_fits : jsonValue.Fits :=
  ⟨trivial, trivial, jsonPrimitive_fits, jsonPrimitive_fits, trivial⟩

end Grammar

theorem Construct.body_fits (construct : Construct) : construct.body.Fits := by
  cases construct with
  | object =>
    exact ⟨⟨Grammar.annotationTerm_fits, Grammar.jsonValue_fits⟩,
      Grammar.identifier_fits, Grammar.jsonValue_fits⟩
  | collection => exact Grammar.geoLiteral_fits

namespace Grammar

theorem primitiveTable_fits : ∀ alternative ∈ primitiveTable, alternative.rule.Fits := by
  have spatials (surface : Surface) (kind : Shape) : (spatial surface kind).Fits :=
    ⟨srid_fits, shape_fits kind⟩
  have int64 : int64.Fits := signed_fits (by decide)
  simp only [primitiveTable, List.forall_mem_append, List.forall_mem_cons, List.forall_mem_map]
  exact ⟨⟨⟨null_fits, typedLiteral_fits _ _, typedLiteral_fits _ _, typedLiteral_fits _ _,
    typedLiteral_fits _ _, typedLiteral_fits _ _, typedLiteral_fits _ _, double_fits, double_fits,
    signed_fits (by decide), byte_fits, signed_fits (by decide), signed_fits (by decide), int64,
    typedLiteral_fits _ _, typedLiteral_fits _ _, typedLiteral_fits _ _, ⟨identifier_fits, int64⟩,
    nofun⟩, fun kind _ => spatials .geography kind⟩, fun kind _ => spatials .geometry kind⟩

theorem fits_rule {table : Table} (fits : ∀ alternative ∈ table, alternative.rule.Fits) : table.rule.Fits :=
  Table.rule_of_forall Rule.Fits trivial And.intro fits

theorem shapeCatalogue_fits (kind : Shape) : ∀ rule ∈ shapeCatalogue kind, rule.Fits := by
  simp only [shapeCatalogue, List.forall_mem_cons]
  exact ⟨shape_fits kind, ⟨srid_fits, shape_fits kind⟩, ⟨srid_fits, shape_fits kind⟩,
    ⟨srid_fits, shape_fits kind⟩, nofun⟩

theorem primitiveCatalogue_fits : ∀ rule ∈ primitiveCatalogue, rule.Fits :=
  forall_primitiveCatalogue Rule.Fits identifier_fits primitiveTable_fits (fits_rule primitiveTable_fits)

theorem geoCatalogue_fits : ∀ rule ∈ geoCatalogue, rule.Fits := by
  simp only [geoCatalogue, List.forall_mem_append, List.forall_mem_cons, List.forall_mem_flatMap]
  exact ⟨⟨position_fits, position_fits, position_fits, position_fits, position_fits, srid_fits,
    geoLiteral_fits, nofun⟩, fun kind _ => shapeCatalogue_fits kind⟩

theorem jsonCatalogue_fits : ∀ rule ∈ jsonCatalogue, rule.Fits := by
  have primitive := jsonPrimitive_fits
  simp only [jsonCatalogue, List.forall_mem_cons]
  exact ⟨primitive.1, primitive.2.1, primitive.2.2.1, primitive.2.2.2.1, primitive,
    annotationTerm_fits, ⟨annotationTerm_fits, jsonValue_fits⟩, ⟨identifier_fits, jsonValue_fits⟩,
    trivial, trivial, primitive, jsonValue_fits, ⟨trivial, trivial, primitive, trivial⟩, nofun⟩

theorem catalogue_fits : ∀ rule ∈ catalogue, rule.Fits := by
  simp only [catalogue, List.forall_mem_append]
  exact ⟨⟨primitiveCatalogue_fits, geoCatalogue_fits⟩, jsonCatalogue_fits⟩

theorem catalogue_steady : ∀ rule ∈ catalogue, rule.steady = true := by
  decide

end Grammar

end ODataLiteral
