import ODataLiteral.Grammar
import ODataLiteral.Proofs.Geo.Completeness
import ODataLiteral.Proofs.Json.Alternatives
import ODataLiteral.Proofs.Rule.Cut

/-! Every rule of the grammar is firm where its token is the end of the text, except that of the primitive literals.
Most patterns are firm whatever follows. A year, a part that a lead binds and a qualified name need a reason, and
so do the alternatives: other first characters, or an array that is empty. -/
namespace ODataLiteral

open Pattern

namespace Pattern

variable {follow : UriChar → Bool}

theorem excludes_of_leads {first second : Pattern} (steady : first.steady = true)
    (steadyToo : second.steady = true) (filled : first.nullable = false) (filledToo : second.nullable = false)
    (apart : UriChar.Apart first.leads second.leads) : first.Excludes second := by
  intro text taken rest read
  obtain ⟨head, tail, rfl⟩ := List.exists_cons_of_ne_nil (ne_nil_of_split filled read)
  refine split_eq_none_of_head steadyToo filledToo fun character here => ?_
  rw [split_append read] at here
  cases here
  exact apart _ (leads_of_split steady read)

theorem text_firm (expected : Text) (follow : UriChar → Bool) : (text expected).Firm follow := by
  induction expected generalizing follow with
  | nil => trivial
  | cons character others ih =>
    cases others with
    | nil => trivial
    | cons next others => exact ⟨trivial, ih follow⟩

/-- The lead is there or it is not, wherever the text is cut off. -/
theorem whenLedBy_firm {lead rest : Pattern} (grows : lead.Grows)
    (firm : lead.Firm fun character => rest.leads character || rest.nullable && follow character)
    (firmToo : rest.Firm follow) : (whenLedBy lead rest).Firm follow := by
  refine ⟨⟨⟨firm, firmToo⟩, grows⟩, .inr fun text taken left absent => ?_⟩
  cases read : (seq lead rest).split text with
  | none => rfl
  | some found =>
    obtain ⟨_, _, _, present, _, _⟩ := split_seq_iff.mp read
    rw [(split_notBefore_iff.mp absent).1] at present
    cases present

theorem year_firm : year.Firm follow := by
  have zero : (plain '0' ++ exactly 3 digit ++ notBefore digit).Firm follow := firm_of_firm rfl rfl follow
  have other : (octet Octet.isOneToNine ++ atLeast 3 digit).Firm follow := firm_of_firm rfl rfl follow
  refine ⟨firm_of_firm rfl rfl _, ⟨zero, other⟩, .inr (excludes_of_leads rfl rfl rfl rfl ?_)⟩
  rw [leads_of_filled rfl, leads_of_filled rfl, leads_of_filled rfl]
  exact UriChar.apart_plain rfl

theorem yearMonthDay_firm : yearMonthDay.Firm follow :=
  ⟨⟨⟨⟨year_firm, trivial⟩, firm_of_firm rfl rfl _⟩, trivial⟩, firm_of_firm rfl rfl follow⟩

theorem timeOfDay_firm : timeOfDay.Firm follow := by
  have fraction : (whenLedBy (plain '.') fractionalSeconds).Firm follow :=
    whenLedBy_firm (grows_of_grows rfl rfl) trivial (firm_of_firm rfl rfl follow)
  have seconds : (whenLedBy colon (second ++ whenLedBy (plain '.') fractionalSeconds)).Firm follow :=
    whenLedBy_firm (grows_of_grows rfl rfl) trivial ⟨firm_of_firm rfl rfl _, fraction⟩
  exact ⟨⟨⟨firm_of_firm rfl rfl _, trivial⟩, firm_of_firm rfl rfl _⟩, seconds⟩

theorem date_firm : date.Firm follow :=
  ⟨yearMonthDay_firm, grows_of_grows rfl rfl⟩

theorem dateTimeOffset_firm : dateTimeOffset.Firm follow :=
  ⟨⟨⟨yearMonthDay_firm, trivial⟩, timeOfDay_firm⟩, firm_of_firm rfl rfl follow⟩

/-- Where the components of the other units are read, no component of this one stands. -/
theorem components_exclude {unit : Pattern} {left : List Pattern} (numbered : (notBefore digit).Excludes unit)
    (others : ∀ other ∈ left, other.Excludes unit) : (components left).Excludes unit := by
  induction left with
  | nil => exact numbered
  | cons other later ih =>
    obtain ⟨first, others⟩ := List.forall_mem_cons.mp others
    exact (first.symm.front.alt (ih others).symm).symm

theorem components_firm {left : List Pattern}
    (firm : ∀ unit ∈ left, unit.steady = true ∧ unit.firm = true ∧ (notBefore digit).Excludes unit)
    (apart : left.Pairwise fun unit later => later.Excludes unit) (follow : UriChar → Bool) :
    (components left).Firm follow := by
  induction left with
  | nil => exact firm_of_firm rfl rfl follow
  | cons unit later ih =>
    obtain ⟨⟨steady, firm, numbered⟩, others⟩ := List.forall_mem_cons.mp firm
    obtain ⟨apart, apartLater⟩ := List.pairwise_cons.mp apart
    have rest := ih others apartLater
    exact ⟨⟨⟨firm_of_firm steady firm _, rest⟩, rest⟩, .inr (components_exclude numbered apart).front⟩

theorem notBefore_digit_excludes (more : Pattern) : (notBefore digit).Excludes (atLeast 1 digit ++ more) := by
  refine Excludes.front (fun text taken rest read => ?_)
  refine split_eq_none_of_head rfl rfl fun character here => ?_
  obtain ⟨tail, rfl⟩ := List.head?_eq_some_iff.mp here
  by_contra digit
  rw [Bool.not_eq_false] at digit
  have present : Pattern.digit.split (character :: tail) = some ([character], tail) := if_pos digit
  rw [(split_notBefore_iff.mp read).1] at present
  cases present

theorem Excludes.behind {front first second : Pattern} (excludes : first.Excludes second) :
    (front ++ first).Excludes (front ++ second) := by
  refine Excludes.intro fun text _ _ _ _ read readToo => ?_
  obtain ⟨_, _, _, one, two, _⟩ := split_seq_iff.mp read
  obtain ⟨_, _, _, oneToo, twoToo, _⟩ := split_seq_iff.mp readToo
  cases one.symm.trans oneToo
  rw [excludes _ _ _ two] at twoToo
  cases twoToo

/-- What stands behind a number tells its unit. -/
theorem excludes_measured {behind : Pattern} {unit : Char} (steady : behind.steady = true)
    (filled : behind.nullable = false) (other : behind.leads (.plain unit.toUInt8) = false) :
    (atLeast 1 digit ++ behind).Excludes (measured unit) := by
  have apart : behind.Excludes (plain unit) := excludes_of_leads steady rfl filled rfl (UriChar.apart_plain other)
  exact apart.behind

theorem timeComponents_firm : timeComponents.Firm follow := by
  refine components_firm ?_ ?_ follow
  · simp only [List.forall_mem_cons]
    exact ⟨⟨rfl, rfl, notBefore_digit_excludes _⟩, ⟨rfl, rfl, notBefore_digit_excludes _⟩,
      ⟨rfl, rfl, notBefore_digit_excludes _⟩, List.forall_mem_nil _⟩
  · have minutes : (measured 'M').Excludes (measured 'H') := excludes_measured rfl rfl rfl
    have seconds : measuredSeconds.Excludes (measured 'H') ∧ measuredSeconds.Excludes (measured 'M') :=
      ⟨excludes_measured rfl rfl rfl, excludes_measured rfl rfl rfl⟩
    simp only [List.pairwise_cons, List.forall_mem_cons]
    exact ⟨⟨minutes, seconds.1, List.forall_mem_nil _⟩, ⟨seconds.2, List.forall_mem_nil _⟩,
      List.forall_mem_nil _, List.Pairwise.nil⟩

theorem durationParts_firm : durationParts.Firm follow := by
  have days : (plain 'T' ++ timeComponents).Excludes (measured 'D' ++ whenLedBy (plain 'T') timeComponents) := by
    refine excludes_of_leads rfl rfl rfl rfl ?_
    rw [leads_of_filled rfl, leads_of_filled rfl, measured, leads_of_filled rfl]
    exact UriChar.Apart.symm (UriChar.apart_plain rfl)
  have time : (whenLedBy (plain 'T') timeComponents).Firm follow :=
    whenLedBy_firm (grows_of_grows rfl rfl) trivial timeComponents_firm
  exact ⟨⟨⟨firm_of_firm rfl rfl _, time⟩, trivial, timeComponents_firm⟩, .inr days⟩

theorem duration_firm : duration.Firm follow :=
  ⟨⟨firm_of_firm rfl rfl _, durationParts_firm⟩, trivial⟩

/-- A dot that no identifier followed is cut off with what stood behind it. -/
theorem qualifiedName_firm (dots : UriChar.Apart follow (UriChar.isPlain (· == '.'.toUInt8))) :
    qualifiedName.Firm follow := by
  refine ⟨firm_of_firm rfl rfl _, firm_of_firm rfl rfl _, .inr ?_⟩
  exact UriChar.Apart.symm (UriChar.Apart.or dots.symm (UriChar.false_apart _))

end Pattern

namespace Grammar

variable {follow : UriChar → Bool}

abbrev nothing : UriChar → Bool := fun _ => false

section Geo

theorem double_firm (follow : UriChar → Bool) : double.Firm follow :=
  firm_of_firm rfl rfl follow

theorem position_firm (follow : UriChar → Bool) : position.Firm follow :=
  ⟨trivial, double_firm _, trivial, double_firm follow⟩

theorem pointData_firm (follow : UriChar → Bool) : pointData.Firm follow :=
  ⟨trivial, position_firm _, trivial⟩

theorem geoList_firm {item : Rule} (firm : ∀ follow, item.Firm follow) (keyword : Text) (mayBeEmpty : Bool)
    (follow : UriChar → Bool) : (geoList keyword item mayBeEmpty).Firm follow :=
  ⟨⟨text_firm keyword _, trivial⟩, firm _, trivial, trivial, grows_of_grows rfl rfl⟩

theorem lineStringData_firm (follow : UriChar → Bool) : lineStringData.Firm follow :=
  geoList_firm position_firm [] false follow

theorem polygonData_firm (follow : UriChar → Bool) : polygonData.Firm follow :=
  geoList_firm lineStringData_firm [] false follow

theorem shape_firm (kind : Shape) (follow : UriChar → Bool) : (shape kind).Firm follow := by
  cases kind with
  | collection => trivial
  | lineString => exact ⟨text_firm _ _, lineStringData_firm _, trivial⟩
  | multiLineString => exact geoList_firm lineStringData_firm _ true follow
  | multiPoint => exact geoList_firm pointData_firm _ true follow
  | multiPolygon => exact geoList_firm polygonData_firm _ true follow
  | point => exact ⟨text_firm _ _, pointData_firm _, trivial⟩
  | polygon => exact ⟨text_firm _ _, polygonData_firm _, trivial⟩

theorem firstShape_excludes {kind : Shape} {shapes : List Shape} (other : kind ∉ shapes) :
    (firstShape shapes).Excludes (shape kind) := by
  induction shapes with
  | nil => exact Rule.never_excludes _
  | cons first shapes ih =>
    rw [List.mem_cons, not_or] at other
    exact (shape_excludes (Ne.symm other.1)).orElse (ih other.2)

theorem firstShape_firm {shapes : List Shape} (different : shapes.Nodup) (follow : UriChar → Bool) :
    (firstShape shapes).Firm follow := by
  induction shapes with
  | nil => trivial
  | cons kind shapes ih =>
    obtain ⟨other, rest⟩ := List.nodup_cons.mp different
    exact ⟨shape_firm kind follow, ih rest, (firstShape_excludes other).yields follow⟩

theorem geoLiteral_firm (follow : UriChar → Bool) : geoLiteral.Firm follow :=
  have different : shapeOrder.Nodup := by decide
  firstShape_firm different follow

theorem withSrid_firm (kind : Shape) (follow : UriChar → Bool) : (withSrid (shape kind)).Firm follow :=
  ⟨trivial, firm_of_firm rfl rfl _, trivial, shape_firm kind follow⟩

theorem spatial_firm (surface : Surface) (kind : Shape) (follow : UriChar → Bool) :
    (spatial surface kind).Firm follow := by
  have opening : (surfacePrefix surface ++ quote).Firm anything := by
    cases surface <;> exact ⟨text_firm _ _, trivial⟩
  exact ⟨opening, withSrid_firm kind _, trivial⟩

end Geo

section Json

theorem jsonBoolean_firm (follow : UriChar → Bool) : jsonBoolean.Firm follow := by
  refine ⟨text_firm _ _, text_firm _ _, Rule.yields_of_apart rfl rfl ?_ follow⟩
  exact UriChar.Apart.symm true_apart_false

theorem jsonPrimitive_firm (follow : UriChar → Bool) : jsonPrimitive.Firm follow := by
  refine ⟨firm_of_firm rfl rfl _, ⟨firm_of_firm rfl rfl _, ⟨jsonBoolean_firm follow, ⟨text_firm _ _, trivial,
    (Rule.never_excludes _).yields _⟩, ?_⟩, ?_⟩, ?_⟩
  · exact Rule.yields_of_apart rfl rfl (UriChar.Apart.symm jsonBoolean_apart) _
  · exact Rule.yields_of_apart rfl rfl (UriChar.Apart.symm jsonNumber_apart) _
  · exact Rule.yields_of_apart rfl rfl (UriChar.Apart.symm jsonString_apart) _

theorem annotationTerm_firm (dots : UriChar.Apart follow (UriChar.isPlain (· == '.'.toUInt8))) :
    annotationTerm.Firm follow :=
  ⟨trivial, qualifiedName_firm dots⟩

theorem structural_firm (bracket : Char) (follow : UriChar → Bool) :
    (openingBracket bracket).Firm follow ∧ (closingBracket bracket).Firm follow ∧
      (closingBracket bracket).Grows :=
  ⟨firm_of_firm rfl rfl follow, firm_of_firm rfl rfl follow, grows_of_grows rfl rfl⟩

theorem array_firm {item : Rule} (firm : ∀ follow, item.Firm follow) (follow : UriChar → Bool) :
    (array item).Firm follow :=
  ⟨(structural_firm '[' _).1, firm _, (structural_firm ',' _).1, (structural_firm ']' follow).2⟩

/-- An empty array is empty in a longer text. -/
theorem array_grows {item : Rule} {levels : Nat} {start stop : Place} {token : Token} (gone : Text)
    (read : (array item).parse levels start = some (token, stop)) (empty : token.children = []) :
    ∃ found, (array item).parse levels (start.extend gone) = some found := by
  obtain ⟨before, first, tokens, opened, rfl, inner⟩ := Parser.list_iff.mp read
  obtain rfl : tokens = [] := empty
  rcases inner with ⟨_, _, behind, closed⟩ | ⟨_, run⟩
  · have left : first.rest ≠ [] := by
      rw [(Pattern.parse_advances closed).rest]
      exact List.append_ne_nil_of_left_ne_nil (Pattern.ne_nil_of_parse rfl closed) _
    obtain ⟨taken, offset⟩ := Pattern.parse_iff.mp opened
    have opens : beginArray.parse (start.extend gone) = some (before, first.extend gone) :=
      Pattern.parse_iff.mpr ⟨split_prompt rfl taken left, offset⟩
    have reads : (endArray.split first.rest).isSome = true := by
      rw [(Pattern.parse_iff.mp closed).1]
      rfl
    have reads : (endArray.split (first.extend gone).rest).isSome = true :=
      (structural_firm ']' anything).2.2 _ gone reads
    obtain ⟨⟨text, rest⟩, split⟩ := Option.isSome_iff_exists.mp reads
    obtain ⟨_, closes, _⟩ := Pattern.parse_of_split split
    exact ⟨_, Parser.list_iff.mpr ⟨before, _, [], opens, rfl, .inl ⟨rfl, rfl, _, closes⟩⟩⟩
  · cases Parser.items_of_itemsWithin run

theorem array_excludes_object (item : Rule) : (array item).Excludes object :=
  fun levels _ _ read => (array_excludes levels read).1

theorem jsonPrimitive_excludes_array (item : Rule) : jsonPrimitive.Excludes (array item) :=
  Rule.Excludes.symm fun levels _ _ read => (array_excludes levels read).2

/-- An array of objects comes first, so an array of primitive values is not empty. -/
theorem objectArray_yields {other : Rule} (excludes : other.Excludes objectArray) (follow : UriChar → Bool) :
    objectArray.Yields follow (.orElse other (.orElse primitiveArray .never)) := by
  intro levels gone start token stop _ again _ refused
  rcases Option.or_eq_some_iff.mp again with again | ⟨_, again⟩
  · exact excludes levels start _ again
  · rcases Option.or_eq_some_iff.mp again with again | ⟨_, again⟩
    · cases read : objectArray.parse levels start with
      | none => rfl
      | some found =>
        obtain ⟨_, longer⟩ := array_grows gone read (arrays_meet levels read again).1
        cases refused.symm.trans longer
    · cases again

theorem primitiveArray_firm (follow : UriChar → Bool) : primitiveArray.Firm follow :=
  array_firm jsonPrimitive_firm follow

theorem objectArray_firm (follow : UriChar → Bool) : objectArray.Firm follow :=
  have objects : ∀ follow, object.Firm follow := fun _ => trivial
  array_firm objects follow

theorem jsonValue_firm (follow : UriChar → Bool) : jsonValue.Firm follow := by
  have primitives : jsonPrimitive.Yields follow (.orElse primitiveArray .never) :=
    ((jsonPrimitive_excludes_array _).symm.orElse (Rule.never_excludes _)).yields follow
  have last : (Rule.orElse primitiveArray .never).Firm follow :=
    ⟨primitiveArray_firm follow, trivial, (Rule.never_excludes _).yields follow⟩
  have objects : object.Excludes jsonPrimitive := fun levels _ _ read => (object_excludes levels read).2.1
  refine ⟨trivial, ⟨objectArray_firm follow, ⟨jsonPrimitive_firm follow, last, primitives⟩, ?_⟩, ?_⟩
  · exact objectArray_yields (jsonPrimitive_excludes_array _) follow
  · refine ((array_excludes_object _).orElse (objects.symm.orElse ?_)).yields follow
    exact (array_excludes_object _).orElse (Rule.never_excludes _)

theorem arrayOrObject_firm (follow : UriChar → Bool) : arrayOrObject.Firm follow := by
  have objects : object.Excludes objectArray := (array_excludes_object _).symm
  refine ⟨trivial, ⟨objectArray_firm _, ⟨trivial, ⟨primitiveArray_firm _, trivial, ?_⟩, ?_⟩,
    objectArray_yields objects _⟩, trivial⟩
  · exact (Rule.never_excludes _).yields _
  · exact ((array_excludes_object _).orElse (Rule.never_excludes _)).yields _

/-- A quotation mark follows a key, and no dot. -/
theorem member_firm {key : Rule}
    (firm : ∀ follow, UriChar.Apart follow (UriChar.isPlain (· == '.'.toUInt8)) → key.Firm follow)
    (follow : UriChar → Bool) : (member key jsonValue).Firm follow := by
  exact ⟨trivial, firm _ (UriChar.apart_plain rfl), firm_of_firm rfl rfl _, jsonValue_firm follow⟩

theorem annotationMember_firm (follow : UriChar → Bool) : annotationMember.Firm follow :=
  member_firm (fun _ => annotationTerm_firm) follow

theorem identifier_firm (follow : UriChar → Bool) : identifier.Firm follow :=
  firm_of_firm rfl rfl follow

theorem propertyMember_firm (follow : UriChar → Bool) : propertyMember.Firm follow :=
  member_firm (fun follow _ => identifier_firm follow) follow

theorem objectMembers_firm (follow : UriChar → Bool) : objectMembers.Firm follow := by
  have properties : propertyMember.Excludes annotationMember :=
    Rule.Excludes.symm fun levels _ _ read => annotationMember_excludes levels read
  exact ⟨(structural_firm '{' _).1,
    ⟨annotationMember_firm _, propertyMember_firm _, properties.yields _⟩,
    (structural_firm ',' _).1, (structural_firm '}' follow).2⟩

end Json

section Catalogue

/-- A value begins with a digit or a sign, and a name with neither. -/
theorem int64_apart_identifier : UriChar.Apart int64.leads identifier.leads := by
  have name : identifier.leads = UriChar.isPlain Octet.isNameStart :=
    (leads_of_filled rfl).trans (leads_of_filled rfl)
  have numbers : int64.LeadsIn UriChar.isNumeralLead := integers_lead int64 (by simp [integers])
  intro character lead
  rw [name]
  exact numeral_apart_name character (numbers.leads character lead)

theorem enumMember_firm (follow : UriChar → Bool) : enumMember.Firm follow := by
  refine ⟨identifier_firm follow, firm_of_firm rfl rfl _, Rule.yields_of_apart rfl rfl ?_ follow⟩
  exact int64_apart_identifier

theorem enumeration_firm (follow : UriChar → Bool) : enumeration.Firm follow := by
  refine ⟨qualifiedName_firm ?_, trivial, enumMember_firm _, trivial, trivial, grows_of_grows rfl rfl⟩
  exact UriChar.apart_plain rfl

theorem lexeme_firm {pattern : Pattern} (steady : pattern.steady = true) (firm : pattern.firm = true)
    (kind : Kind) (meaning : Meaning) : (Rule.lexeme kind meaning pattern).Firm nothing :=
  firm_of_firm steady firm nothing

/-- What the primitive literals choose from is firm, unlike their choice. -/
theorem primitiveTable_firm : ∀ alternative ∈ primitiveTable, alternative.rule.Firm nothing := by
  simp only [primitiveTable, List.forall_mem_append, List.forall_mem_cons, List.forall_mem_map]
  exact ⟨⟨⟨lexeme_firm rfl rfl _ _, lexeme_firm rfl rfl _ _, lexeme_firm rfl rfl _ _, date_firm,
    dateTimeOffset_firm, timeOfDay_firm, lexeme_firm rfl rfl _ _, double_firm _, double_firm _,
    lexeme_firm rfl rfl _ _, lexeme_firm rfl rfl _ _, lexeme_firm rfl rfl _ _, lexeme_firm rfl rfl _ _,
    lexeme_firm rfl rfl _ _, lexeme_firm rfl rfl _ _, duration_firm, lexeme_firm rfl rfl _ _,
    enumeration_firm _, List.forall_mem_nil _⟩, fun kind _ => spatial_firm .geography kind _⟩,
    fun kind _ => spatial_firm .geometry kind _⟩

theorem primitiveCatalogue_firm :
    ∀ rule ∈ primitiveCatalogue, rule ≠ primitiveLiteral → rule.Firm nothing := by
  have parts : primitiveCatalogue =
      (primitiveTable.take 18).map (·.rule) ++ [identifier, primitiveLiteral] := rfl
  simp only [parts, List.forall_mem_append, List.forall_mem_map, List.forall_mem_cons]
  exact ⟨fun alternative member _ => primitiveTable_firm alternative (List.mem_of_mem_take member),
    fun _ => identifier_firm _, fun other => absurd rfl other, List.forall_mem_nil _⟩

theorem shapeCatalogue_firm (kind : Shape) : ∀ rule ∈ shapeCatalogue kind, rule.Firm nothing := by
  simp only [shapeCatalogue, List.forall_mem_cons]
  exact ⟨shape_firm kind _, withSrid_firm kind _, spatial_firm _ kind _, spatial_firm _ kind _,
    List.forall_mem_nil _⟩

theorem geoCatalogue_firm : ∀ rule ∈ geoCatalogue, rule.Firm nothing := by
  simp only [geoCatalogue, List.forall_mem_append, List.forall_mem_cons, List.forall_mem_flatMap]
  exact ⟨⟨position_firm _, pointData_firm _, lineStringData_firm _, lineStringData_firm _, polygonData_firm _,
    lexeme_firm rfl rfl _ _, geoLiteral_firm _, List.forall_mem_nil _⟩, fun kind _ => shapeCatalogue_firm kind⟩

theorem jsonCatalogue_firm : ∀ rule ∈ jsonCatalogue, rule.Firm nothing := by
  simp only [jsonCatalogue, List.forall_mem_cons]
  exact ⟨lexeme_firm rfl rfl _ _, lexeme_firm rfl rfl _ _, jsonBoolean_firm _, lexeme_firm rfl rfl _ _,
    jsonPrimitive_firm _, annotationTerm_firm (UriChar.false_apart _), annotationMember_firm _,
    propertyMember_firm _, trivial, objectArray_firm _, primitiveArray_firm _, jsonValue_firm _,
    arrayOrObject_firm _, List.forall_mem_nil _⟩

theorem catalogue_firm : ∀ rule ∈ catalogue, rule ≠ primitiveLiteral → rule.Firm nothing := by
  simp only [catalogue, List.forall_mem_append]
  exact ⟨⟨primitiveCatalogue_firm, fun rule member _ => geoCatalogue_firm rule member⟩,
    fun rule member _ => jsonCatalogue_firm rule member⟩

end Catalogue

end Grammar

theorem Construct.firm_body (construct : Construct) (follow : UriChar → Bool) : construct.body.Firm follow := by
  cases construct with
  | object => exact Grammar.objectMembers_firm follow
  | collection => exact Grammar.geoList_firm Grammar.geoLiteral_firm _ false follow

theorem Construct.parse_firm (levels : Nat) (construct : Construct) (follow : UriChar → Bool) :
    (construct.parse levels).Firm follow := by
  induction levels generalizing construct follow with
  | zero =>
    intro gone start token stop read
    cases read
  | succ levels ih =>
    exact Rule.parse_firm_of_constructs ih construct.steady_body (construct.firm_body follow)

/-- A firm rule reads the same token when the text is cut off behind it. -/
theorem Rule.parse_firm {rule : Rule} {follow : UriChar → Bool} (levels : Nat) (steady : rule.steady = true)
    (firm : rule.Firm follow) : (rule.parse levels).Firm follow :=
  Rule.parse_firm_of_constructs (Construct.parse_firm levels) steady firm

end ODataLiteral
