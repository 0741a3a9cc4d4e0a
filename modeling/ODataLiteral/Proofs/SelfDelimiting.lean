import ODataLiteral.Proofs.Grammar.Settled
import ODataLiteral.Proofs.Rereading
import ODataLiteral.Proofs.Rule.Tiling

/-! Rules that find the end of their token by themselves. Whatever is put in the place of the octets behind a token, the
same token is read again. What follows is first cut off and then something else is put there, and since no bare percent
sign is part of a token, its octets and the new ones are decoded apart. -/
namespace ODataLiteral

open Abnf (Derives)
open Pattern (binary_settled duration_firm duration_settled)

/-- The octets of a token spell characters, none of which is a bare percent sign. -/
theorem Rule.inherited_spelled (source : Bytes) :
    Inherited source fun token => Derives ⊤ (token.octets source) where
  lexeme levels kind meaning pattern steady clean :=
    (lexeme_shows steady clean).mono fun _ shown => shown.2.1.mono le_top
  composed token delimiters _ tiled children := by
    rcases tiled.spells children with ⟨_, empty⟩ | row
    · exact empty.mono le_top
    · exact row.mono le_top
  withType _ _ spelled := spelled
  withKind _ _ spelled := spelled

theorem Text.ofBytes_append {octets : Bytes} (spelled : Derives ⊤ octets) (behind : Bytes) :
    Text.ofBytes (octets ++ behind) = Text.ofBytes octets ++ Text.ofBytes behind := by
  obtain ⟨text, _, legible, rfl⟩ := spelled
  rw [Text.ofBytes_bytes_append legible, Text.ofBytes_bytes legible]

theorem Token.Alone.replace {source : Bytes} {token : Token} {start : Place} {gone : Text}
    (alone : token.Alone source start gone) (spelled : Derives ⊤ (token.octets source))
    (forward : token.span.start ≤ token.span.stop) (inside : token.span.stop ≤ source.length) (behind : Bytes) :
    start.extend (Text.ofBytes behind) =
      Place.ofSource (source.take token.span.stop ++ behind) token.span.start := by
  have offset : start.offset = token.span.start := congrArg Place.offset alone.place
  have front : (source.take token.span.stop ++ behind).drop token.span.start =
      token.octets source ++ behind := by
    apply List.drop_append_of_le_length
    rw [List.length_take]
    omega
  simp only [Place.extend, Place.ofSource, Cursor.place, Cursor.ofSource, front, alone.rest, offset,
    Text.ofBytes_append spelled]

theorem Rule.tokenAt?_of_settled {rule : Rule} (steady : rule.steady = true) (fits : rule.Fits)
    (clean : rule.clean = true) (firm : rule.Firm Grammar.nothing) (settled : rule.SelfSettled) {source : Bytes}
    {offset : Nat} {token : Token} (found : rule.tokenAt? source offset = some token) (behind : Bytes) :
    rule.tokenAt? (source.take token.span.stop ++ behind) offset = some token := by
  obtain ⟨last, whole⟩ := (tokenAt?_iff steady fits).mp found
  have spelled := (inherited_spelled source).stepwise.shows maxDepth steady clean _ _ _ (.ofSource source offset) whole
  obtain ⟨here, forward, inside⟩ := span_of_find? steady ((tokenAt?_eq steady fits).symm.trans found)
  obtain ⟨start, stop, gone, alone, ends, read⟩ := alone_of_tokenAt? steady fits found
  -- First the text is cut off behind the token, then the other octets are put there.
  have cut := parse_firm maxDepth steady firm _ _ _ _ read (Grammar.headIn_nothing_iff.mpr ends)
  have longer := parse_settled maxDepth steady (settled fun _ => True) _ _ _ cut trivial (Text.ofBytes behind)
  rw [alone.replace spelled (by omega) inside behind, here] at longer
  exact (tokenAt?_iff steady fits).mpr ⟨_, longer⟩

namespace Grammar

/-- The rules whose token ends with a keyword, a fixed number of characters or a closing delimiter. -/
def selfDelimiting : List Rule :=
  [null, boolean, guid, duration, binary, enumeration, srid, pointData, lineStringData, ring, polygonData,
   geoLiteral, jsonString, jsonBoolean, jsonNull, object, objectArray, primitiveArray, arrayOrObject] ++
    Shape.all.flatMap shapeCatalogue

theorem selfDelimiting_settled : ∀ rule ∈ selfDelimiting, rule.SelfSettled := by
  have shapes (kind : Shape) : ∀ rule ∈ shapeCatalogue kind, rule.SelfSettled := by
    simp only [shapeCatalogue, List.forall_mem_cons]
    exact ⟨shape_settled kind, withSrid_settled kind, spatial_settled _ kind, spatial_settled _ kind,
      List.forall_mem_nil _⟩
  simp only [selfDelimiting, List.forall_mem_append, List.forall_mem_cons, List.forall_mem_flatMap]
  exact ⟨⟨null_settled, boolean_settled, guid_settled, duration_settled, binary_settled, enumeration_settled,
    srid_settled, pointData_settled, lineStringData_settled, lineStringData_settled, polygonData_settled,
    geoLiteral_settled, jsonString_settled, jsonBoolean_settled, jsonNull_settled, fun _ => trivial,
    objectArray_settled, primitiveArray_settled, arrayOrObject_settled, List.forall_mem_nil _⟩,
    fun kind _ => shapes kind⟩

theorem selfDelimiting_firm : ∀ rule ∈ selfDelimiting, rule.Firm nothing := by
  simp only [selfDelimiting, List.forall_mem_append, List.forall_mem_cons, List.forall_mem_flatMap]
  exact ⟨⟨lexeme_firm rfl rfl _ _, lexeme_firm rfl rfl _ _, lexeme_firm rfl rfl _ _, duration_firm,
    lexeme_firm rfl rfl _ _, enumeration_firm _, lexeme_firm rfl rfl _ _, pointData_firm _,
    lineStringData_firm _, lineStringData_firm _, polygonData_firm _, geoLiteral_firm _, lexeme_firm rfl rfl _ _,
    jsonBoolean_firm _, lexeme_firm rfl rfl _ _, trivial, objectArray_firm _, primitiveArray_firm _,
    arrayOrObject_firm _, List.forall_mem_nil _⟩, fun kind _ => shapeCatalogue_firm kind⟩

theorem selfDelimiting_catalogue : ∀ rule ∈ selfDelimiting, rule ∈ catalogue := by
  have shapes : ∀ rule ∈ Shape.all.flatMap shapeCatalogue, rule ∈ catalogue := by
    intro rule member
    simp only [catalogue, geoCatalogue, List.mem_append, member, or_true, true_or]
  rw [selfDelimiting, List.forall_mem_append]
  refine ⟨?_, shapes⟩
  simp [catalogue, primitiveCatalogue, geoCatalogue, jsonCatalogue]

/-- What follows the token of a rule that delimits itself has no part in it. -/
theorem suffix_ignored : ∀ rule ∈ selfDelimiting, ∀ source offset token,
    rule.tokenAt? source offset = some token → ∀ behind,
      rule.tokenAt? (source.take token.span.stop ++ behind) offset = some token := by
  intro rule member source offset token found behind
  have listed := selfDelimiting_catalogue rule member
  exact Rule.tokenAt?_of_settled (catalogue_steady rule listed) (catalogue_fits rule listed)
    (catalogue_clean rule listed) (selfDelimiting_firm rule member) (selfDelimiting_settled rule member) found behind

/-- The enumeration `a.b'c,1'` ends at its second quote, before a dot and before a third quote as well. -/
theorem suffix_ignored_enumeration :
    let source : Bytes := [0x61, 0x2E, 0x62, 0x27, 0x63, 0x2C, 0x31, 0x27, 0x2E]
    let behind : Bytes := [0x27]
    enumeration ∈ selfDelimiting ∧ ∃ token, enumeration.tokenAt? source 0 = some token ∧
      token.span.stop = 8 ∧ enumeration.tokenAt? (source.take 8 ++ behind) 0 = some token := by
  intro source behind
  have member : enumeration ∈ selfDelimiting := by simp [selfDelimiting]
  have stops : (enumeration.tokenAt? source 0).map (·.span.stop) = some 8 := by rfl
  obtain ⟨token, found, stop⟩ := Option.map_eq_some_iff.mp stops
  refine ⟨member, token, found, stop, ?_⟩
  rw [← stop]
  exact suffix_ignored enumeration member source 0 token found behind

end Grammar

end ODataLiteral
