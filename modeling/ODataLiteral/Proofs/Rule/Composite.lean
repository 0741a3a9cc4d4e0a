import ODataLiteral.Proofs.Rule.Lexeme

/-! Rules at the offsets of a source. What stands there is what the parts of a rule read, one after another, each from
the offset where the part before it ends. -/
namespace ODataLiteral

open Abnf (Derives)
open Pattern

section Prefix

variable {source octets more : Bytes} {offset stop : Nat}

theorem Bytes.append_prefix_drop_iff : octets ++ more <+: source.drop offset ↔
    octets <+: source.drop offset ∧ more <+: source.drop (offset + octets.length) := by
  rw [← List.drop_drop]
  constructor
  · rintro ⟨rest, same⟩
    rw [← same, List.append_assoc, List.drop_left]
    exact ⟨List.prefix_append _ _, List.prefix_append _ _⟩
  · rintro ⟨⟨rest, same⟩, further⟩
    rw [← same, List.drop_left] at further
    rw [← same]
    exact (List.prefix_append_right_inj octets).mpr further

theorem Bytes.slice_eq_iff (filled : octets ≠ []) : stop ≤ source.length ∧ source.slice offset stop = octets ↔
    octets <+: source.drop offset ∧ stop = offset + octets.length := by
  constructor
  · rintro ⟨inside, rfl⟩
    obtain ⟨forward, parts⟩ := Bytes.drop_of_slice inside filled
    refine ⟨parts ▸ List.prefix_append _ _, ?_⟩
    rw [Bytes.slice, List.length_drop, List.length_take]
    omega
  · rintro ⟨stands, rfl⟩
    have long := stands.length_le
    have enough := List.length_pos_iff.mpr filled
    rw [List.length_drop] at long
    refine ⟨by omega, ?_⟩
    rw [Bytes.slice, List.drop_take, Nat.add_sub_cancel_left]
    exact (List.prefix_iff_eq_take.mp stands).symm

end Prefix

namespace Pattern

variable {pattern : Pattern} {follow : UriChar → Bool} {text : Text} {source octets : Bytes} {offset : Nat}
  {stop : Place}

theorem prefix_of_parse (steady : pattern.steady = true) (clean : pattern.clean = true)
    (read : pattern.parse (Place.ofSource source offset) = some (text, stop)) :
    Derives pattern.language text.bytes ∧ text.bytes <+: source.drop offset ∧
      stop = Place.ofSource source (offset + text.bytes.length) := by
  have inside := Place.In.ofSource source offset
  have on := Pattern.parse_advances read
  obtain ⟨after, rest, split⟩ := Text.exists_rest_of_append on.rest
  refine ⟨⟨text, mem_language_of_split steady (Pattern.parse_iff.mp read).1,
    Pattern.legible_of_parse steady clean inside read, rfl⟩, ⟨after, split.symm⟩, ?_⟩
  obtain ⟨offset', rest'⟩ := stop
  have behind : rest' = Text.ofBytes (source.drop offset') := inside.advances on
  have ends : offset' = offset + text.width := on.offset
  rw [Text.length_bytes, behind, ends]
  rfl

/-- What stands at an offset is taken there, if the pattern takes it before what comes next. -/
theorem Takes.parse_ofSource (takes : pattern.Takes follow) (derived : Derives pattern.language octets)
    (stands : octets <+: source.drop offset)
    (next : HeadIn follow (Text.ofBytes (source.drop (offset + octets.length)))) :
    pattern.parse (Place.ofSource source offset) =
      some (Text.ofBytes octets, Place.ofSource source (offset + octets.length)) := by
  obtain ⟨rest, same⟩ := stands
  obtain ⟨text, member, legible, rfl⟩ := derived
  have behind : source.drop (offset + text.bytes.length) = rest := by
    rw [← List.drop_drop, ← same, List.drop_left]
  rw [behind] at next
  rw [Text.ofBytes_bytes legible]
  refine Pattern.parse_iff.mpr ⟨?_, by rw [Text.length_bytes]; rfl⟩
  show pattern.split (Text.ofBytes (source.drop offset)) =
    some (text, Text.ofBytes (source.drop (offset + text.bytes.length)))
  rw [behind, ← same, Text.ofBytes_bytes_append legible]
  exact takes text member _ next

end Pattern

namespace Rule

variable {rule : Rule} {kind : Kind} {source : Bytes} {offset : Nat} {token : Token} {place : Place}

/-- Where a rule reads a token, it goes on at the end of the token. -/
theorem parse_ofSource_iff (steady : rule.steady = true) (fits : rule.Fits) :
    rule.parse maxDepth (Place.ofSource source offset) = some (token, place) ↔
      rule.tokenAt? source offset = some token ∧ place = Place.ofSource source token.span.stop := by
  rw [Rule.tokenAt?_iff steady fits]
  have ends (place : Place) (read : rule.parse maxDepth (Place.ofSource source offset) = some (token, place)) :
      place = Place.ofSource source token.span.stop := by
    obtain ⟨_, on⟩ := Rule.parse_forward maxDepth rule _ _ _ read
    rw [Rule.parse_spans maxDepth rule _ _ _ read]
    obtain ⟨offset', rest'⟩ := place
    have behind : rest' = Text.ofBytes (source.drop offset') := (Place.In.ofSource source offset).advances on
    rw [behind]
    rfl
  constructor
  · exact fun read => ⟨⟨place, read⟩, ends place read⟩
  · rintro ⟨⟨other, read⟩, rfl⟩
    rwa [← ends other read]

/-- A lexeme is read from octets that stand at the offset, if they spell a text of its pattern that has a value. -/
theorem tokenAt?_lexeme_stands_iff {meaning : Meaning} {pattern : Pattern} {follow : UriChar → Bool}
    (exactly : pattern.Exactly follow) (steady : (lexeme kind meaning pattern).steady = true)
    (clean : pattern.clean = true) (fits : meaning.Fits pattern) :
    (lexeme kind meaning pattern).tokenAt? source offset = some token ↔
      ∃ octets value, Derives pattern.language octets ∧ octets <+: source.drop offset ∧
        HeadIn follow (Text.ofBytes (source.drop (offset + octets.length))) ∧
        meaning.value? (Text.ofBytes octets) = some value ∧
        token = ⟨kind, ⟨offset, offset + octets.length⟩, value⟩ := by
  have filled : pattern.nullable = false := by simp_all [Rule.steady]
  have ne_nil {octets : Bytes} (derived : Derives pattern.language octets) : octets ≠ [] :=
    derived.ne_nil fun member => ne_nil_of_mem filled member rfl
  rw [tokenAt?_lexeme_iff exactly steady clean fits]
  constructor
  · rintro ⟨stop, value, inside, derived, next, known, rfl⟩
    obtain ⟨stands, ends⟩ := (Bytes.slice_eq_iff (ne_nil derived)).mp ⟨inside, rfl⟩
    refine ⟨_, value, derived, stands, ?_, known, ?_⟩
    · rwa [← ends]
    · rw [← ends]
  · rintro ⟨octets, value, derived, stands, next, known, rfl⟩
    obtain ⟨inside, same⟩ := (Bytes.slice_eq_iff (ne_nil derived)).mpr ⟨stands, rfl⟩
    refine ⟨_, value, inside, ?_, next, ?_, rfl⟩
    · rwa [same]
    · rwa [same]

/-- A rule that changes the tokens of another one finds the changed token of what that one finds. -/
theorem tokenAt?_changed_iff {changed : Rule} {change : Token → Token} (steady : rule.steady = true)
    (fits : rule.Fits) (steadyToo : changed.steady = true) (fitsToo : changed.Fits)
    (changes : ∀ start token stop, changed.parse maxDepth start = some (token, stop) ↔
      ∃ child, rule.parse maxDepth start = some (child, stop) ∧ token = change child) :
    changed.tokenAt? source offset = some token ↔
      ∃ child, rule.tokenAt? source offset = some child ∧ token = change child := by
  simp only [Rule.tokenAt?_iff steadyToo fitsToo, Rule.tokenAt?_iff steady fits, changes]
  constructor
  · rintro ⟨stop, child, read, rfl⟩
    exact ⟨child, ⟨stop, read⟩, rfl⟩
  · rintro ⟨child, ⟨stop, read⟩, rfl⟩
    exact ⟨stop, child, read, rfl⟩

theorem tokenAt?_withKind_iff (steady : rule.steady = true) (fits : rule.Fits) :
    (Rule.withKind kind rule).tokenAt? source offset = some token ↔
      ∃ child, rule.tokenAt? source offset = some child ∧ token = child.withKind kind := by
  have changed : (Rule.withKind kind rule).steady = true := steady
  exact tokenAt?_changed_iff steady fits changed fits fun _ _ _ => Rule.parse_withKind_iff

/-- Of alternatives that begin differently, either one may be looked at on its own. -/
theorem tokenAt?_orElse_iff {one two : Rule} (steady : one.steady = true) (steadyToo : two.steady = true)
    (fits : one.Fits) (fitsToo : two.Fits) (apart : UriChar.Apart two.leads one.leads) :
    (Rule.orElse one two).tokenAt? source offset = some token ↔
      one.tokenAt? source offset = some token ∨ two.tokenAt? source offset = some token := by
  have both : (Rule.orElse one two).steady = true := Bool.and_eq_true_iff.mpr ⟨steady, steadyToo⟩
  rw [Rule.tokenAt?_iff both ⟨fits, fitsToo⟩, Rule.tokenAt?_iff steady fits, Rule.tokenAt?_iff steadyToo fitsToo]
  constructor
  · rintro ⟨stop, read⟩
    rcases Option.or_eq_some_iff.mp read with read | ⟨_, read⟩
    · exact .inl ⟨stop, read⟩
    · exact .inr ⟨stop, read⟩
  · rintro (⟨stop, read⟩ | ⟨stop, read⟩)
    · exact ⟨stop, Option.or_eq_some_iff.mpr (.inl read)⟩
    · -- The second one reads a character that the first one cannot begin with.
      have refused := Rule.parse_eq_none_of_apart steadyToo steady apart read maxDepth
      exact ⟨stop, Option.or_eq_some_iff.mpr (.inr ⟨refused, read⟩)⟩

theorem tokenAt?_withType_iff {type : EdmType} (steady : rule.steady = true) (fits : rule.Fits) :
    (Rule.withType type rule).tokenAt? source offset = some token ↔
      ∃ child, rule.tokenAt? source offset = some child ∧ token = child.withType type := by
  have changed : (Rule.withType type rule).steady = true := steady
  exact tokenAt?_changed_iff steady fits changed fits fun _ _ _ => Rule.parse_withType_iff

/-- A pair without delimiters: the second token is read where the first one ends. -/
theorem tokenAt?_pair_iff {pairing : Pairing} {one two : Rule} (steady : one.steady = true)
    (steadyToo : two.steady = true) (fits : one.Fits) (fitsToo : two.Fits) :
    (Rule.pair pairing .empty one .empty two).tokenAt? source offset = some token ↔
      ∃ left right, one.tokenAt? source offset = some left ∧ two.tokenAt? source left.span.stop = some right ∧
        token = ⟨pairing.kind, ⟨offset, right.span.stop⟩, pairing.value left right⟩ := by
  have both : (Rule.pair pairing .empty one .empty two).steady = true := by
    simp only [Rule.steady, Pattern.steady, steady, steadyToo, Bool.and_self]
  have nothing (place : Place) : Pattern.empty.parse place = some ([], place) := rfl
  rw [Rule.tokenAt?_iff both ⟨fits, fitsToo⟩]
  constructor
  · rintro ⟨stop, read⟩
    obtain ⟨_, _, left, _, _, _, right, opened, first, between, second, rfl⟩ := Parser.pair_iff.mp read
    cases (nothing _).symm.trans opened
    cases (nothing _).symm.trans between
    obtain ⟨atFirst, rfl⟩ := (parse_ofSource_iff steady fits).mp first
    obtain ⟨atSecond, rfl⟩ := (parse_ofSource_iff steadyToo fitsToo).mp second
    exact ⟨left, right, atFirst, atSecond, rfl⟩
  · rintro ⟨left, right, atFirst, atSecond, rfl⟩
    have first := (parse_ofSource_iff steady fits).mpr ⟨atFirst, rfl⟩
    have second := (parse_ofSource_iff steadyToo fitsToo).mpr ⟨atSecond, rfl⟩
    exact ⟨_, Parser.pair_iff.mpr ⟨[], _, left, _, [], _, right, nothing _, first, nothing _, second, rfl⟩⟩

/-- A token between delimiters that are read before any character. -/
theorem tokenAt?_enclosed_iff {opening closing : Pattern} (opens : opening.Takes Grammar.anything)
    (closes : closing.Takes Grammar.anything) (steady : (enclosed kind opening rule closing).steady = true)
    (clean : opening.clean = true) (cleanToo : closing.clean = true) (fits : rule.Fits) :
    (enclosed kind opening rule closing).tokenAt? source offset = some token ↔
      ∃ before child after, Derives opening.language before ∧ before <+: source.drop offset ∧
        rule.tokenAt? source (offset + before.length) = some child ∧
        Derives closing.language after ∧ after <+: source.drop child.span.stop ∧
        token = ⟨kind, ⟨offset, child.span.stop + after.length⟩, .nested child⟩ := by
  rw [Rule.tokenAt?_iff steady fits]
  simp only [Rule.steady, Bool.and_eq_true] at steady
  obtain ⟨⟨steadyOpening, steadyRule⟩, steadyClosing⟩ := steady
  constructor
  · rintro ⟨stop, read⟩
    obtain ⟨before, _, child, _, after, opened, inner, closed, rfl⟩ := Parser.enclosed_iff.mp read
    obtain ⟨derivedBefore, standsBefore, rfl⟩ := prefix_of_parse steadyOpening clean opened
    obtain ⟨between, rfl⟩ := (parse_ofSource_iff steadyRule fits).mp inner
    obtain ⟨derivedAfter, standsAfter, rfl⟩ := prefix_of_parse steadyClosing cleanToo closed
    exact ⟨before.bytes, child, after.bytes, derivedBefore, standsBefore, between, derivedAfter, standsAfter, rfl⟩
  · rintro ⟨before, child, after, derivedBefore, standsBefore, between, derivedAfter, standsAfter, rfl⟩
    have opened := opens.parse_ofSource derivedBefore standsBefore fun _ _ => rfl
    have inner := (parse_ofSource_iff steadyRule fits).mpr ⟨between, rfl⟩
    have closed := closes.parse_ofSource derivedAfter standsAfter fun _ _ => rfl
    exact ⟨_, Parser.enclosed_iff.mpr ⟨_, _, child, _, _, opened, inner, closed, rfl⟩⟩

end Rule

end ODataLiteral
