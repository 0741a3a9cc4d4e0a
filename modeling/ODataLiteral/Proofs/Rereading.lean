import ODataLiteral.Proofs.Literal.Cut
import ODataLiteral.Proofs.Rule.Shift

/-! The text of a token is read as the same token when nothing follows it. The one exception is a fraction before an
`e` without digits: it is found as a floating point numeral, and alone it is a decimal. -/
namespace ODataLiteral

open Abnf (Derives)

/-- A place in the source that has the octets of a token only, and the text behind them that was cut off. -/
structure Token.Alone (source : Bytes) (token : Token) (start : Place) (gone : Text) : Prop where
  place : start.extend gone = Place.ofSource source token.span.start
  rest : start.rest = Text.ofBytes (token.octets source)

/-- In the octets of a token alone a rule reads what is expected, but for the offset, and nothing is left. -/
def Rule.Rereads (rule : Rule) (source : Bytes) (token expected : Token) : Prop :=
  ∃ again, rule.tokenAt? (token.octets source) 0 = some again ∧
    rule.complete (token.octets source) = .ok again ∧ again.shift token.span.start = expected

namespace Rule

variable {rule : Rule} {source : Bytes} {offset : Nat} {token expected : Token} {start stop : Place}
  {gone : Text}

theorem alone_of_tokenAt? (steady : rule.steady = true) (fits : rule.Fits)
    (found : rule.tokenAt? source offset = some token) :
    ∃ (start stop : Place) (gone : Text), token.Alone source start gone ∧ stop.rest = [] ∧
      rule.parse maxDepth (start.extend gone) = some (token, stop.extend gone) := by
  obtain ⟨last, read⟩ := (tokenAt?_iff steady fits).mp found
  obtain ⟨text, on⟩ := parse_forward maxDepth rule _ _ _ read
  have span := parse_spans maxDepth rule _ _ _ read
  have octets : token.octets source = text.bytes := by
    rw [Token.octets, span]
    exact Place.slice_of_advances on
  have place : Place.extend last.rest ⟨offset, text⟩ = Place.ofSource source offset := by
    rw [Place.extend, ← on.rest]
    rfl
  refine ⟨⟨offset, text⟩, ⟨last.offset, []⟩, last.rest, ⟨?_, ?_⟩, rfl, ?_⟩
  · rw [place, span]
    rfl
  · rw [octets, Text.ofBytes_bytes_of_append on.rest]
  · rw [place]
    exact read

/-- What is read at the place of the octets alone is read in them, shifted to their front. -/
theorem rereads_of_parse (steady : rule.steady = true) (fits : rule.Fits) (alone : token.Alone source start gone)
    (read : rule.parse maxDepth start = some (expected, stop)) (ends : stop.rest = []) :
    rule.Rereads source token expected := by
  -- The place in the source is the front of the octets, as far on as the token starts.
  have front : start = (Place.ofSource (token.octets source) 0).shift token.span.start := by
    have offset : start.offset = token.span.start := congrArg Place.offset alone.place
    have rest : start.rest = Text.ofBytes (token.octets source) := alone.rest
    cases start with
    | mk offset rest =>
      subst offset rest
      simp only [Place.shift, Place.ofSource, Cursor.place, Cursor.ofSource, Nat.zero_add, List.drop_zero]
  rw [front, parse_uniform maxDepth rule] at read
  obtain ⟨⟨again, last⟩, first, same⟩ := Option.map_eq_some_iff.mp read
  obtain ⟨shifted, rfl⟩ := Prod.mk.inj same
  have found := (tokenAt?_iff steady fits).mpr ⟨last, first⟩
  refine ⟨again, found, complete_iff.mpr ⟨found, ?_⟩, shifted⟩
  obtain ⟨text, on⟩ := parse_forward maxDepth rule _ _ _ first
  have whole : Text.ofBytes (token.octets source) = text := by
    rw [← List.append_nil text, ← show last.rest = [] from ends]
    exact on.rest
  rw [parse_spans maxDepth rule _ _ _ first]
  calc last.offset = 0 + text.width := on.offset
    _ = (token.octets source).length := by
      rw [Nat.zero_add, ← whole, ← Text.length_bytes, Text.bytes_ofBytes]

end Rule

namespace Grammar

variable {source : Bytes} {token : Token} {start : Place} {gone : Text}

theorem derives_fraction_iff (alone : token.Alone source start gone) :
    Derives Abnf.fraction (token.octets source) ↔ start.rest ∈ Pattern.fraction.language := by
  rw [language_fraction, alone.rest]
  constructor
  · rintro ⟨text, member, legible, same⟩
    rwa [← same, Text.ofBytes_bytes legible]
  · intro member
    rw [← language_fraction] at member
    have split : Pattern.fraction.split (Place.ofSource (token.octets source) 0).rest = some (_, []) :=
      Pattern.split_of_fraction member
    obtain ⟨_, read, _⟩ := Pattern.parse_of_split split
    have legible := Pattern.legible_of_parse rfl rfl (.ofSource (token.octets source) 0) read
    rw [language_fraction] at member
    exact ⟨_, member, legible, Text.bytes_ofBytes _⟩

theorem octet_behind (alone : token.Alone source start gone)
    (ends : token.span.stop = token.span.start + start.rest.width) {octet : UInt8}
    (first : gone.head? = some (.plain octet)) : source[token.span.stop]? = some octet := by
  obtain ⟨tail, rfl⟩ := List.head?_eq_some_iff.mp first
  have whole : Text.ofBytes (source.drop token.span.start) = start.rest ++ .plain octet :: tail :=
    (congrArg Place.rest alone.place).symm
  obtain ⟨after, behind, parts⟩ := Text.exists_rest_of_append whole
  obtain ⟨middle, read, _⟩ := Text.next?_of_ofBytes behind
  rw [ends, ← List.getElem?_drop, parts, ← Text.length_bytes, List.getElem?_append_right (Nat.le_refl _),
    Nat.sub_self, ← UriChar.bytes_of_next? read]
  rfl

/-- Every rule but that of the primitive literals reads the text of a token as the same token when nothing follows.
The primitive literals do so too, but for a floating point numeral that is a fraction: an `e` follows it, and without
that it is a decimal. -/
theorem tokens_reread :
    (∀ rule ∈ catalogue, rule ≠ primitiveLiteral → ∀ source offset token,
      rule.tokenAt? source offset = some token → rule.Rereads source token token) ∧
    ∀ source offset token, primitiveLiteral.tokenAt? source offset = some token →
      (token.value = .typed .double ∧ Derives Abnf.fraction (token.octets source) →
        source[token.span.stop]? = some 'e'.toUInt8 ∧
          primitiveLiteral.Rereads source token (token.withType .decimal)) ∧
      (¬ (token.value = .typed .double ∧ Derives Abnf.fraction (token.octets source)) →
        primitiveLiteral.Rereads source token token) := by
  refine ⟨fun rule member other source offset token found => ?_, fun source offset token found => ?_⟩
  · have steady := catalogue_steady rule member
    have fits := catalogue_fits rule member
    obtain ⟨start, stop, gone, alone, ends, read⟩ := Rule.alone_of_tokenAt? steady fits found
    have again := Rule.parse_firm maxDepth steady (catalogue_firm rule member other) _ _ _ _ read
      (headIn_nothing_iff.mpr ends)
    exact Rule.rereads_of_parse steady fits alone again ends
  · have member : primitiveLiteral ∈ catalogue := by simp [catalogue, primitiveCatalogue]
    have steady := catalogue_steady _ member
    have fits := catalogue_fits _ member
    obtain ⟨start, stop, gone, alone, ends, read⟩ := Rule.alone_of_tokenAt? steady fits found
    obtain ⟨bare, other⟩ := primitiveLiteral_cut read ends
    rw [derives_fraction_iff alone]
    refine ⟨fun fraction => ?_, fun notFraction => ?_⟩
    · obtain ⟨again, behind⟩ := bare fraction
      refine ⟨octet_behind alone ?_ behind, Rule.rereads_of_parse steady fits alone again ends⟩
      obtain ⟨text, on⟩ := Rule.parse_forward maxDepth _ _ _ _ again
      have all := on.rest
      rw [ends, List.append_nil] at all
      rw [Rule.parse_spans maxDepth _ _ _ _ read, all]
      exact on.offset
    · exact Rule.rereads_of_parse steady fits alone (other notFraction) ends

/-- The rule of the floating point numerals reads the fraction in `,1.5e` again, but the primitive literals find a
decimal. The digit before the `e` is an integer in both. -/
theorem tokens_reread_fraction :
    let source := Text.bytes (Text.ofWord ",1.5e")
    let fraction : Token := { kind := .literal, span := { start := 1, stop := 4 }, value := .typed .double }
    let digit : Token := { kind := .literal, span := { start := 3, stop := 4 }, value := .typed .sbyte }
    (double ∈ catalogue ∧ double ≠ primitiveLiteral ∧ double.tokenAt? source 1 = some fraction ∧
      double.Rereads source fraction fraction) ∧
    (primitiveLiteral.tokenAt? source 1 = some fraction ∧ Derives Abnf.fraction (fraction.octets source) ∧
      primitiveLiteral.Rereads source fraction (fraction.withType .decimal)) ∧
    (primitiveLiteral.tokenAt? source 3 = some digit ∧ primitiveLiteral.Rereads source digit digit) := by
  intro source fraction digit
  have member : double ∈ catalogue := by simp [catalogue, primitiveCatalogue]
  have other : double ≠ primitiveLiteral := by
    intro same
    cases same
  have found : double.tokenAt? source 1 = some fraction := by rfl
  have foundToo : primitiveLiteral.tokenAt? source 1 = some fraction := by rfl
  have integer : primitiveLiteral.tokenAt? source 3 = some digit := by rfl
  have derived : Derives Abnf.fraction (fraction.octets source) := by
    refine ⟨Text.ofWord "1.5", ?_, by decide, by rfl⟩
    rw [← language_fraction]
    have split : Pattern.fraction.split (Text.ofWord "1.5") = some (_, []) := rfl
    exact Pattern.mem_language_of_split rfl split
  obtain ⟨rereads, literals⟩ := tokens_reread
  refine ⟨⟨member, other, found, rereads double member other source 1 fraction found⟩,
    ⟨foundToo, derived, ((literals source 1 fraction foundToo).1 ⟨rfl, derived⟩).2⟩, integer, ?_⟩
  refine (literals source 3 digit integer).2 fun typed => ?_
  cases typed.1

end Grammar

end ODataLiteral
