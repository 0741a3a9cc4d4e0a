import ODataLiteral.Proofs.Rule.Exact

/-! Lexemes at the offsets of a source. Where a pattern takes a text of its grammar before some characters and before
no others, its lexeme is read exactly where the octets spell such a text and one of those characters, or nothing,
comes next. -/
namespace ODataLiteral

open Abnf (Derives)
open Pattern

namespace Pattern

variable {pattern : Pattern} {follow : UriChar → Bool} {text taken rest : Text}

/-- A pattern that takes a text of its grammar where a character of a class follows, or nothing, and only there. -/
def Exactly (pattern : Pattern) (follow : UriChar → Bool) : Prop :=
  ∀ text tail, pattern.split (text ++ tail) = some (text, tail) ↔ text ∈ pattern.language ∧ HeadIn follow tail

theorem Takes.exactly (takes : pattern.Takes follow) (steady : pattern.steady = true)
    (ahead : ∀ text taken rest, pattern.split text = some (taken, rest) → HeadIn follow rest) :
    pattern.Exactly follow := by
  intro text tail
  constructor
  · exact fun read => ⟨mem_language_of_split steady read, ahead _ _ _ read⟩
  · exact fun member => takes text member.1 tail member.2

/-- Nothing is taken before a character of a class, and there only. -/
theorem split_notBefore_char_iff {accepts : UriChar → Bool} :
    (notBefore (char accepts)).split text = some (taken, rest) ↔
      HeadIn (fun character => !accepts character) text ∧ taken = [] ∧ text = rest := by
  rw [split_notBefore_iff]
  refine and_congr_left fun _ => ?_
  cases text with
  | nil => simp [HeadIn]
  | cons character tail => simp [HeadIn]

theorem not_begins_character_iff {accepts : UriChar → Bool} (clean : accepts (.plain UriChar.percent) = false)
    {octets : Bytes} : ¬ Abnf.Begins (Abnf.character accepts) octets ↔
      HeadIn (fun character => !accepts character) (Text.ofBytes octets) := by
  simp [Abnf.begins_character_iff clean, HeadIn]

end Pattern

namespace Rule

variable {kind : Kind} {meaning : Meaning} {pattern : Pattern} {follow : UriChar → Bool} {source : Bytes}
  {offset : Nat} {token : Token}

/-- A lexeme is read from the octets that spell a text of its pattern, if that text has a value. -/
theorem tokenAt?_lexeme_iff (exactly : pattern.Exactly follow) (steady : (lexeme kind meaning pattern).steady = true)
    (clean : pattern.clean = true) (fits : meaning.Fits pattern) :
    (lexeme kind meaning pattern).tokenAt? source offset = some token ↔
      ∃ stop value, stop ≤ source.length ∧ Derives pattern.language (source.slice offset stop) ∧
        HeadIn follow (Text.ofBytes (source.drop stop)) ∧
        meaning.value? (Text.ofBytes (source.slice offset stop)) = some value ∧
        token = { kind, span := { start := offset, stop }, value } := by
  have parts : pattern.steady = true ∧ pattern.nullable = false := by
    simpa only [Rule.steady, Bool.and_eq_true, Bool.not_eq_true'] using steady
  constructor
  · intro found
    have shows : ((lexeme kind meaning pattern).parse maxDepth).Shows source fun _ => True :=
      fun _ _ _ _ _ => trivial
    obtain ⟨_, inside, _⟩ := Rule.span_of_shows steady fits shows found
    obtain ⟨stop, read⟩ := (Rule.tokenAt?_iff steady fits).mp found
    obtain ⟨text, value, taken, known, rfl⟩ := Parser.lexeme_iff.mp read
    have start := Place.In.ofSource source offset
    have on := Pattern.parse_advances taken
    have legible := Pattern.legible_of_parse parts.1 clean start taken
    have octets : source.slice offset stop.offset = text.bytes := start.slice on
    have split := (Pattern.parse_iff.mp taken).1
    rw [on.rest, exactly, start.advances on] at split
    refine ⟨stop.offset, value, inside, ⟨text, split.1, legible, octets.symm⟩, split.2, ?_, rfl⟩
    rw [octets, Text.ofBytes_bytes legible, known]
  · rintro ⟨stop, value, inside, ⟨text, member, legible, octets⟩, next, known, rfl⟩
    have on := Place.advances_of_slice inside (ne_nil_of_mem parts.2 member) legible octets
    rw [← octets, Text.ofBytes_bytes legible] at known
    refine (Rule.tokenAt?_iff steady fits).mpr ⟨Place.ofSource source stop, Parser.lexeme_iff.mpr ?_⟩
    refine ⟨text, value, Pattern.parse_iff.mpr ⟨?_, on.offset⟩, known, rfl⟩
    rw [on.rest]
    exact (exactly text _).mpr ⟨member, next⟩

/-- A literal whose type is all its meaning is read from all octets that spell a text of its pattern. -/
theorem tokenAt?_typed_exactly_iff {type : EdmType} (exactly : pattern.Exactly follow)
    (steady : (lexeme kind (.typed type) pattern).steady = true) (clean : pattern.clean = true) :
    (lexeme kind (.typed type) pattern).tokenAt? source offset = some token ↔
      ∃ stop, stop ≤ source.length ∧ Derives pattern.language (source.slice offset stop) ∧
        HeadIn follow (Text.ofBytes (source.drop stop)) ∧
        token = { kind, span := { start := offset, stop }, value := .typed type } := by
  rw [tokenAt?_lexeme_iff exactly steady clean fun _ _ _ _ => trivial]
  constructor
  · rintro ⟨stop, _, inside, derived, next, ⟨⟩, rfl⟩
    exact ⟨stop, inside, derived, next, rfl⟩
  · rintro ⟨stop, inside, derived, next, rfl⟩
    exact ⟨stop, _, inside, derived, next, rfl, rfl⟩

end Rule

end ODataLiteral
