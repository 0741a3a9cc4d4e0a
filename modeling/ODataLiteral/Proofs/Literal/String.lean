import ODataLiteral.Proofs.Json.Space
import ODataLiteral.Proofs.Quotation

/-! Strings between single quotes. A quote closes a string only where no second quote comes right after it, so a row of
quotes is read in one way, whichever of their two forms they have. -/
namespace ODataLiteral

open Abnf (Begins Derives)
open Pattern

namespace Abnf

/-- `SQUOTE = "'" / "%27"`. -/
def singleQuote : Language UriChar := mark '\''

/-- `SP / HTAB / "%20" / "%09"`. -/
def whitespace : Language UriChar := mark ' ' + mark '\t'

/-- `pchar-no-SQUOTE = unreserved / pct-encoded-no-SQUOTE / other-delims / "$" / "&" / "=" / ":" / "@"`, where octets
that are not ASCII may stand in their plain form. -/
def pathChar : Language UriChar :=
  raw Octet.isUnreserved + encoded (· != '\''.toUInt8) + raw Octet.isOtherDelim + raw Octet.isNonAscii +
    raw (Octet.oneOf "$&=:@")

/-- `SQUOTE-in-string / pchar-no-SQUOTE`, where `SQUOTE-in-string = SQUOTE SQUOTE`, or whitespace. -/
def stringUnit : Language UriChar := singleQuote * singleQuote + whitespace + pathChar

/-- What may follow a string although it could be a part of a path: `"&" / CLOSE / COMMA`, or whitespace. -/
def stringFollower : Language UriChar :=
  raw (· == '&'.toUInt8) + mark ')' + mark ',' + whitespace

theorem whitespace_eq : whitespace = character UriChar.isWhitespace := by
  rw [whitespace, mark_eq, mark_eq, character_add]
  rfl

theorem pathChar_eq : pathChar = character UriChar.isPathChar := by
  simp only [pathChar, raw, encoded, character_add]
  congr 1
  funext one
  cases one with
  | plain octet =>
    simp only [UriChar.isPathChar, UriChar.isPlain, UriChar.isEncoded, UriChar.decoded?, Option.any_none,
      Bool.or_false]
  | encoded high low =>
    simp only [UriChar.isPathChar, UriChar.isPlain, Bool.false_or, Bool.or_false]

theorem stringFollower_eq : stringFollower = character fun one =>
    one.isPlain (· == '&'.toUInt8) || one.isDelimiter ')' || one.isDelimiter ',' || one.isWhitespace := by
  simp only [stringFollower, whitespace_eq, mark_eq, raw, character_add]

end Abnf

namespace Pattern

theorem language_quote : quote.language = Abnf.singleQuote :=
  language_delimiter '\''

theorem language_stringUnit : stringUnit.language = Abnf.stringUnit := by
  rw [Abnf.stringUnit, Abnf.whitespace_eq, Abnf.pathChar_eq, Abnf.singleQuote, add_assoc, ← language_delimiter]
  rfl

theorem language_string : Pattern.string.language = Abnf.quoted '\'' Abnf.stringUnit := by
  have unfolded : Pattern.string.language =
      quote.language * Abnf.repeated 0 none stringUnit.language * quote.language * 1 * 1 := rfl
  rw [unfolded, mul_one, mul_one, quote, language_delimiter, language_stringUnit]
  rfl

theorem quote_apart_pathChar : UriChar.Apart (UriChar.isDelimiter '\'') UriChar.isPathChar := by
  refine UriChar.Apart.symm (UriChar.apart_delimiter rfl fun high low => ?_)
  show (Octet.hexValue high * 16 + Octet.hexValue low != '\''.toUInt8 &&
    Octet.hexValue high * 16 + Octet.hexValue low == '\''.toUInt8) = false
  rw [bne, Bool.not_and_self]

theorem quote_apart_whitespace : UriChar.Apart (UriChar.isDelimiter '\'') UriChar.isWhitespace :=
  delimiter_apart_whitespace (by decide) (by decide)

/-- A quote goes on only with another quote after it. -/
theorem split_stringUnit_of_quote {first : UriChar} {tail : Text} (isQuote : first.isDelimiter '\'' = true) :
    stringUnit.split (first :: tail) = (quote.split tail).map fun (second, rest) => (first :: second, rest) := by
  have space : (char UriChar.isWhitespace).split (first :: tail) = none := by
    rw [split_char_cons, quote_apart_whitespace first isQuote]
    rfl
  have path : pathChar.split (first :: tail) = none := by
    rw [pathChar, split_char_cons, quote_apart_pathChar first isQuote]
    rfl
  have pair : (seq quote quote).split (first :: tail) =
      (quote.split tail).map fun (second, rest) => (first :: second, rest) := by
    rw [split_seq, quote, delimiter, split_char_cons, if_pos isQuote]
    rfl
  rw [stringUnit, orElse_eq_alt, orElse_eq_alt, append_eq_seq, split_alt, split_alt, space, path, pair]
  exact Option.or_none

theorem split_stringUnit_of_other {character : UriChar} {tail : Text} (other : character.isDelimiter '\'' = false)
    (accepted : character.isWhitespace = true ∨ character.isPathChar = true) :
    stringUnit.split (character :: tail) = some ([character], tail) := by
  have pair : (seq quote quote).split (character :: tail) = none := by
    rw [split_seq, quote, delimiter, split_char_cons, other]
    rfl
  rw [stringUnit, orElse_eq_alt, orElse_eq_alt, append_eq_seq, split_alt, split_alt, pair, Option.none_or, pathChar,
    split_char_cons, split_char_cons]
  rcases accepted with space | path
  · rw [if_pos space, Option.some_or]
  · rw [if_pos path]
    split <;> rfl

/-- A unit is taken whatever follows it. -/
theorem stringUnit_takes : stringUnit.Takes Grammar.anything := by
  intro text member tail _
  rw [language_stringUnit, Abnf.stringUnit, Abnf.whitespace_eq, Abnf.pathChar_eq] at member
  have single {accepts : UriChar → Bool} (apart : UriChar.Apart (UriChar.isDelimiter '\'') accepts)
      {character : UriChar} (accepted : accepts character = true) : character.isDelimiter '\'' = false :=
    apart.symm character accepted
  rcases (Language.mem_add _ _ _).mp member with member | ⟨character, path, rfl⟩
  · rcases (Language.mem_add _ _ _).mp member with member | ⟨character, space, rfl⟩
    · obtain ⟨_, one, _, two, rfl⟩ := Language.mem_mul.mp member
      obtain ⟨first, isQuote, rfl⟩ := Abnf.mem_mark.mp one
      obtain ⟨second, isQuoteToo, rfl⟩ := Abnf.mem_mark.mp two
      have goesOn : quote.split (second :: tail) = some ([second], tail) := if_pos isQuoteToo
      rw [List.append_assoc, List.singleton_append, split_stringUnit_of_quote isQuote, List.singleton_append, goesOn]
      rfl
    · exact split_stringUnit_of_other (single quote_apart_whitespace space) (.inl space)
  · exact split_stringUnit_of_other (single quote_apart_pathChar path) (.inr path)

/-- What may come after a string: no quote, and no character that would carry the string on. -/
def endsString (character : UriChar) : Bool :=
  !(character.isDelimiter '\'' || character.isStray)

/-- No unit begins with a quote that no other quote follows. -/
theorem split_stringUnit_eq_none {last : UriChar} {tail : Text} (isQuote : last.isDelimiter '\'' = true)
    (next : HeadIn (fun character => !character.isDelimiter '\'') tail) : stringUnit.split (last :: tail) = none := by
  have refused : quote.split tail = none :=
    split_eq_none_of_head rfl rfl fun character first => by simpa [quote, delimiter, leads] using next character first
  rw [split_stringUnit_of_quote isQuote, refused]
  rfl

theorem headIn_endsString_iff {tail : Text} : HeadIn endsString tail ↔
    HeadIn (fun character => !character.isDelimiter '\'') tail ∧ HeadIn (fun character => !character.isStray) tail := by
  cases tail <;> simp [HeadIn, endsString]

theorem string_exactly : Pattern.string.Exactly endsString := by
  refine Takes.exactly ?_ rfl ?_
  · intro text member tail next
    obtain ⟨noQuote, noStray⟩ := headIn_endsString_iff.mp next
    have quoted : (quote ++ many stringUnit ++ quote).split (text ++ tail) = some (text, tail) := by
      rw [language_string, ← language_stringUnit] at member
      exact split_quoted_of_mem stringUnit_takes rfl member fun last isQuote =>
        split_stringUnit_eq_none isQuote noQuote
    have ahead := split_notBefore_char_iff.mpr ⟨noQuote, rfl, rfl⟩
    have aheadToo := split_notBefore_char_iff.mpr ⟨noStray, rfl, rfl⟩
    exact split_seq_iff.mpr ⟨_, _, _, split_seq_iff.mpr ⟨_, _, _, quoted, ahead, rfl⟩, aheadToo, by simp⟩
  · intro text taken rest read
    obtain ⟨_, _, _, ahead, stray, _⟩ := split_seq_iff.mp read
    obtain ⟨_, _, _, _, quoted, _⟩ := split_seq_iff.mp ahead
    obtain ⟨noStray, _, rfl⟩ := split_notBefore_char_iff.mp stray
    obtain ⟨noQuote, _, rfl⟩ := split_notBefore_char_iff.mp quoted
    exact headIn_endsString_iff.mpr ⟨noQuote, noStray⟩

end Pattern

section Follower

theorem not_begins_singleQuote_iff {octets : Bytes} : ¬ Begins Abnf.singleQuote octets ↔
    HeadIn (fun character => !character.isDelimiter '\'') (Text.ofBytes octets) := by
  rw [Abnf.singleQuote, Abnf.mark_eq]
  exact not_begins_character_iff rfl

/-- A path character after a string must be one of those that may follow it. -/
theorem begins_follower_iff {octets : Bytes} :
    (Begins Abnf.pathChar octets → Begins Abnf.stringFollower octets) ↔
      HeadIn (fun character => !character.isStray) (Text.ofBytes octets) := by
  rw [Abnf.pathChar_eq, Abnf.stringFollower_eq, Abnf.begins_character_iff rfl, Abnf.begins_character_iff rfl]
  unfold HeadIn
  cases (Text.ofBytes octets).head? with
  | none => simp
  | some character =>
    simp only [Option.some.injEq, exists_eq_left', forall_eq', UriChar.isStray, Bool.not_and, Bool.not_not]
    cases character.isPathChar <;> simp

end Follower

namespace Grammar

/-- A string is read exactly where a quotation stands that no quote follows, and no path character but one that may
follow a string. There is one such quotation at an offset at the most, whatever follows it but a quote: the greedy scan
takes its units and stops at its closing quote. -/
theorem string_exact (source : Bytes) (offset : Nat) :
    (∀ stop, (∃ token, string.tokenAt? source offset = some token ∧ token.span.stop = stop) ↔
      (∃ opening units closing, Quotation '\'' Abnf.stringUnit source offset stop opening units closing) ∧
        ¬ Begins Abnf.singleQuote (source.drop stop) ∧
        (Begins Abnf.pathChar (source.drop stop) → Begins Abnf.stringFollower (source.drop stop))) ∧
    (∀ token, string.tokenAt? source offset = some token →
      token.kind = .literal ∧ token.span.start = offset ∧ token.value = .typed .string) ∧
    ∀ stop opening units closing, Quotation '\'' Abnf.stringUnit source offset stop opening units closing →
      ¬ Begins Abnf.singleQuote (source.drop stop) →
      (many stringUnit).scan (source.drop (offset + opening.length)) =
          some (Text.ofBytes units.flatten, closing ++ source.drop stop) ∧
        ∀ other opening' units' closing', Quotation '\'' Abnf.stringUnit source offset other opening' units' closing' →
          ¬ Begins Abnf.singleQuote (source.drop other) →
          stop = other ∧ opening = opening' ∧ units = units' ∧ closing = closing' := by
  have found (token : Token) : string.tokenAt? source offset = some token ↔ _ :=
    Rule.tokenAt?_lexeme_iff string_exactly rfl rfl fun _ _ _ _ => trivial
  refine ⟨fun stop => ?_, fun token read => ?_, fun stop opening units closing one noQuote => ?_⟩
  · rw [exists_quotation_iff, not_begins_singleQuote_iff, begins_follower_iff, ← headIn_endsString_iff,
      ← language_string]
    simp only [found]
    constructor
    · rintro ⟨_, ⟨stop, _, inside, derived, next, _, rfl⟩, rfl⟩
      exact ⟨⟨inside, derived⟩, next⟩
    · rintro ⟨⟨inside, derived⟩, next⟩
      exact ⟨_, ⟨stop, _, inside, derived, next, rfl, rfl⟩, rfl⟩
  · obtain ⟨_, _, _, _, _, ⟨⟩, rfl⟩ := (found token).mp read
    exact ⟨rfl, rfl, rfl⟩
  · have halts {stop : Nat} (noQuote : ¬ Begins Abnf.singleQuote (source.drop stop)) (last : UriChar)
        (isQuote : last.isDelimiter '\'' = true) :
        stringUnit.split (last :: Text.ofBytes (source.drop stop)) = none :=
      split_stringUnit_eq_none isQuote (not_begins_singleQuote_iff.mp noQuote)
    rw [← language_stringUnit] at one
    refine ⟨one.scan_units rfl stringUnit_takes rfl (halts noQuote), ?_⟩
    intro other opening' units' closing' two noQuoteToo
    rw [← language_stringUnit] at two
    exact one.unique stringUnit_takes rfl two (halts noQuote) (halts noQuoteToo)

/-- In `'a'%27b')` a plain and an encoded quote make up one unit, and the parenthesis may follow the string. -/
theorem string_exact_mixed_quotes :
    Quotation '\'' Abnf.stringUnit [0x27, 0x61, 0x27, 0x25, 0x32, 0x37, 0x62, 0x27, 0x29] 0 8
        [0x27] [[0x61], [0x27, 0x25, 0x32, 0x37], [0x62]] [0x27] ∧
      ¬ Begins Abnf.singleQuote [0x29] ∧ Begins Abnf.pathChar [0x29] ∧
      (∃ token, string.tokenAt? [0x27, 0x61, 0x27, 0x25, 0x32, 0x37, 0x62, 0x27, 0x29] 0 = some token ∧
        token.span.stop = 8 ∧ token.value = .typed .string) ∧
      ∀ stop opening units closing,
        Quotation '\'' Abnf.stringUnit [0x27, 0x61, 0x27, 0x25, 0x32, 0x37, 0x62, 0x27, 0x29] 0 stop
          opening units closing →
        ¬ Begins Abnf.singleQuote
          (List.drop stop [0x27, 0x61, 0x27, 0x25, 0x32, 0x37, 0x62, 0x27, 0x29]) → stop = 8 := by
  have quote : Derives (Abnf.mark '\'') [0x27] := Abnf.derives_mark_iff.mpr ⟨.plain 0x27, rfl, by decide, rfl⟩
  have encodedQuote : Derives (Abnf.mark '\'') [0x25, 0x32, 0x37] :=
    Abnf.derives_mark_iff.mpr ⟨.encoded 0x32 0x37, rfl, by decide, rfl⟩
  have letter (octet : UInt8) (path : UriChar.isPathChar (.plain octet) = true)
      (legible : UriChar.Legible (.plain octet)) : Derives Abnf.stringUnit [octet] := by
    have one : Derives Abnf.pathChar [octet] :=
      Abnf.pathChar_eq ▸ Abnf.derives_character_iff.mpr ⟨.plain octet, path, legible, rfl⟩
    exact one.mono le_sup_right
  have pair : Derives Abnf.stringUnit [0x27, 0x25, 0x32, 0x37] :=
    (quote.append encodedQuote).mono (le_sup_left.trans le_sup_left)
  have quotation : Quotation '\'' Abnf.stringUnit [0x27, 0x61, 0x27, 0x25, 0x32, 0x37, 0x62, 0x27, 0x29] 0 8
      [0x27] [[0x61], [0x27, 0x25, 0x32, 0x37], [0x62]] [0x27] := by
    refine ⟨by decide, by decide, quote, ?_, quote⟩
    simp only [List.forall_mem_cons]
    exact ⟨letter 0x61 (by decide) (by decide), pair, letter 0x62 (by decide) (by decide), List.forall_mem_nil _⟩
  have noQuote : ¬ Begins Abnf.singleQuote [0x29] := by
    refine not_begins_singleQuote_iff.mpr ?_
    rintro character ⟨⟩
    rfl
  have path : Begins Abnf.pathChar [0x29] := by
    rw [Abnf.pathChar_eq, Abnf.begins_character_iff rfl]
    exact ⟨.plain 0x29, by decide, by decide⟩
  have follows : Begins Abnf.pathChar [0x29] → Begins Abnf.stringFollower [0x29] := by
    refine begins_follower_iff.mpr ?_
    rintro character ⟨⟩
    rfl
  obtain ⟨exists_iff, shape, greedy⟩ := string_exact [0x27, 0x61, 0x27, 0x25, 0x32, 0x37, 0x62, 0x27, 0x29] 0
  obtain ⟨token, found, ends⟩ := (exists_iff 8).mpr ⟨⟨_, _, _, quotation⟩, noQuote, follows⟩
  obtain ⟨_, unique⟩ := greedy 8 _ _ _ quotation noQuote
  refine ⟨quotation, noQuote, path, ⟨token, found, ends, (shape token found).2.2⟩, ?_⟩
  exact fun stop opening units closing other noQuoteToo =>
    (unique stop opening units closing other noQuoteToo).1.symm

end Grammar

end ODataLiteral
