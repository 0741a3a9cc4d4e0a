import Mathlib.Algebra.Ring.Parity
import ODataLiteral.Proofs.Boundary
import ODataLiteral.Proofs.Json.Terminals
import ODataLiteral.Proofs.Quotation

/-! Strings between quotation marks. A mark inside a string stands behind an escape character, and an escape character
may itself be escaped, so a mark closes the string exactly where the row of escape characters before it is even. -/
namespace ODataLiteral

open Abnf (Derives)
open Pattern
open Utf8 (Valid encode)

namespace Text

variable {before one two text : Text} {character : UriChar}

/-- A text whose last character is an escape character that no escape character before it takes. -/
def EndsInEscape (text : Text) : Prop :=
  Odd (text.reverse.takeWhile (UriChar.isDelimiter '\\')).length

theorem not_endsInEscape_nil : ¬ EndsInEscape [] := by
  simp [EndsInEscape]

theorem endsInEscape_append_singleton :
    EndsInEscape (text ++ [character]) ↔ character.isDelimiter '\\' = true ∧ ¬ EndsInEscape text := by
  rw [EndsInEscape, EndsInEscape, List.reverse_append, List.reverse_singleton, List.singleton_append]
  cases escape : character.isDelimiter '\\' with
  | false => simp [escape]
  | true => simp [escape, Nat.odd_add_one]

/-- A text that can stand behind another one in a string: all of its quotation marks are escaped, and it does not end in
an escape. -/
structure Shielded (before text : Text) : Prop where
  marks : ∀ front mark back, text = front ++ mark :: back → mark.isDelimiter '"' = true →
    EndsInEscape (before ++ front)
  ends : ¬ EndsInEscape (before ++ text)

theorem Shielded.nil (closed : ¬ EndsInEscape before) : Shielded before [] where
  marks front mark back same := by simp at same
  ends := by rwa [List.append_nil]

theorem Shielded.append (shielded : Shielded before one) (further : Shielded (before ++ one) two) :
    Shielded before (one ++ two) where
  marks front mark back same isMark := by
    obtain ⟨rest, rfl, behind⟩ | ⟨rest, rfl, behind⟩ := List.append_eq_append_iff.mp same
    · rw [← List.append_assoc]
      exact further.marks rest mark back behind isMark
    · cases rest with
      | nil =>
        have escaped := further.marks [] mark back behind.symm isMark
        simpa using escaped
      | cons head others =>
        obtain ⟨rfl, rfl⟩ := List.cons.inj behind
        exact shielded.marks front _ others rfl isMark
  ends := by
    rw [← List.append_assoc]
    exact further.ends

/-- A character that is neither an escape character nor a quotation mark. -/
theorem Shielded.singleton (quote : character.isDelimiter '"' = false) (escape : character.isDelimiter '\\' = false) :
    Shielded before [character] where
  marks front mark back same isMark := by
    cases front with
    | nil =>
      obtain ⟨rfl, _⟩ := List.cons.inj same
      cases quote.symm.trans isMark
    | cons head others => simp at same
  ends accepted := by
    cases escape.symm.trans (endsInEscape_append_singleton.mp accepted).1

/-- An escape character and the character that it takes, whatever that is. -/
theorem Shielded.pair {escape : UriChar} (closed : ¬ EndsInEscape before) (escapes : escape.isDelimiter '\\' = true) :
    Shielded before [escape, character] := by
  have opens : EndsInEscape (before ++ [escape]) := endsInEscape_append_singleton.mpr ⟨escapes, closed⟩
  have quote : escape.isDelimiter '"' = false := by
    have apart : UriChar.Apart (UriChar.isDelimiter '\\') (UriChar.isDelimiter '"') :=
      UriChar.delimiters_apart (by decide)
    exact apart escape escapes
  refine ⟨fun front mark back same isMark => ?_, fun ends => ?_⟩
  · cases front with
    | nil =>
      obtain ⟨rfl, _⟩ := List.cons.inj same
      cases quote.symm.trans isMark
    | cons head others =>
      obtain ⟨rfl, rest⟩ := List.cons.inj same
      cases others with
      | nil => exact opens
      | cons next others => simp at rest
  · rw [← List.singleton_append, ← List.append_assoc] at ends
    exact (endsInEscape_append_singleton.mp ends).2 opens

/-- Characters none of which is an escape character or a quotation mark. -/
theorem Shielded.row (closed : ¬ EndsInEscape before)
    (others : ∀ character ∈ text, character.isDelimiter '"' = false ∧ character.isDelimiter '\\' = false) :
    Shielded before text := by
  induction text generalizing before with
  | nil => exact .nil closed
  | cons character rest ih =>
    obtain ⟨⟨quote, escape⟩, others⟩ := List.forall_mem_cons.mp others
    have first : Shielded before [character] := .singleton quote escape
    exact first.append (ih first.ends others)

end Text

section Forms

variable {before text : Text} {forms : List Text} {accepts : UriChar → Bool}

theorem jsonPlain_shielded {character : UriChar} (plain : character.isJsonPlain = true) :
    Text.Shielded before [character] :=
  .singleton ((delimiter_apart_jsonPlain (.inl rfl)).symm character plain)
    ((delimiter_apart_jsonPlain (.inr rfl)).symm character plain)

/-- An escape character takes one character, and only hexadecimal digits may come after that in the same form. -/
theorem exists_taken_of_escaped (member : text ∈ Abnf.escaped) :
    ∃ character rest, text = character :: rest ∧
      ∀ digit ∈ rest, UriChar.isPlain Octet.isHexDigit digit = true := by
  rw [Abnf.escaped] at member
  simp only [Abnf.quotationMark, Abnf.escape, Abnf.mark_eq, Abnf.raw, Abnf.character_add] at member
  rcases (Language.mem_add _ _ _).mp member with ⟨character, _, rfl⟩ | unicode
  · exact ⟨character, [], rfl, List.forall_mem_nil _⟩
  · obtain ⟨_, ⟨character, _, rfl⟩, rest, digits, rfl⟩ := Language.mem_mul.mp unicode
    exact ⟨character, rest, rfl, (Abnf.mem_repeated_character.mp digits).2.2⟩

theorem escaped_shielded {escape : UriChar} (closed : ¬ before.EndsInEscape) (escapes : escape.isDelimiter '\\' = true)
    (member : text ∈ Abnf.escaped) : Text.Shielded before (escape :: text) := by
  obtain ⟨character, rest, rfl, digits⟩ := exists_taken_of_escaped member
  have pair : Text.Shielded before [escape, character] := .pair closed escapes
  refine pair.append (.row pair.ends fun digit inside => ?_)
  exact ⟨plain_apart_delimiter (by decide) digit (digits digit inside),
    plain_apart_delimiter (by decide) digit (digits digit inside)⟩

theorem charInJson_shielded (closed : ¬ before.EndsInEscape) (member : text ∈ Abnf.charInJson) :
    Text.Shielded before text := by
  rw [Abnf.charInJson, ← character_jsonPlain] at member
  rcases (Language.mem_add _ _ _).mp member with ⟨character, plain, rfl⟩ | escaped
  · exact jsonPlain_shielded plain
  · obtain ⟨_, one, rest, two, rfl⟩ := Language.mem_mul.mp escaped
    obtain ⟨escape, escapes, rfl⟩ := Abnf.mem_mark.mp one
    exact escaped_shielded closed escapes two

/-- The forms of a string leave no quotation mark without an escape before it. -/
theorem forms_shielded (closed : ¬ before.EndsInEscape) (every : ∀ form ∈ forms, form ∈ Abnf.charInJson) :
    Text.Shielded before forms.flatten := by
  induction forms generalizing before with
  | nil => exact .nil closed
  | cons form others ih =>
    obtain ⟨first, every⟩ := List.forall_mem_cons.mp every
    have here := charInJson_shielded closed first
    exact here.append (ih here.ends every)

end Forms

namespace Pattern

theorem jsonChar_takes : jsonChar.Takes Grammar.anything :=
  takes_of_deterministic rfl jsonChar_deterministic

theorem split_jsonChar_eq_none {last : UriChar} (tail : Text) (isMark : last.isDelimiter '"' = true) :
    jsonChar.split (last :: tail) = none := by
  refine split_eq_none_of_head rfl rfl ?_
  rintro character ⟨⟩
  exact doubleQuote_apart_jsonChar last isMark

theorem jsonString_exactly : Pattern.jsonString.Exactly Grammar.anything :=
  (takes_of_deterministic rfl jsonString_deterministic).exactly rfl fun _ _ _ _ _ _ => rfl

theorem language_jsonString : Pattern.jsonString.language = Abnf.quoted '"' Abnf.charInJson := by
  rw [Abnf.quoted, ← language_jsonChar, ← language_delimiter]
  rfl

end Pattern

namespace Quotation

variable {source : Bytes} {offset stop : Nat} {opening closing : Bytes} {forms : List Bytes}

/-- Of the quotation marks after the first one, the last is the only one that no unpaired escape stands before. -/
theorem closes_unescaped (quotation : Quotation '"' Abnf.charInJson source offset stop opening forms closing)
    {front back : Text} {mark : UriChar} (same : Text.ofBytes (forms.flatten ++ closing) = front ++ mark :: back)
    (isMark : mark.isDelimiter '"' = true) : back = [] ↔ ¬ front.EndsInEscape := by
  obtain ⟨last, _, legible, rfl⟩ := Abnf.derives_mark_iff.mp quotation.closes
  have single : Text.ofBytes last.bytes = [last] := by simpa using Text.ofBytes_character_append legible []
  rw [Abnf.ofBytes_flatten_append quotation.every, single] at same
  have shielded := forms_shielded Text.not_endsInEscape_nil quotation.mem_unit
  rcases List.eq_nil_or_concat back with rfl | ⟨inner, character, rfl⟩
  · obtain ⟨rfl, _⟩ := List.append_inj' same rfl
    simpa using shielded.ends
  · rw [List.concat_eq_append, ← List.cons_append, ← List.append_assoc] at same
    obtain ⟨parts, _⟩ := List.append_inj' same rfl
    simpa using shielded.marks front mark inner parts isMark

end Quotation

namespace Grammar

theorem jsonString_tokenAt?_iff {source : Bytes} {offset : Nat} {token : Token} :
    jsonString.tokenAt? source offset = some token ↔
      ∃ stop opening forms closing text, Quotation '"' Abnf.charInJson source offset stop opening forms closing ∧
        encode text = forms.flatten ∧ token = ⟨.literal, ⟨offset, stop⟩, .json (.string text)⟩ := by
  rw [jsonString, Rule.tokenAt?_lexeme_iff jsonString_exactly rfl rfl Meaning.jsonString_fits, language_jsonString]
  constructor
  · rintro ⟨stop, value, inside, derived, _, known, rfl⟩
    obtain ⟨opening, forms, closing, quotation⟩ := exists_quotation_iff.mpr ⟨inside, derived⟩
    rw [Meaning.value?, quotation.bytes_between] at known
    obtain ⟨text, decoded, rfl⟩ := Option.map_eq_some_iff.mp known
    exact ⟨stop, opening, forms, closing, text, quotation, Utf8.decode?_eq_some_iff.mp decoded, rfl⟩
  · rintro ⟨stop, opening, forms, closing, text, quotation, written, rfl⟩
    obtain ⟨inside, derived⟩ := exists_quotation_iff.mp ⟨_, _, _, quotation⟩
    refine ⟨stop, _, inside, derived, fun _ _ => rfl, ?_, rfl⟩
    rw [Meaning.value?, quotation.bytes_between, Utf8.decode?_eq_some_iff.mpr written]
    rfl

/-- A JSON string is read exactly where a quotation of JSON characters stands whose body is UTF-8, and its value is that
body as it is written. There is one such quotation at an offset at the most, split in one way, and its last mark is the
first one behind an even row of escape characters. -/
theorem jsonString_exact (source : Bytes) (offset : Nat) :
    (∀ stop, (∃ token, jsonString.tokenAt? source offset = some token ∧ token.span.stop = stop) ↔
      ∃ opening forms closing, Quotation '"' Abnf.charInJson source offset stop opening forms closing ∧
        Valid forms.flatten) ∧
    (∀ token, jsonString.tokenAt? source offset = some token →
      ∃ opening forms closing text,
        Quotation '"' Abnf.charInJson source offset token.span.stop opening forms closing ∧
        token.kind = .literal ∧ token.span.start = offset ∧ token.value = .json (.string text) ∧
        encode text = forms.flatten) ∧
    ∀ stop opening forms closing, Quotation '"' Abnf.charInJson source offset stop opening forms closing →
      (∀ front mark back, Text.ofBytes (forms.flatten ++ closing) = front ++ mark :: back →
        mark.isDelimiter '"' = true → (back = [] ↔ ¬ Text.EndsInEscape front)) ∧
      ∀ other opening' forms' closing', Quotation '"' Abnf.charInJson source offset other opening' forms' closing' →
        stop = other ∧ opening = opening' ∧ forms = forms' ∧ closing = closing' := by
  refine ⟨fun stop => ?_, fun token found => ?_, fun stop opening forms closing one => ⟨?_, ?_⟩⟩
  · constructor
    · rintro ⟨token, found, rfl⟩
      obtain ⟨_, opening, forms, closing, text, quotation, written, rfl⟩ := jsonString_tokenAt?_iff.mp found
      exact ⟨opening, forms, closing, quotation, written ▸ ⟨text.toList, rfl⟩⟩
    · rintro ⟨opening, forms, closing, quotation, valid⟩
      obtain ⟨text, decoded⟩ := Option.isSome_iff_exists.mp (Utf8.decode?_isSome_iff.mpr valid)
      have written : encode text = forms.flatten := Utf8.decode?_eq_some_iff.mp decoded
      exact ⟨_, jsonString_tokenAt?_iff.mpr ⟨stop, opening, forms, closing, text, quotation, written, rfl⟩, rfl⟩
  · obtain ⟨_, opening, forms, closing, text, quotation, written, rfl⟩ := jsonString_tokenAt?_iff.mp found
    exact ⟨opening, forms, closing, text, quotation, rfl, rfl, rfl, written⟩
  · exact fun front mark back same isMark => one.closes_unescaped same isMark
  · intro other opening' forms' closing' two
    rw [← language_jsonChar] at one two
    exact one.unique jsonChar_takes rfl two (fun _ => split_jsonChar_eq_none _) fun _ => split_jsonChar_eq_none _

/-- In `"\%22%5C\"` the encoded quotation mark is escaped, and the escape character before the last one is. -/
theorem jsonString_exact_mixed_escapes :
    Quotation '"' Abnf.charInJson [0x22, 0x5C, 0x25, 0x32, 0x32, 0x25, 0x35, 0x43, 0x5C, 0x22] 0 10
        [0x22] [[0x5C, 0x25, 0x32, 0x32], [0x25, 0x35, 0x43, 0x5C]] [0x22] ∧
      (∃ token, jsonString.tokenAt? [0x22, 0x5C, 0x25, 0x32, 0x32, 0x25, 0x35, 0x43, 0x5C, 0x22] 0 = some token ∧
        token.span.start = 0 ∧ token.span.stop = 10) ∧
      Text.EndsInEscape [.plain 0x5C] ∧
      ∀ stop opening forms closing,
        Quotation '"' Abnf.charInJson [0x22, 0x5C, 0x25, 0x32, 0x32, 0x25, 0x35, 0x43, 0x5C, 0x22] 0 stop
          opening forms closing →
        stop = 10 ∧ forms = [[0x5C, 0x25, 0x32, 0x32], [0x25, 0x35, 0x43, 0x5C]] := by
  have mark : Derives (Abnf.mark '"') [0x22] := Abnf.derives_mark_iff.mpr ⟨.plain 0x22, rfl, by decide, rfl⟩
  have encodedMark : Derives Abnf.quotationMark [0x25, 0x32, 0x32] :=
    Abnf.derives_mark_iff.mpr ⟨.encoded 0x32 0x32, rfl, by decide, rfl⟩
  have escape : Derives Abnf.escape [0x5C] := Abnf.derives_mark_iff.mpr ⟨.plain 0x5C, rfl, by decide, rfl⟩
  have encodedEscape : Derives Abnf.escape [0x25, 0x35, 0x43] :=
    Abnf.derives_mark_iff.mpr ⟨.encoded 0x35 0x43, rfl, by decide, rfl⟩
  have escapes {first second : Bytes} (one : Derives Abnf.escape first)
      (two : Derives (Abnf.quotationMark + Abnf.escape) second) : Derives Abnf.charInJson (first ++ second) := by
    have within : Abnf.quotationMark + Abnf.escape ≤ Abnf.escaped :=
      (le_sup_left.trans le_sup_left).trans le_sup_left
    exact (one.append (two.mono within)).mono le_sup_right
  have quotation : Quotation '"' Abnf.charInJson [0x22, 0x5C, 0x25, 0x32, 0x32, 0x25, 0x35, 0x43, 0x5C, 0x22] 0 10
      [0x22] [[0x5C, 0x25, 0x32, 0x32], [0x25, 0x35, 0x43, 0x5C]] [0x22] := by
    refine ⟨by decide, by decide, mark, ?_, mark⟩
    simp only [List.forall_mem_cons]
    exact ⟨escapes escape (encodedMark.mono le_sup_left), escapes encodedEscape (escape.mono le_sup_right),
      List.forall_mem_nil _⟩
  obtain ⟨exists_iff, shape, unique⟩ :=
    jsonString_exact [0x22, 0x5C, 0x25, 0x32, 0x32, 0x25, 0x35, 0x43, 0x5C, 0x22] 0
  obtain ⟨first, sole⟩ := unique 10 _ _ _ quotation
  obtain ⟨token, found, ends⟩ := (exists_iff 10).mpr ⟨_, _, _, quotation, Utf8.valid_of_ascii (by decide +kernel)⟩
  obtain ⟨_, _, _, _, _, _, starts, _, _⟩ := shape token found
  have inner : Text.EndsInEscape [.plain 0x5C] := by
    by_contra unescaped
    have last := (first [.plain 0x5C] (.encoded 0x32 0x32)
      [.encoded 0x35 0x43, .plain 0x5C, .plain 0x22] (by decide) rfl).mpr unescaped
    cases last
  refine ⟨quotation, ⟨token, found, starts, ends⟩, inner, fun stop opening forms closing other => ?_⟩
  obtain ⟨rfl, _, rfl, _⟩ := sole stop opening forms closing other
  exact ⟨rfl, rfl⟩

end Grammar

end ODataLiteral
