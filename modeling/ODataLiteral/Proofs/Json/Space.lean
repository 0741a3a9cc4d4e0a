import ODataLiteral.Proofs.Json.Terminals
import ODataLiteral.Proofs.Rule.Completeness

/-! Whitespace between two parts of JSON may belong to either of them, and is always read with the first one.
Nothing is lost by that where the grammar of the second part has every text also without the whitespace before it. -/
namespace ODataLiteral

open Pattern

section Delimiters

variable {text tail : Text} {bracket : Char}

theorem isWhitespace_of_mem_bws (member : text ∈ Abnf.bws) :
    ∀ character ∈ text, character.isWhitespace = true := by
  rw [← language_optionalSpace] at member
  exact (Abnf.mem_repeated_character.mp member).2.2

theorem nil_mem_bws : [] ∈ Abnf.bws :=
  ⟨[], Nat.le_refl 0, nofun, nofun, rfl⟩

theorem delimiter_apart_whitespace {delimiter : Char} (space : delimiter.toUInt8 ≠ ' '.toUInt8)
    (tab : delimiter.toUInt8 ≠ '\t'.toUInt8) :
    UriChar.Apart (UriChar.isDelimiter delimiter) UriChar.isWhitespace := by
  refine UriChar.Apart.symm (UriChar.Apart.or ?_ ?_)
  · exact UriChar.delimiters_apart space.symm
  · exact UriChar.delimiters_apart tab.symm

theorem mem_closing : text ∈ Abnf.closing bracket ↔
    ∃ space character, space ∈ Abnf.bws ∧ character.isDelimiter bracket = true ∧
      text = space ++ [character] := by
  simp only [Abnf.closing, Language.mem_mul, Abnf.mem_mark]
  constructor
  · rintro ⟨space, isSpace, _, ⟨character, accepted, rfl⟩, rfl⟩
    exact ⟨space, character, isSpace, accepted, rfl⟩
  · rintro ⟨space, character, isSpace, accepted, rfl⟩
    exact ⟨space, isSpace, _, ⟨character, accepted, rfl⟩, rfl⟩

theorem mem_opening : text ∈ Abnf.opening bracket ↔
    ∃ space character after, space ∈ Abnf.bws ∧ character.isDelimiter bracket = true ∧
      after ∈ Abnf.bws ∧ text = space ++ character :: after := by
  have closed : Abnf.opening bracket = Abnf.closing bracket * Abnf.bws := rfl
  rw [closed, Language.mem_mul]
  constructor
  · rintro ⟨_, one, after, isSpace, rfl⟩
    obtain ⟨space, character, isSpaceToo, accepted, rfl⟩ := mem_closing.mp one
    exact ⟨space, character, after, isSpaceToo, accepted, isSpace, by simp⟩
  · rintro ⟨space, character, after, isSpace, accepted, isSpaceToo, rfl⟩
    exact ⟨_, mem_closing.mpr ⟨space, character, isSpace, accepted, rfl⟩, after, isSpaceToo, by simp⟩

theorem split_closingBracket_of_mem (visible : UriChar.Apart (UriChar.isDelimiter bracket) UriChar.isWhitespace)
    (member : text ∈ Abnf.closing bracket) (tail : Text) :
    (closingBracket bracket).split (text ++ tail) = some (text, tail) := by
  obtain ⟨space, character, isSpace, accepted, rfl⟩ := mem_closing.mp member
  have row := isWhitespace_of_mem_bws isSpace
  have stop : ¬ character.isWhitespace = true := by simp [visible character accepted]
  rw [List.append_assoc, List.singleton_append]
  refine split_closingBracket_iff.mpr ⟨character, accepted, ?_, ?_⟩
  · rw [List.dropWhile_append_of_pos row, List.dropWhile_cons_of_neg stop]
  · rw [List.takeWhile_append_of_pos row, List.takeWhile_cons_of_neg stop, List.append_nil]

theorem split_openingBracket_of_mem (visible : UriChar.Apart (UriChar.isDelimiter bracket) UriChar.isWhitespace)
    (member : text ∈ Abnf.opening bracket) (tail : Text) :
    ∃ taken, (openingBracket bracket).split (text ++ tail) =
      some (taken, tail.dropWhile UriChar.isWhitespace) := by
  obtain ⟨space, character, after, isSpace, accepted, isSpaceToo, rfl⟩ := mem_opening.mp member
  have row := isWhitespace_of_mem_bws isSpace
  have rowToo := isWhitespace_of_mem_bws isSpaceToo
  have stop : ¬ character.isWhitespace = true := by simp [visible character accepted]
  rw [List.append_assoc, List.cons_append]
  refine ⟨_, split_openingBracket_iff.mpr ⟨character, after ++ tail, accepted, ?_, ?_, rfl⟩⟩
  · rw [List.dropWhile_append_of_pos row, List.dropWhile_cons_of_neg stop]
  · rw [List.dropWhile_append_of_pos rowToo]

theorem headIn_of_spaced {space : Text} (isSpace : space ∈ Abnf.bws) {character : UriChar}
    (ends : character.isItemEnd = true) (rest : Text) :
    HeadIn UriChar.isItemEnd (space ++ character :: rest) := by
  intro first head
  cases space with
  | nil =>
    cases head
    exact ends
  | cons blank others =>
    cases head
    have white := isWhitespace_of_mem_bws isSpace _ List.mem_cons_self
    simp [UriChar.isItemEnd, white]

end Delimiters

namespace Abnf

variable {heads other : UriChar → Bool} {grammar second : Language UriChar} {text : Text}

/-- Every text of the grammar has a first character that is not whitespace. It is in a class, and the text from
there on is in the grammar too. -/
def Visible (heads : UriChar → Bool) (grammar : Language UriChar) : Prop :=
  ∀ text ∈ grammar, ∃ character rest, text.dropWhile UriChar.isWhitespace = character :: rest ∧
    heads character = true ∧ character :: rest ∈ grammar

theorem Visible.dropWhile_append (visible : Visible heads grammar) (member : text ∈ grammar) (tail : Text) :
    ∃ character rest, (text ++ tail).dropWhile UriChar.isWhitespace = character :: rest ++ tail ∧
      heads character = true ∧ character :: rest ∈ grammar := by
  obtain ⟨character, rest, same, accepted, memberToo⟩ := visible text member
  refine ⟨character, rest, ?_, accepted, memberToo⟩
  rw [List.dropWhile_append, same]
  rfl

theorem Visible.add (visible : Visible heads grammar) (visibleToo : Visible other second) :
    Visible (fun character => heads character || other character) (grammar + second) := by
  intro text member
  rcases (Language.mem_add _ _ _).mp member with member | member
  · obtain ⟨character, rest, same, accepted, memberToo⟩ := visible text member
    exact ⟨character, rest, same, Bool.or_eq_true_iff.mpr (.inl accepted), .inl memberToo⟩
  · obtain ⟨character, rest, same, accepted, memberToo⟩ := visibleToo text member
    exact ⟨character, rest, same, Bool.or_eq_true_iff.mpr (.inr accepted), .inr memberToo⟩

theorem visible_of_heads (apart : UriChar.Apart heads UriChar.isWhitespace)
    (begins : ∀ text ∈ grammar, ∃ character rest, text = character :: rest ∧ heads character = true) :
    Visible heads grammar := by
  intro text member
  obtain ⟨character, rest, rfl, accepted⟩ := begins text member
  refine ⟨character, rest, List.dropWhile_cons_of_neg ?_, accepted, member⟩
  simp [apart character accepted]

/-- The whitespace before an opening delimiter may be left out. -/
theorem visible_delimited {opens : Char} (item : Language UriChar) (closes : Char)
    (apart : UriChar.Apart (UriChar.isDelimiter opens) UriChar.isWhitespace) :
    Visible (UriChar.isDelimiter opens) (delimited opens item closes) := by
  rintro _ ⟨_, ⟨_, one, middle, inner, rfl⟩, final, closed, rfl⟩
  obtain ⟨space, character, after, isSpace, accepted, isSpaceToo, rfl⟩ := mem_opening.mp one
  refine ⟨character, after ++ middle ++ final, ?_, accepted, ?_⟩
  · have row := isWhitespace_of_mem_bws isSpace
    simp only [List.append_assoc, List.cons_append]
    rw [List.dropWhile_append_of_pos row, List.dropWhile_cons_of_neg (by simp [apart character accepted])]
  · have bare := mem_opening.mpr ⟨[], character, after, nil_mem_bws, accepted, isSpaceToo, rfl⟩
    exact Language.append_mem_mul (Language.append_mem_mul bare inner) closed

theorem visible_pair (keys values : Language UriChar) :
    Visible (UriChar.isDelimiter '"') (pair keys values) := by
  refine visible_of_heads (delimiter_apart_whitespace (by decide) (by decide)) ?_
  rintro _ ⟨_, ⟨_, ⟨_, opened, key, _, rfl⟩, gap, _, rfl⟩, value, _, rfl⟩
  obtain ⟨character, accepted, rfl⟩ := mem_mark.mp opened
  exact ⟨character, key ++ gap ++ value, by simp, accepted⟩

end Abnf

end ODataLiteral
