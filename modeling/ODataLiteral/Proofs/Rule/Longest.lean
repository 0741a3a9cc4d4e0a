import ODataLiteral.Proofs.Pattern.Maximal
import ODataLiteral.Proofs.Rule.Lexeme
import ODataLiteral.Proofs.Rule.Precedence

/-! Lexemes that take the longest of the octets which their grammar derives. Of the octets that a buffer begins with
there is one longest that a grammar derives, if there is any, and a lexeme with a maximal pattern is read from it. -/
namespace ODataLiteral

open Abnf (Begins Derives)
open Pattern

section Octets

variable {octets : Bytes} {octet : UInt8}

theorem Text.head?_ofBytes_eq_plain_iff (other : octet ≠ UriChar.percent) :
    (Text.ofBytes octets).head? = some (.plain octet) ↔ octets.head? = some octet := by
  constructor
  · intro first
    obtain ⟨tail, same⟩ := List.head?_eq_some_iff.mp first
    obtain ⟨after, read, _⟩ := Text.next?_of_ofBytes same
    rw [← UriChar.bytes_of_next? read]
    rfl
  · intro first
    obtain ⟨tail, rfl⟩ := List.head?_eq_some_iff.mp first
    have legible : (UriChar.plain octet).Legible := other
    exact congrArg List.head? (Text.ofBytes_character_append legible tail)

theorem Pattern.split_plain_eq_none_iff {character : Char} (other : character.toUInt8 ≠ UriChar.percent) :
    (plain character).split (Text.ofBytes octets) = none ↔ octets.head? ≠ some character.toUInt8 := by
  rw [← not_iff_not, not_not, ← Text.head?_ofBytes_eq_plain_iff other, ← ne_eq, Option.ne_none_iff_exists']
  constructor
  · rintro ⟨⟨taken, rest⟩, read⟩
    obtain ⟨one, accepted, _, same⟩ := split_char_iff.mp read
    rw [same, UriChar.eq_plain accepted]
    rfl
  · intro first
    obtain ⟨tail, same⟩ := List.head?_eq_some_iff.mp first
    rw [same]
    exact ⟨_, if_pos (beq_self_eq_true _)⟩

/-- What a pattern takes stands between two offsets, and what it leaves starts at the second one. -/
theorem Pattern.slice_of_split {pattern : Pattern} {source : Bytes} {offset : Nat} {taken rest : Text}
    (read : pattern.split (Text.ofBytes (source.drop offset)) = some (taken, rest)) :
    source.slice offset (offset + taken.width) = taken.bytes ∧
      rest = Text.ofBytes (source.drop (offset + taken.width)) := by
  have on : (Place.ofSource source offset).Advances taken ⟨offset + taken.width, rest⟩ := ⟨split_append read, rfl⟩
  have start := Place.In.ofSource source offset
  exact ⟨start.slice on, start.advances on⟩

theorem Pattern.stop_le_of_split {pattern : Pattern} {source : Bytes} {offset : Nat} {taken rest : Text}
    (filled : taken ≠ []) (read : pattern.split (Text.ofBytes (source.drop offset)) = some (taken, rest)) :
    offset + taken.width ≤ source.length := by
  have whole := congrArg List.length (congrArg Text.bytes (split_append read))
  rw [Text.bytes_ofBytes, Text.bytes_append, List.length_append, Text.length_bytes, List.length_drop] at whole
  have wide := Text.width_pos_of_ne_nil filled
  omega

/-- What a clean pattern takes from a buffer is spelled by octets at its front. -/
theorem Pattern.legible_of_split {pattern : Pattern} {taken rest : Text} (steady : pattern.steady = true)
    (clean : pattern.clean = true) (read : pattern.split (Text.ofBytes octets) = some (taken, rest)) :
    taken.Legible :=
  Text.legible_of_ofBytes (split_append read) fun percent =>
    spells_of_split steady (spells_of_clean clean) read _ percent rfl

theorem Pattern.derives_of_split {pattern : Pattern} {taken rest : Text} (steady : pattern.steady = true)
    (clean : pattern.clean = true) (read : pattern.split (Text.ofBytes octets) = some (taken, rest)) :
    Derives pattern.language taken.bytes :=
  ⟨taken, mem_language_of_split steady read, legible_of_split steady clean read, rfl⟩

/-- A pattern does not read where nothing of its grammar begins. -/
theorem Pattern.split_eq_none_of_not_begins {pattern : Pattern} (steady : pattern.steady = true)
    (clean : pattern.clean = true) (absent : ¬ Begins pattern.language octets) :
    pattern.split (Text.ofBytes octets) = none := by
  rw [Option.eq_none_iff_forall_ne_some]
  rintro ⟨taken, rest⟩ read
  obtain ⟨back, _, rfl⟩ := Text.exists_rest_of_append (split_append read)
  exact absent ⟨taken.bytes, List.prefix_append _ _, derives_of_split steady clean read⟩

end Octets

/-- The longest octets of a grammar that a buffer begins with. -/
structure Abnf.Longest (grammar : Language UriChar) (octets front : Bytes) : Prop where
  begins : front <+: octets
  derived : Derives grammar front
  longest : ∀ other, other <+: octets → Derives grammar other → other.length ≤ front.length

namespace Abnf.Longest

variable {grammar : Language UriChar} {octets front other : Bytes}

theorem unique (one : Longest grammar octets front) (two : Longest grammar octets other) : front = other := by
  have longer := one.longest other two.begins two.derived
  have shorter := two.longest front one.begins one.derived
  exact (List.prefix_of_prefix_length_le one.begins two.begins shorter).eq_of_length (Nat.le_antisymm shorter longer)

end Abnf.Longest

open Abnf (Longest)

namespace Pattern

variable {pattern : Pattern} {octets front : Bytes} {taken rest : Text}

theorem Maximal.longest_of_split (maximal : pattern.Maximal) (steady : pattern.steady = true)
    (clean : pattern.clean = true) (read : pattern.split (Text.ofBytes octets) = some (taken, rest)) :
    Longest pattern.language octets taken.bytes := by
  have derived := derives_of_split steady clean read
  obtain ⟨back, _, rfl⟩ := Text.exists_rest_of_append (split_append read)
  refine ⟨List.prefix_append _ _, derived, ?_⟩
  rintro _ ⟨tail, same⟩ ⟨text, member, legible, rfl⟩
  have begins : text <+: Text.ofBytes (taken.bytes ++ back) := by
    rw [← same, Text.ofBytes_bytes_append legible]
    exact List.prefix_append _ _
  have shorter := ((maximal.split_iff steady).mp read).2.2 text member begins
  obtain ⟨further, rfl⟩ := List.prefix_of_prefix_length_le begins ⟨rest, (split_append read).symm⟩ shorter
  rw [Text.bytes_append, List.length_append]
  exact Nat.le_add_right _ _

/-- Where a buffer begins with octets of the grammar, a maximal pattern reads. -/
theorem Maximal.split_of_begins (maximal : pattern.Maximal) (begins : Begins pattern.language octets) :
    ∃ taken rest, pattern.split (Text.ofBytes octets) = some (taken, rest) := by
  obtain ⟨_, ⟨back, rfl⟩, text, member, legible, rfl⟩ := begins
  rw [Text.ofBytes_bytes_append legible]
  obtain ⟨taken, rest, read, _⟩ := maximal _ text member (List.prefix_append _ _)
  exact ⟨taken, rest, read⟩

theorem Maximal.split_of_longest (maximal : pattern.Maximal) (steady : pattern.steady = true)
    (clean : pattern.clean = true) (longest : Longest pattern.language octets front) :
    pattern.split (Text.ofBytes octets) = some (Text.ofBytes front, Text.ofBytes (octets.drop front.length)) := by
  obtain ⟨taken, rest, read⟩ := maximal.split_of_begins ⟨front, longest.begins, longest.derived⟩
  obtain rfl := longest.unique (maximal.longest_of_split steady clean read)
  obtain ⟨back, rfl, rfl⟩ := Text.exists_rest_of_append (split_append read)
  rw [read, List.drop_left, Text.ofBytes_bytes (legible_of_split steady clean read)]

end Pattern

namespace Rule

variable {kind : Kind} {meaning : Meaning} {pattern : Pattern} {source : Bytes} {offset : Nat} {token : Token}

/-- A lexeme is read from what its pattern takes at the offset, if that has a value. -/
theorem tokenAt?_split_iff (steady : (lexeme kind meaning pattern).steady = true) (fits : meaning.Fits pattern) :
    (lexeme kind meaning pattern).tokenAt? source offset = some token ↔
      ∃ text rest value, pattern.split (Text.ofBytes (source.drop offset)) = some (text, rest) ∧
        meaning.value? text = some value ∧
        token = { kind, span := { start := offset, stop := offset + text.width }, value } := by
  rw [Rule.tokenAt?_iff steady fits]
  constructor
  · rintro ⟨stop, read⟩
    obtain ⟨text, value, taken, known, rfl⟩ := parse_lexeme_iff.mp read
    obtain ⟨split, ends⟩ := Pattern.parse_iff.mp taken
    refine ⟨text, stop.rest, value, split, known, ?_⟩
    rw [ends]
    rfl
  · rintro ⟨text, rest, value, split, known, rfl⟩
    exact ⟨⟨offset + text.width, rest⟩,
      parse_lexeme_iff.mpr ⟨text, value, Pattern.parse_iff.mpr ⟨split, rfl⟩, known, rfl⟩⟩

/-- A literal whose type is all its meaning is read from whatever its pattern takes. -/
theorem tokenAt?_typed_iff {type : EdmType} (steady : (lexeme kind (.typed type) pattern).steady = true) :
    (lexeme kind (.typed type) pattern).tokenAt? source offset = some token ↔
      ∃ text rest, pattern.split (Text.ofBytes (source.drop offset)) = some (text, rest) ∧
        token = { kind, span := { start := offset, stop := offset + text.width }, value := .typed type } := by
  rw [tokenAt?_split_iff steady fun _ _ _ _ => trivial]
  constructor
  · rintro ⟨text, rest, _, split, ⟨⟩, rfl⟩
    exact ⟨text, rest, split, rfl⟩
  · rintro ⟨text, rest, split, rfl⟩
    exact ⟨text, rest, _, split, rfl, rfl⟩

/-- A lexeme that has a value whatever its text is read from the longest octets of its grammar. -/
theorem tokenAt?_longest_iff {value : Text → Value} (maximal : pattern.Maximal)
    (steady : (lexeme kind meaning pattern).steady = true) (clean : pattern.clean = true) (fits : meaning.Fits pattern)
    (means : ∀ text, meaning.value? text = some (value text)) :
    (lexeme kind meaning pattern).tokenAt? source offset = some token ↔
      ∃ front, Longest pattern.language (source.drop offset) front ∧
        token = ⟨kind, ⟨offset, offset + front.length⟩, value (Text.ofBytes front)⟩ := by
  have parts : pattern.steady = true ∧ pattern.nullable = false := by
    simpa only [Rule.steady, Bool.and_eq_true, Bool.not_eq_true'] using steady
  rw [tokenAt?_split_iff steady fits]
  constructor
  · rintro ⟨text, rest, _, split, known, rfl⟩
    obtain rfl := Option.some.inj ((means text).symm.trans known)
    refine ⟨text.bytes, maximal.longest_of_split parts.1 clean split, ?_⟩
    rw [Text.length_bytes, Text.ofBytes_bytes (legible_of_split parts.1 clean split)]
  · rintro ⟨front, longest, rfl⟩
    refine ⟨_, _, _, maximal.split_of_longest parts.1 clean longest, means _, ?_⟩
    rw [← Text.length_bytes, Text.bytes_ofBytes]

/-- Such a lexeme is refused only where nothing of its grammar stands. -/
theorem tokenAt?_eq_none_iff_begins {value : Text → Value} (maximal : pattern.Maximal)
    (steady : (lexeme kind meaning pattern).steady = true) (clean : pattern.clean = true) (fits : meaning.Fits pattern)
    (means : ∀ text, meaning.value? text = some (value text)) :
    (lexeme kind meaning pattern).tokenAt? source offset = none ↔
      ¬ Begins pattern.language (source.drop offset) := by
  rw [Option.eq_none_iff_forall_ne_some]
  constructor
  · intro refused begins
    obtain ⟨taken, rest, split⟩ := maximal.split_of_begins begins
    exact refused _ ((tokenAt?_split_iff steady fits).mpr ⟨taken, rest, _, split, means taken, rfl⟩)
  · intro none token found
    obtain ⟨front, longest, _⟩ := (tokenAt?_longest_iff maximal steady clean fits means).mp found
    exact none ⟨front, longest.begins, longest.derived⟩

end Rule

end ODataLiteral
