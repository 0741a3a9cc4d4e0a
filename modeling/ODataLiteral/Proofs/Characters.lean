import ODataLiteral.Uri.Char

/-! A buffer and its characters are two views of one thing: decoding loses nothing, and the characters of
what is left after one character are the characters after it.
Every rule reads whole characters, so all that a rule does can be said about texts. -/
namespace ODataLiteral

namespace UriChar

theorem width_pos (character : UriChar) : 0 < character.width := by
  cases character
  · exact Nat.one_pos
  · exact Nat.succ_pos 2

theorem next?_eq_none {source : Bytes} : next? source = none ↔ source = [] := by
  constructor
  · intro none
    unfold next? at none
    split at none
    · rfl
    · repeat' split at none
      all_goals cases none
  · rintro rfl
    rfl

theorem length_of_next? {source rest : Bytes} {character : UriChar}
    (read : next? source = some (character, rest)) :
    character.width + rest.length = source.length := by
  rw [← bytes_of_next? read, List.length_append, length_bytes]

/-- A character that is decoded from its own octets, whatever follows them. -/
def Legible : UriChar → Prop
  | plain octet => octet ≠ percent
  | encoded high low => Octet.isHexDigit high ∧ Octet.isHexDigit low

instance (character : UriChar) : Decidable character.Legible :=
  match character with
  | plain octet => inferInstanceAs (Decidable (octet ≠ percent))
  | encoded high low => inferInstanceAs (Decidable (Octet.isHexDigit high ∧ Octet.isHexDigit low))

theorem next?_bytes_append {character : UriChar} (legible : character.Legible) (rest : Bytes) :
    next? (character.bytes ++ rest) = some (character, rest) := by
  cases character with
  | plain octet =>
    have other : (octet == percent) = false := beq_false_of_ne legible
    simp [bytes, next?, other]
  | encoded high low =>
    have digits : (Octet.isHexDigit high && Octet.isHexDigit low) = true := by
      simpa [Legible] using legible
    simp [bytes, next?, digits]

/-- Only a percent sign that starts no encoded octet is decoded by what follows it. -/
theorem legible_of_next? {source rest : Bytes} {character : UriChar}
    (read : next? source = some (character, rest)) (other : character ≠ plain percent) :
    character.Legible := by
  unfold next? at read
  split at read
  · cases read
  · rename_i octet after
    by_cases escape : octet = percent
    · subst escape
      simp only [beq_self_eq_true, if_true] at read
      split at read
      · split at read
        · rename_i digits
          cases read
          simpa [Legible] using digits
        · cases read
          exact absurd rfl other
      · cases read
        exact absurd rfl other
    · simp only [beq_iff_eq, escape, if_false] at read
      cases read
      exact escape

theorem next?_of_append {character : UriChar} {front back : Bytes}
    (read : next? (character.bytes ++ (front ++ back)) = some (character, front ++ back)) :
    next? (character.bytes ++ front) = some (character, front) := by
  by_cases percent : character = plain percent
  · subst percent
    match front with
    | [] | [_] => rfl
    | high :: low :: after =>
      cases digits : Octet.isHexDigit high && Octet.isHexDigit low with
      | false => simp [bytes, next?, digits]
      | true =>
        simp only [bytes, List.cons_append, List.nil_append, next?, beq_self_eq_true, if_true, digits] at read
        cases read
  · exact next?_bytes_append (legible_of_next? read percent) front

end UriChar

namespace Text

open UriChar

/-- Every character of a text is decoded from its own octets. -/
def Legible (text : Text) : Prop :=
  ∀ character ∈ text, character.Legible

instance (text : Text) : Decidable text.Legible :=
  inferInstanceAs (Decidable (∀ character ∈ text, character.Legible))

theorem bytes_cons (character : UriChar) (rest : Text) :
    Text.bytes (character :: rest) = character.bytes ++ Text.bytes rest :=
  List.flatMap_cons

theorem bytes_flatten (texts : List Text) : bytes texts.flatten = (texts.map bytes).flatten := by
  induction texts with
  | nil => rfl
  | cons text others ih => rw [List.flatten_cons, bytes_append, ih, List.map_cons, List.flatten_cons]

theorem bytes_plain (octets : Bytes) : Text.bytes (octets.map UriChar.plain) = octets := by
  simp [Text.bytes, List.flatMap_map, UriChar.bytes]

/-- A percent sign starts an encoded octet, and all other octets may stand for themselves. -/
theorem legible_plain {octets : Bytes} (clean : percent ∉ octets) : Legible (octets.map UriChar.plain) :=
  List.forall_mem_map.mpr fun _ member same => clean (same ▸ member)

theorem width_cons (character : UriChar) (rest : Text) :
    Text.width (character :: rest) = character.width + Text.width rest :=
  rfl

theorem length_le_width (text : Text) : text.length ≤ text.width := by
  induction text with
  | nil => exact Nat.le_refl _
  | cons character rest ih =>
    have step := width_pos character
    rw [width_cons, List.length_cons]
    omega

theorem width_pos_of_ne_nil {text : Text} (some : text ≠ []) : 0 < text.width :=
  Nat.lt_of_lt_of_le (List.length_pos_iff.mpr some) (length_le_width text)

theorem decodeWithin_append (budget source : Bytes) (characters : Text) :
    decodeWithin budget source characters =
      characters.reverse ++ decodeWithin budget source [] := by
  induction budget generalizing source characters with
  | nil => simp [decodeWithin]
  | cons _ budget ih =>
    cases read : next? source with
    | none => simp [decodeWithin, read]
    | some found =>
      simp only [decodeWithin, read]
      rw [ih _ (found.1 :: characters), ih _ [found.1]]
      simp

theorem decodeWithin_budget (budget other source : Bytes)
    (enough : source.length ≤ budget.length) (enoughOther : source.length ≤ other.length) :
    decodeWithin budget source [] = decodeWithin other source [] := by
  induction budget generalizing other source with
  | nil =>
    have empty : source = [] := List.eq_nil_of_length_eq_zero (Nat.le_zero.mp enough)
    subst empty
    cases other <;> simp [decodeWithin, next?]
  | cons _ budget ih =>
    cases read : next? source with
    | none =>
      rw [next?_eq_none] at read
      subst read
      cases other <;> simp [decodeWithin, next?]
    | some found =>
      have shorter := length_of_next? read
      have step := width_pos found.1
      cases other with
      | nil =>
        simp only [List.length_nil] at enoughOther
        omega
      | cons _ other =>
        simp only [List.length_cons] at enough enoughOther
        simp only [decodeWithin, read]
        rw [decodeWithin_append budget, decodeWithin_append other, ih other _ (by omega) (by omega)]

@[simp] theorem ofBytes_nil : ofBytes [] = [] := rfl

theorem ofBytes_of_next? {source rest : Bytes} {character : UriChar}
    (read : next? source = some (character, rest)) : ofBytes source = character :: ofBytes rest := by
  have shorter := length_of_next? read
  have step := width_pos character
  cases source with
  | nil => cases read
  | cons octet tail =>
    simp only [List.length_cons] at shorter
    simp only [ofBytes, decodeWithin, read]
    rw [decodeWithin_append, decodeWithin_budget tail rest rest (by omega) (Nat.le_refl _)]
    rfl

theorem bytes_ofBytes (source : Bytes) : (ofBytes source).bytes = source := by
  induction length : source.length using Nat.strongRecOn generalizing source with
  | ind length ih =>
    cases read : next? source with
    | none =>
      rw [next?_eq_none] at read
      subst read
      rfl
    | some found =>
      obtain ⟨character, rest⟩ := found
      have shorter := length_of_next? read
      have step := width_pos character
      rw [ofBytes_of_next? read]
      have tail : (ofBytes rest).bytes = rest := ih rest.length (by omega) rest rfl
      rw [bytes_cons, tail, bytes_of_next? read]

theorem next?_of_ofBytes {source : Bytes} {character : UriChar} {rest : Text}
    (same : ofBytes source = character :: rest) :
    ∃ after, next? source = some (character, after) ∧ ofBytes after = rest := by
  cases read : next? source with
  | none =>
    rw [next?_eq_none] at read
    subst read
    cases same
  | some found =>
    rw [ofBytes_of_next? read] at same
    obtain ⟨head, tail⟩ := List.cons.inj same
    exact ⟨found.2, by rw [← head], tail⟩

theorem length_ofBytes_le (source : Bytes) : (ofBytes source).length ≤ source.length := by
  have same := Text.length_bytes (ofBytes source)
  rw [bytes_ofBytes] at same
  rw [same]
  exact length_le_width _

theorem ofBytes_bytes_append {text : Text} (legible : text.Legible) (rest : Bytes) :
    ofBytes (text.bytes ++ rest) = text ++ ofBytes rest := by
  induction text with
  | nil => rfl
  | cons character tail ih =>
    have first : next? (Text.bytes (character :: tail) ++ rest) =
        some (character, Text.bytes tail ++ rest) := by
      rw [bytes_cons, List.append_assoc]
      exact next?_bytes_append (legible character List.mem_cons_self) _
    rw [ofBytes_of_next? first, ih fun other member => legible other (List.mem_cons_of_mem _ member)]
    rfl

theorem ofBytes_character_append {character : UriChar} (legible : character.Legible) (rest : Bytes) :
    ofBytes (character.bytes ++ rest) = character :: ofBytes rest :=
  ofBytes_of_next? (next?_bytes_append legible rest)

theorem ofBytes_bytes {text : Text} (legible : text.Legible) : ofBytes text.bytes = text := by
  simpa using ofBytes_bytes_append legible []

/-- The end of a buffer's text is the text of the buffer's end. -/
theorem exists_rest_of_append {source : Bytes} {text rest : Text}
    (same : ofBytes source = text ++ rest) :
    ∃ after, ofBytes after = rest ∧ source = text.bytes ++ after := by
  induction text generalizing source with
  | nil => exact ⟨source, same, rfl⟩
  | cons character tail ih =>
    obtain ⟨middle, read, same⟩ := next?_of_ofBytes same
    obtain ⟨after, last, split⟩ := ih same
    refine ⟨after, last, ?_⟩
    rw [← bytes_of_next? read, split, bytes_cons, List.append_assoc]

theorem ofBytes_bytes_of_append {source : Bytes} {text rest : Text}
    (same : ofBytes source = text ++ rest) : ofBytes text.bytes = text := by
  induction text generalizing source with
  | nil => rfl
  | cons character tail ih =>
    obtain ⟨middle, read, same⟩ := next?_of_ofBytes same
    obtain ⟨after, _, rfl⟩ := exists_rest_of_append same
    rw [← bytes_of_next? read] at read
    rw [bytes_cons, ofBytes_of_next? (next?_of_append read), ih same]

/-- Every character of a decoded text is legible or a percent sign. -/
theorem legible_of_ofBytes {source : Bytes} {text rest : Text}
    (same : ofBytes source = text ++ rest) (plain : UriChar.plain percent ∉ text) :
    text.Legible := by
  induction text generalizing source with
  | nil => exact fun _ member => absurd member List.not_mem_nil
  | cons character tail ih =>
    obtain ⟨middle, read, same⟩ := next?_of_ofBytes same
    simp only [List.mem_cons, not_or] at plain
    have first := legible_of_next? read (Ne.symm plain.1)
    have others := ih same plain.2
    intro other member
    rcases List.mem_cons.mp member with rfl | member
    · exact first
    · exact others other member

end Text

end ODataLiteral
