import ODataLiteral.Proofs.Utf8

/-! Where the characters of a text begin and end. An octet of ASCII is a character of its own, so a text may be cut
on either side of one, and what stands between two such cuts is a text again. -/
namespace ODataLiteral.Utf8

variable {front middle back : Bytes} {octet : UInt8}

/-- The octets that a text is encoded with. -/
def encode (text : String) : Bytes :=
  text.toList.flatMap String.utf8EncodeChar

/-- An offset with whole characters before it and whole characters after it. -/
def Boundary (source : Bytes) (offset : Nat) : Prop :=
  ∃ before after : List Char, (before ++ after).flatMap String.utf8EncodeChar = source ∧
    (before.flatMap String.utf8EncodeChar).length = offset

theorem Valid.append (one : Valid front) (two : Valid back) : Valid (front ++ back) := by
  obtain ⟨before, rfl⟩ := one
  obtain ⟨after, rfl⟩ := two
  exact ⟨before ++ after, List.flatMap_append⟩

theorem boundary_of_valid (one : Valid front) (two : Valid back) : Boundary (front ++ back) front.length := by
  obtain ⟨before, rfl⟩ := one
  obtain ⟨after, rfl⟩ := two
  exact ⟨before, after, List.flatMap_append, rfl⟩

theorem Boundary.valid_drop {source : Bytes} {offset : Nat} (boundary : Boundary source offset) :
    Valid (source.drop offset) := by
  obtain ⟨before, after, rfl, rfl⟩ := boundary
  rw [List.flatMap_append, List.drop_left]
  exact ⟨after, rfl⟩

theorem valid_singleton (low : octet < 0x80) : Valid [octet] :=
  valid_of_ascii (by simpa using low)

/-- A character that has an octet of ASCII in it has no other octet. -/
theorem encode_of_low {character : Char} (low : octet < 0x80)
    (spelled : String.utf8EncodeChar character = front ++ octet :: back) : front = [] ∧ back = [] := by
  rcases encode_ascii_or_high character with ⟨other, _, single⟩ | high
  · have length := congrArg List.length (spelled.symm.trans single)
    simp only [List.length_append, List.length_cons, List.length_nil] at length
    exact ⟨List.eq_nil_of_length_eq_zero (by omega), List.eq_nil_of_length_eq_zero (by omega)⟩
  · have large := high octet (by simp [spelled])
    have small := UInt8.lt_iff_toNat_lt.mp low
    exact absurd large (Nat.not_le_of_lt small)

theorem Valid.around (valid : Valid (front ++ octet :: back)) (low : octet < 0x80) :
    Valid front ∧ Valid back := by
  obtain ⟨characters, whole⟩ := valid
  induction characters generalizing front with
  | nil => simp at whole
  | cons character characters ih =>
    rw [List.flatMap_cons] at whole
    have more {rest : Bytes} (same : front = String.utf8EncodeChar character ++ rest)
        (others : characters.flatMap String.utf8EncodeChar = rest ++ octet :: back) :
        Valid front ∧ Valid back := by
      obtain ⟨⟨before, rfl⟩, after⟩ := ih others
      exact ⟨⟨character :: before, by rw [same, List.flatMap_cons]⟩, after⟩
    -- The octet comes after the first character, or it stands in it and then it is the first character.
    rcases List.append_eq_append_iff.mp whole with ⟨rest, same, others⟩ | ⟨rest, same, others⟩
    · exact more same others
    · cases rest with
      | nil =>
        have same : front = String.utf8EncodeChar character ++ [] := by simpa using same.symm
        exact more same others.symm
      | cons first rest =>
        obtain ⟨rfl, behind⟩ := List.cons.inj others
        obtain ⟨rfl, rfl⟩ := encode_of_low low same
        exact ⟨⟨[], rfl⟩, characters, behind.symm⟩

theorem Valid.cut_before (valid : Valid (front ++ octet :: back)) (low : octet < 0x80) :
    Valid front ∧ Valid (octet :: back) := by
  obtain ⟨before, after⟩ := valid.around low
  exact ⟨before, (valid_singleton low).append after⟩

theorem Valid.cut_after (valid : Valid (front ++ octet :: back)) (low : octet < 0x80) :
    Valid (front ++ [octet]) ∧ Valid back := by
  obtain ⟨before, after⟩ := valid.around low
  exact ⟨before.append (valid_singleton low), after⟩

/-- What begins and ends with ASCII is cut out of a text as a text. -/
theorem Valid.cut (valid : Valid (front ++ middle ++ back)) (filled : middle ≠ [])
    (first : ∀ octet, middle.head? = some octet → octet < 0x80)
    (last : ∀ octet, middle.getLast? = some octet → octet < 0x80) :
    Valid front ∧ Valid middle ∧ Valid back := by
  obtain ⟨octet, others, same⟩ := List.exists_cons_of_ne_nil filled
  have ends := List.dropLast_concat_getLast filled
  have further : Valid front ∧ Valid (middle ++ back) := by
    rw [same, List.append_assoc, List.cons_append] at valid
    rw [same]
    exact valid.cut_before (first octet (by rw [same]; rfl))
  rw [← ends, List.append_assoc, List.singleton_append] at further
  have inside := further.2.cut_after (last _ (List.getLast?_eq_some_getLast filled))
  rw [ends] at inside
  exact ⟨further.1, inside⟩

section OfString

/-- The loop that lists octets has listed those before its position. -/
theorem toList_loop (octets : ByteArray) (start : Nat) (seen : Bytes) :
    ByteArray.toList.loop octets start seen = seen.reverse ++ octets.data.toList.drop start := by
  fun_induction ByteArray.toList.loop octets start seen with
  | case1 start seen inside ih =>
    have within : start < octets.data.toList.length := by simpa using inside
    have next : octets.get! start = octets.data.toList[start] := by
      obtain ⟨data⟩ := octets
      have within : start < data.size := by simpa using within
      show data[start]! = _
      rw [getElem!_pos data start within, Array.getElem_toList]
    rw [ih, List.drop_eq_getElem_cons within, next, List.reverse_cons, List.append_assoc, List.singleton_append]
  | case2 start seen past =>
    rw [List.drop_eq_nil_of_le (by simpa using Nat.le_of_not_lt past), List.append_nil]

theorem encode_eq_ofString (text : String) : encode text = Bytes.ofString text := by
  have octets : text.toByteArray = (text.toList.flatMap String.utf8EncodeChar).toByteArray := by
    conv_lhs => rw [← text.ofList_toList]
    rfl
  rw [Bytes.ofString, String.toUTF8, ByteArray.toList, toList_loop, octets, List.toList_data_toByteArray]
  rfl

theorem valid_iff_ofString {octets : Bytes} : Valid octets ↔ ∃ text, Bytes.ofString text = octets := by
  simp only [← encode_eq_ofString]
  constructor
  · rintro ⟨characters, rfl⟩
    exact ⟨String.ofList characters, by rw [encode, String.toList_ofList]⟩
  · rintro ⟨text, rfl⟩
    exact ⟨text.toList, rfl⟩

end OfString

end ODataLiteral.Utf8
