import Mathlib.Data.List.Forall2
import ODataLiteral.Utf8

/-! Decoding is exact: it gives the characters that are encoded with the octets, and nothing if there are none. -/
namespace ODataLiteral.Utf8

/-- The octets that some characters are encoded with. -/
def Valid (octets : Bytes) : Prop :=
  ∃ characters : List Char, characters.flatMap String.utf8EncodeChar = octets

section Ranges

theorem secondInRange_iff {lead second : UInt8} :
    secondInRange lead second = true ↔
      (lead.toNat = 0xE0 → 0xA0 ≤ second.toNat) ∧ (lead.toNat = 0xED → second.toNat ≤ 0x9F) ∧
        (lead.toNat = 0xF0 → 0x90 ≤ second.toNat) ∧ (lead.toNat = 0xF4 → second.toNat ≤ 0x8F) ∧
        0x80 ≤ second.toNat ∧ second.toNat ≤ 0xBF := by
  have same (value : UInt8) : (lead == value) = decide (lead.toNat = value.toNat) := by
    rw [Bool.eq_iff_iff, beq_iff_eq, decide_eq_true_iff, UInt8.toNat_inj]
  simp only [secondInRange, same, UInt8.le_iff_toNat_le, decide_eq_true_iff, UInt8.reduceToNat]
  split
  · simp; omega
  · split
    · simp; omega
    · split
      · simp; omega
      · split <;> simp <;> omega

theorem isContinuation_iff {octet : UInt8} :
    isContinuation octet = true ↔ 0x80 ≤ octet.toNat ∧ octet.toNat ≤ 0xBF := by
  simp [isContinuation, UInt8.le_iff_toNat_le]

end Ranges

section Widths

variable {lead second third fourth : UInt8} {rest : Bytes} {characters : List Char}

/-- One step of the decoder. The lead octet alone decides which case it is. -/
theorem decodeOnto_cons : decodeOnto (lead :: rest) characters =
    if lead < 0x80 then decodeOnto rest (Char.ofNat lead.toNat :: characters)
    else if 0xC2 ≤ lead && lead ≤ 0xDF then
      match rest with
      | second :: after =>
        if secondInRange lead second then
          decodeOnto after (Char.ofNat (extend (lead.toNat - 0xC0) second) :: characters)
        else none
      | _ => none
    else if 0xE0 ≤ lead && lead ≤ 0xEF then
      match rest with
      | second :: third :: after =>
        if secondInRange lead second && isContinuation third then
          decodeOnto after
            (Char.ofNat (extend (extend (lead.toNat - 0xE0) second) third) :: characters)
        else none
      | _ => none
    else if 0xF0 ≤ lead && lead ≤ 0xF4 then
      match rest with
      | second :: third :: fourth :: after =>
        if secondInRange lead second && isContinuation third && isContinuation fourth then
          decodeOnto after
            (Char.ofNat (extend (extend (extend (lead.toNat - 0xF0) second) third) fourth) :: characters)
        else none
      | _ => none
    else none :=
  decodeOnto.eq_def _ _

theorem decodeOnto_one (low : lead.toNat < 0x80) :
    decodeOnto (lead :: rest) characters = decodeOnto rest (Char.ofNat lead.toNat :: characters) := by
  rw [decodeOnto_cons]
  simp [UInt8.lt_iff_toNat_lt, low]

theorem decodeOnto_two (low : 0xC2 ≤ lead.toNat) (high : lead.toNat ≤ 0xDF)
    (follows : secondInRange lead second = true) :
    decodeOnto (lead :: second :: rest) characters =
      decodeOnto rest (Char.ofNat (extend (lead.toNat - 0xC0) second) :: characters) := by
  have large : ¬ lead.toNat < 0x80 := by omega
  rw [decodeOnto_cons]
  simp [UInt8.lt_iff_toNat_lt, UInt8.le_iff_toNat_le, large, low, high, follows]

theorem decodeOnto_three (low : 0xE0 ≤ lead.toNat) (high : lead.toNat ≤ 0xEF)
    (follows : secondInRange lead second = true) (last : isContinuation third = true) :
    decodeOnto (lead :: second :: third :: rest) characters =
      decodeOnto rest
        (Char.ofNat (extend (extend (lead.toNat - 0xE0) second) third) :: characters) := by
  have large : ¬ lead.toNat < 0x80 := by omega
  have notTwo : ¬ (0xC2 ≤ lead.toNat ∧ lead.toNat ≤ 0xDF) := by omega
  rw [decodeOnto_cons]
  simp [UInt8.lt_iff_toNat_lt, UInt8.le_iff_toNat_le, large, notTwo, low, high, follows, last]

theorem decodeOnto_four (low : 0xF0 ≤ lead.toNat) (high : lead.toNat ≤ 0xF4)
    (follows : secondInRange lead second = true) (more : isContinuation third = true)
    (last : isContinuation fourth = true) :
    decodeOnto (lead :: second :: third :: fourth :: rest) characters =
      decodeOnto rest (Char.ofNat
        (extend (extend (extend (lead.toNat - 0xF0) second) third) fourth) :: characters) := by
  have large : ¬ lead.toNat < 0x80 := by omega
  have notTwo : ¬ (0xC2 ≤ lead.toNat ∧ lead.toNat ≤ 0xDF) := by omega
  have notThree : ¬ (0xE0 ≤ lead.toNat ∧ lead.toNat ≤ 0xEF) := by omega
  rw [decodeOnto_cons]
  simp [UInt8.lt_iff_toNat_lt, UInt8.le_iff_toNat_le, large, notTwo, notThree, low, high, follows, more,
    last]

end Widths

theorem encode_ofNat {value : Nat} (valid : value.isValidChar) :
    String.utf8EncodeChar (Char.ofNat value) =
      if value ≤ 0x7F then [.ofNat value]
      else if value ≤ 0x7FF then [.ofNat (value / 64 % 32 + 0xC0), .ofNat (value % 64 + 0x80)]
      else if value ≤ 0xFFFF then
        [.ofNat (value / 4096 % 16 + 0xE0), .ofNat (value / 64 % 64 + 0x80), .ofNat (value % 64 + 0x80)]
      else
        [.ofNat (value / 262144 % 8 + 0xF0), .ofNat (value / 4096 % 64 + 0x80),
          .ofNat (value / 64 % 64 + 0x80), .ofNat (value % 64 + 0x80)] := by
  have code : (Char.ofNat value).val.toNat = value := by
    rw [Char.ofNat, dif_pos valid]
    rfl
  unfold String.utf8EncodeChar
  rw [code]

theorem decodeOnto_encode (character : Char) (rest : Bytes) (characters : List Char) :
    decodeOnto (String.utf8EncodeChar character ++ rest) characters =
      decodeOnto rest (character :: characters) := by
  obtain ⟨value, code⟩ : ∃ value, character.toNat = value := ⟨_, rfl⟩
  have valid : value < 0xD800 ∨ 0xDFFF < value ∧ value < 0x110000 := code ▸ character.valid
  have back : Char.ofNat value = character := code ▸ Char.ofNat_toNat character
  rw [← back, encode_ofNat valid, back]
  have octet {number : Nat} (small : number < 256) :
      ∃ octet, UInt8.ofNat number = octet ∧ octet.toNat = number :=
    ⟨_, rfl, UInt8.toNat_ofNat_of_lt' small⟩
  obtain ⟨last, isLast, lastBits⟩ := octet (show value % 64 + 0x80 < 256 by omega)
  by_cases one : value ≤ 0x7F
  · have lead : (UInt8.ofNat value).toNat = value := UInt8.toNat_ofNat_of_lt' (show value < 256 by omega)
    rw [if_pos one, List.singleton_append, decodeOnto_one (by omega), lead, back]
  rw [if_neg one]
  by_cases two : value ≤ 0x7FF
  · obtain ⟨lead, isLead, leadBits⟩ := octet (show value / 64 % 32 + 0xC0 < 256 by omega)
    simp only [if_pos two, isLead, isLast, List.cons_append, List.nil_append]
    have follows : secondInRange lead last = true := secondInRange_iff.mpr
      ⟨by omega, by omega, by omega, by omega, by omega, by omega⟩
    rw [decodeOnto_two (by omega) (by omega) follows]
    have code : extend (lead.toNat - 0xC0) last = value := by
      show (lead.toNat - 0xC0) * 64 + (last.toNat - 0x80) = value
      omega
    rw [code, back]
  rw [if_neg two]
  obtain ⟨middle, isMiddle, middleBits⟩ := octet (show value / 64 % 64 + 0x80 < 256 by omega)
  by_cases three : value ≤ 0xFFFF
  · obtain ⟨lead, isLead, leadBits⟩ := octet (show value / 4096 % 16 + 0xE0 < 256 by omega)
    simp only [if_pos three, isLead, isMiddle, isLast, List.cons_append, List.nil_append]
    have follows : secondInRange lead middle = true := secondInRange_iff.mpr
      ⟨by omega, by omega, by omega, by omega, by omega, by omega⟩
    rw [decodeOnto_three (by omega) (by omega) follows (isContinuation_iff.mpr (by omega))]
    have code : extend (extend (lead.toNat - 0xE0) middle) last = value := by
      show ((lead.toNat - 0xE0) * 64 + (middle.toNat - 0x80)) * 64 + (last.toNat - 0x80) = value
      omega
    rw [code, back]
  · obtain ⟨lead, isLead, leadBits⟩ := octet (show value / 262144 % 8 + 0xF0 < 256 by omega)
    obtain ⟨second, isSecond, secondBits⟩ := octet (show value / 4096 % 64 + 0x80 < 256 by omega)
    simp only [if_neg three, isLead, isSecond, isMiddle, isLast, List.cons_append, List.nil_append]
    have follows : secondInRange lead second = true := secondInRange_iff.mpr
      ⟨by omega, by omega, by omega, by omega, by omega, by omega⟩
    rw [decodeOnto_four (by omega) (by omega) follows (isContinuation_iff.mpr (by omega))
      (isContinuation_iff.mpr (by omega))]
    have code : extend (extend (extend (lead.toNat - 0xF0) second) middle) last = value := by
      show (((lead.toNat - 0xF0) * 64 + (second.toNat - 0x80)) * 64 + (middle.toNat - 0x80)) * 64 +
        (last.toNat - 0x80) = value
      omega
    rw [code, back]

section Octets

theorem eq_ofNat {octet : UInt8} {number : Nat} (same : octet.toNat = number) :
    UInt8.ofNat number = octet := by
  rw [← same, UInt8.ofNat_toNat]

variable {lead second third fourth : UInt8}

theorem encode_one (low : lead.toNat < 0x80) :
    String.utf8EncodeChar (Char.ofNat lead.toNat) = [lead] := by
  rw [encode_ofNat (.inl (by omega)), if_pos (by omega), eq_ofNat rfl]

theorem encode_two (low : 0xC2 ≤ lead.toNat) (high : lead.toNat ≤ 0xDF)
    (follows : secondInRange lead second = true) :
    String.utf8EncodeChar (Char.ofNat (extend (lead.toNat - 0xC0) second)) = [lead, second] := by
  obtain ⟨-, -, -, -, least, most⟩ := secondInRange_iff.mp follows
  obtain ⟨value, code⟩ : ∃ value, extend (lead.toNat - 0xC0) second = value := ⟨_, rfl⟩
  have bits : (lead.toNat - 0xC0) * 64 + (second.toNat - 0x80) = value := code
  have first : UInt8.ofNat (value / 64 % 32 + 0xC0) = lead := eq_ofNat (by omega)
  have final : UInt8.ofNat (value % 64 + 0x80) = second := eq_ofNat (by omega)
  rw [code, encode_ofNat (.inl (by omega)), if_neg (by omega), if_pos (by omega), first, final]

theorem encode_three (low : 0xE0 ≤ lead.toNat) (high : lead.toNat ≤ 0xEF)
    (follows : secondInRange lead second = true) (last : isContinuation third = true) :
    String.utf8EncodeChar (Char.ofNat (extend (extend (lead.toNat - 0xE0) second) third)) =
      [lead, second, third] := by
  obtain ⟨overlong, surrogate, -, -, least, most⟩ := secondInRange_iff.mp follows
  obtain ⟨leastLast, mostLast⟩ := isContinuation_iff.mp last
  obtain ⟨value, code⟩ : ∃ value, extend (extend (lead.toNat - 0xE0) second) third = value := ⟨_, rfl⟩
  have bits : ((lead.toNat - 0xE0) * 64 + (second.toNat - 0x80)) * 64 + (third.toNat - 0x80) = value := code
  have valid : value < 0xD800 ∨ 0xDFFF < value ∧ value < 0x110000 := by omega
  have first : UInt8.ofNat (value / 4096 % 16 + 0xE0) = lead := eq_ofNat (by omega)
  have middle : UInt8.ofNat (value / 64 % 64 + 0x80) = second := eq_ofNat (by omega)
  have final : UInt8.ofNat (value % 64 + 0x80) = third := eq_ofNat (by omega)
  rw [code, encode_ofNat valid, if_neg (by omega), if_neg (by omega), if_pos (by omega), first,
    middle, final]

theorem encode_four (low : 0xF0 ≤ lead.toNat) (high : lead.toNat ≤ 0xF4)
    (follows : secondInRange lead second = true) (more : isContinuation third = true)
    (last : isContinuation fourth = true) :
    String.utf8EncodeChar
        (Char.ofNat (extend (extend (extend (lead.toNat - 0xF0) second) third) fourth)) =
      [lead, second, third, fourth] := by
  obtain ⟨-, -, overlong, large, least, most⟩ := secondInRange_iff.mp follows
  obtain ⟨leastMore, mostMore⟩ := isContinuation_iff.mp more
  obtain ⟨leastLast, mostLast⟩ := isContinuation_iff.mp last
  obtain ⟨value, code⟩ :
      ∃ value, extend (extend (extend (lead.toNat - 0xF0) second) third) fourth = value := ⟨_, rfl⟩
  have bits : (((lead.toNat - 0xF0) * 64 + (second.toNat - 0x80)) * 64 + (third.toNat - 0x80)) * 64 +
      (fourth.toNat - 0x80) = value := code
  have valid : value < 0xD800 ∨ 0xDFFF < value ∧ value < 0x110000 := by omega
  have first : UInt8.ofNat (value / 262144 % 8 + 0xF0) = lead := eq_ofNat (by omega)
  have next : UInt8.ofNat (value / 4096 % 64 + 0x80) = second := eq_ofNat (by omega)
  have middle : UInt8.ofNat (value / 64 % 64 + 0x80) = third := eq_ofNat (by omega)
  have final : UInt8.ofNat (value % 64 + 0x80) = fourth := eq_ofNat (by omega)
  rw [code, encode_ofNat valid, if_neg (by omega), if_neg (by omega), if_neg (by omega), first, next,
    middle, final]

end Octets

theorem encode_of_decodeOnto {octets : Bytes} {before all : List Char}
    (read : decodeOnto octets before = some all) :
    ∃ characters, all = before.reverse ++ characters ∧
      characters.flatMap String.utf8EncodeChar = octets := by
  have more {character : Char} {taken rest : Bytes} {before all : List Char}
      (spelled : String.utf8EncodeChar character = taken)
      (others : ∃ characters, all = (character :: before).reverse ++ characters ∧
        characters.flatMap String.utf8EncodeChar = rest) :
      ∃ characters, all = before.reverse ++ characters ∧
        characters.flatMap String.utf8EncodeChar = taken ++ rest := by
    obtain ⟨characters, rfl, rfl⟩ := others
    exact ⟨character :: characters, by simp, by simp [spelled]⟩
  fun_induction decodeOnto octets before with
  | case1 before =>
    cases read
    exact ⟨[], by simp, rfl⟩
  | case2 before lead rest low ih => exact more (encode_one (UInt8.lt_iff_toNat_lt.mp low)) (ih read)
  | case3 before lead _ bounds second rest follows ih =>
    simp only [Bool.and_eq_true, decide_eq_true_iff, UInt8.le_iff_toNat_le] at bounds
    exact more (encode_two bounds.1 bounds.2 follows) (ih read)
  | case6 before lead _ _ bounds second third rest follows ih =>
    simp only [Bool.and_eq_true, decide_eq_true_iff, UInt8.le_iff_toNat_le] at bounds follows
    exact more (encode_three bounds.1 bounds.2 follows.1 follows.2) (ih read)
  | case9 before lead _ _ _ bounds second third fourth rest follows ih =>
    simp only [Bool.and_eq_true, decide_eq_true_iff, UInt8.le_iff_toNat_le] at bounds follows
    exact more (encode_four bounds.1 bounds.2 follows.1.1 follows.1.2 follows.2) (ih read)
  | _ => cases read

theorem decodeOnto_flatMap (characters before : List Char) :
    decodeOnto (characters.flatMap String.utf8EncodeChar) before = some (before.reverse ++ characters) := by
  induction characters generalizing before with
  | nil =>
    rw [List.flatMap_nil, List.append_nil]
    rfl
  | cons character others ih =>
    rw [List.flatMap_cons, decodeOnto_encode, ih, List.reverse_cons, List.append_assoc,
      List.singleton_append]

theorem decode?_eq_some_iff {octets : Bytes} {text : String} :
    decode? octets = some text ↔ text.toList.flatMap String.utf8EncodeChar = octets := by
  rw [decode?, Option.map_eq_some_iff]
  constructor
  · rintro ⟨all, read, rfl⟩
    obtain ⟨characters, same, spelled⟩ := encode_of_decodeOnto read
    rw [String.toList_ofList, same]
    exact spelled
  · rintro rfl
    exact ⟨_, decodeOnto_flatMap _ [], String.ofList_toList⟩

theorem decode?_isSome_iff {octets : Bytes} : (decode? octets).isSome = true ↔ Valid octets := by
  rw [Option.isSome_iff_exists]
  constructor
  · rintro ⟨text, read⟩
    exact ⟨text.toList, decode?_eq_some_iff.mp read⟩
  · rintro ⟨characters, spelled⟩
    exact ⟨String.ofList characters, decode?_eq_some_iff.mpr (by rwa [String.toList_ofList])⟩

theorem valid_of_ascii {octets : Bytes} (low : ∀ octet ∈ octets, octet < 0x80) : Valid octets := by
  refine ⟨octets.map fun octet => Char.ofNat octet.toNat, ?_⟩
  rw [List.flatMap_map]
  induction octets with
  | nil => rfl
  | cons octet others ih =>
    have first := encode_one (UInt8.lt_iff_toNat_lt.mp (low octet List.mem_cons_self))
    rw [List.flatMap_cons, first, ih fun one member => low one (List.mem_cons_of_mem _ member)]
    rfl

section Alike

theorem encode_ascii_or_high (character : Char) :
    (∃ octet : UInt8, octet.toNat < 0x80 ∧ String.utf8EncodeChar character = [octet]) ∨
      ∀ octet ∈ String.utf8EncodeChar character, 0x80 ≤ octet.toNat := by
  obtain ⟨value, code⟩ : ∃ value, character.toNat = value := ⟨_, rfl⟩
  have valid : value < 0xD800 ∨ 0xDFFF < value ∧ value < 0x110000 := code ▸ character.valid
  have back : Char.ofNat value = character := code ▸ Char.ofNat_toNat character
  rw [← back, encode_ofNat valid]
  have octet (number : Nat) (small : number < 256) (large : 0x80 ≤ number) :
      0x80 ≤ (UInt8.ofNat number).toNat := by
    rw [UInt8.toNat_ofNat_of_lt' small]
    exact large
  by_cases one : value ≤ 0x7F
  · left
    refine ⟨.ofNat value, ?_, if_pos one⟩
    rw [UInt8.toNat_ofNat_of_lt' (show value < 256 by omega)]
    omega
  right
  rw [if_neg one]
  have last := octet (value % 64 + 0x80) (by omega) (by omega)
  have middle := octet (value / 64 % 64 + 0x80) (by omega) (by omega)
  split
  · simp only [List.forall_mem_cons]
    exact ⟨octet _ (by omega) (by omega), last, List.forall_mem_nil _⟩
  split
  · simp only [List.forall_mem_cons]
    exact ⟨octet _ (by omega) (by omega), middle, last, List.forall_mem_nil _⟩
  · simp only [List.forall_mem_cons]
    exact ⟨octet _ (by omega) (by omega), octet _ (by omega) (by omega), middle, last, List.forall_mem_nil _⟩

/-- The same octet, or another one that is a character of its own too. -/
def Alike (one two : UInt8) : Prop :=
  one = two ∨ one.toNat < 0x80 ∧ two.toNat < 0x80

theorem Alike.symm {one two : UInt8} (alike : Alike one two) : Alike two one :=
  alike.imp Eq.symm And.symm

theorem eq_append_of_alike {front back others : Bytes} (high : ∀ octet ∈ front, 0x80 ≤ octet.toNat)
    (alike : List.Forall₂ Alike (front ++ back) others) :
    ∃ rest, others = front ++ rest ∧ List.Forall₂ Alike back rest := by
  induction front generalizing others with
  | nil => exact ⟨others, rfl, alike⟩
  | cons octet front ih =>
    obtain ⟨large, highToo⟩ := List.forall_mem_cons.mp high
    cases alike with
    | cons here further =>
      obtain ⟨rest, rfl, last⟩ := ih highToo further
      rcases here with rfl | ⟨low, _⟩
      · exact ⟨rest, rfl, last⟩
      · omega

/-- Exchanging one character of ASCII for another one keeps a text a text. -/
theorem Valid.of_alike {octets others : Bytes} (valid : Valid octets)
    (alike : List.Forall₂ Alike octets others) : Valid others := by
  obtain ⟨characters, rfl⟩ := valid
  induction characters generalizing others with
  | nil =>
    cases alike
    exact ⟨[], rfl⟩
  | cons character characters ih =>
    rw [List.flatMap_cons] at alike
    rcases encode_ascii_or_high character with ⟨octet, low, same⟩ | high
    · rw [same] at alike
      cases alike with
      | @cons _ other _ rest here further =>
        obtain ⟨spelled, rfl⟩ := ih further
        have lowToo : other.toNat < 0x80 := by
          rcases here with rfl | ⟨_, lowToo⟩
          · exact low
          · exact lowToo
        exact ⟨Char.ofNat other.toNat :: spelled, by rw [List.flatMap_cons, encode_one lowToo]; rfl⟩
    · obtain ⟨rest, rfl, further⟩ := eq_append_of_alike high alike
      obtain ⟨spelled, rfl⟩ := ih further
      exact ⟨character :: spelled, List.flatMap_cons⟩

end Alike

end ODataLiteral.Utf8
