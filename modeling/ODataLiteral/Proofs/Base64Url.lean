import Mathlib.Data.List.DropRight
import ODataLiteral.Bytes

/-! The URL-safe base64 encoding. A letter holds six bits, so three octets are four letters. One or two octets that are
left over are two or three letters, and the bits that their last letter has too many are zero. So letters are an
encoding just where they make up whole octets and the bits left over are zero, and no other octets have the same
encoding. -/
namespace ODataLiteral.Base64Url

/-- The letters in the order of their values. -/
def alphabet : Bytes :=
  "ABCDEFGHIJKLMNOPQRSTUVWXYZabcdefghijklmnopqrstuvwxyz0123456789-_".toList.map Char.toUInt8

def letter (value : Nat) : UInt8 :=
  alphabet.getD value 0

/-- The six bits that a letter holds. -/
def value (letter : UInt8) : Nat :=
  alphabet.idxOf letter

section Letters

/-! The letters of three octets. Where there is no further octet, its bits are zero. -/

variable (one two three : UInt8)

def firstLetter : UInt8 := letter (one.toNat / 4)
def secondLetter : UInt8 := letter (one.toNat % 4 * 16 + two.toNat / 16)
def thirdLetter : UInt8 := letter (two.toNat % 16 * 4 + three.toNat / 64)
def fourthLetter : UInt8 := letter (three.toNat % 64)

end Letters

/-- The letters of some data, without a padding. -/
def encode : Bytes → Bytes
  | [] => []
  | [one] => [firstLetter one, secondLetter one 0]
  | [one, two] => [firstLetter one, secondLetter one two, thirdLetter two 0]
  | one :: two :: three :: rest =>
    firstLetter one :: secondLetter one two :: thirdLetter two three :: fourthLetter three :: encode rest

section Octets

/-! The octets of four letters. -/

variable (first second third fourth : UInt8)

def firstOctet : UInt8 := .ofNat (value first * 4 + value second / 16)
def secondOctet : UInt8 := .ofNat (value second % 16 * 16 + value third / 4)
def thirdOctet : UInt8 := .ofNat (value third % 4 * 64 + value fourth)

end Octets

/-- The data of some letters. A lone letter holds no octet. -/
def decode : Bytes → Bytes
  | first :: second :: third :: fourth :: rest =>
    firstOctet first second :: secondOctet second third :: thirdOctet third fourth :: decode rest
  | [first, second, third] => [firstOctet first second, secondOctet second third]
  | [first, second] => [firstOctet first second]
  | [_] => []
  | [] => []

/-- Letters that make up whole octets: no lone letter is left after rows of four, and the bits of the last letter that no
octet has room for are zero. -/
structure Canonical (letters : Bytes) : Prop where
  every : ∀ octet ∈ letters, Octet.isBase64 octet = true
  whole : letters.length % 4 ≠ 1
  unused : ∀ last, letters.getLast? = some last → value last % Nat.pow 2 (6 * letters.length % 8) = 0

/-- The equals signs that fill up the last four letters. -/
def padding (letters : Bytes) : Bytes :=
  List.replicate ((4 - letters.length % 4) % 4) '='.toUInt8

/-- Letters with all of their padding or without any of it. -/
def OptionallyPadded (letters content : Bytes) : Prop :=
  content = letters ∨ content = letters ++ padding letters

/-- What is left without the equals signs at the end. -/
def stripped (content : Bytes) : Bytes :=
  content.rdropWhile (· == '='.toUInt8)

section Table

theorem value_letter {index : Nat} (small : index < 64) : value (letter index) = index := by
  have table : ∀ index : Fin 64, value (letter index) = index := by decide +kernel
  exact table ⟨index, small⟩

theorem isBase64_letter {index : Nat} (small : index < 64) : Octet.isBase64 (letter index) = true := by
  have table : ∀ index : Fin 64, Octet.isBase64 (letter index) = true := by decide +kernel
  exact table ⟨index, small⟩

variable {octet : UInt8}

theorem letter_value (isLetter : Octet.isBase64 octet = true) : value octet < 64 ∧ letter (value octet) = octet := by
  have table : ∀ octet : Fin 256, Octet.isBase64 (.ofFin octet) = true →
      value (.ofFin octet) < 64 ∧ letter (value (.ofFin octet)) = .ofFin octet := by decide +kernel
  exact table octet.toFin isLetter

/-- Letters that are listed because the bits which they have to spare are zero. -/
theorem oneOf_iff {characters : String} {spare : Nat}
    (letters : characters.toList.all (fun one => Octet.isBase64 one.toUInt8) = true)
    (table : ∀ index : Fin 64, Octet.oneOf characters (letter index) = (index.val % spare == 0)) :
    Octet.oneOf characters octet = true ↔ Octet.isBase64 octet = true ∧ value octet % spare = 0 := by
  have listed (isLetter : Octet.isBase64 octet = true) :
      Octet.oneOf characters octet = true ↔ value octet % spare = 0 := by
    obtain ⟨small, same⟩ := letter_value isLetter
    have entry := table ⟨value octet, small⟩
    rw [same] at entry
    rw [entry, beq_iff_eq]
  constructor
  · intro among
    obtain ⟨one, member, same⟩ := List.any_eq_true.mp among
    have isLetter : Octet.isBase64 octet = true := beq_iff_eq.mp same ▸ List.all_eq_true.mp letters one member
    exact ⟨isLetter, (listed isLetter).mp among⟩
  · rintro ⟨isLetter, unused⟩
    exact (listed isLetter).mpr unused

theorem oneOf_four_iff :
    Octet.oneOf "AQgw" octet = true ↔ Octet.isBase64 octet = true ∧ value octet % 16 = 0 :=
  oneOf_iff (by decide +kernel) (by decide +kernel)

theorem oneOf_two_iff :
    Octet.oneOf "AEIMQUYcgkosw048" octet = true ↔ Octet.isBase64 octet = true ∧ value octet % 4 = 0 :=
  oneOf_iff (by decide +kernel) (by decide +kernel)

end Table

section Group

variable (one two three : UInt8)

theorem value_firstLetter : value (firstLetter one) = one.toNat / 4 :=
  value_letter (by have := one.toNat_lt; omega)

theorem value_secondLetter : value (secondLetter one two) = one.toNat % 4 * 16 + two.toNat / 16 :=
  value_letter (by have := two.toNat_lt; omega)

theorem value_thirdLetter : value (thirdLetter two three) = two.toNat % 16 * 4 + three.toNat / 64 :=
  value_letter (by have := three.toNat_lt; omega)

theorem value_fourthLetter : value (fourthLetter three) = three.toNat % 64 :=
  value_letter (by omega)

@[simp] theorem firstOctet_letters : firstOctet (firstLetter one) (secondLetter one two) = one := by
  have bits : one.toNat / 4 * 4 + (one.toNat % 4 * 16 + two.toNat / 16) / 16 = one.toNat := by
    have := two.toNat_lt
    omega
  rw [firstOctet, value_firstLetter, value_secondLetter, bits, UInt8.ofNat_toNat]

@[simp] theorem secondOctet_letters : secondOctet (secondLetter one two) (thirdLetter two three) = two := by
  have bits : (one.toNat % 4 * 16 + two.toNat / 16) % 16 * 16 + (two.toNat % 16 * 4 + three.toNat / 64) / 4 =
      two.toNat := by
    have := two.toNat_lt
    have := three.toNat_lt
    omega
  rw [secondOctet, value_secondLetter, value_thirdLetter, bits, UInt8.ofNat_toNat]

@[simp] theorem thirdOctet_letters : thirdOctet (thirdLetter two three) (fourthLetter three) = three := by
  have bits : (two.toNat % 16 * 4 + three.toNat / 64) % 4 * 64 + three.toNat % 64 = three.toNat := by
    have := three.toNat_lt
    omega
  rw [thirdOctet, value_thirdLetter, value_fourthLetter, bits, UInt8.ofNat_toNat]

theorem letters_isBase64 : Octet.isBase64 (firstLetter one) = true ∧ Octet.isBase64 (secondLetter one two) = true ∧
    Octet.isBase64 (thirdLetter two three) = true ∧ Octet.isBase64 (fourthLetter three) = true := by
  have := one.toNat_lt
  have := two.toNat_lt
  have := three.toNat_lt
  exact ⟨isBase64_letter (by omega), isBase64_letter (by omega), isBase64_letter (by omega),
    isBase64_letter (by omega)⟩

/-- Data is found again in its letters. -/
theorem decode_encode (data : Bytes) : decode (encode data) = data := by
  fun_induction encode data with
  | case1 => rfl
  | case2 one => simp [decode]
  | case3 one two => simp [decode]
  | case4 one two three rest ih => simp [decode, ih]

theorem encode_injective : Function.Injective encode :=
  Function.LeftInverse.injective decode_encode

end Group

section Groups

variable {first second third fourth : UInt8}

theorem letter_eq {octet : UInt8} {index : Nat} (isLetter : Octet.isBase64 octet = true)
    (same : index = value octet) : letter index = octet := by
  rw [same, (letter_value isLetter).2]

theorem toNat_firstOctet (one : Octet.isBase64 first = true) (two : Octet.isBase64 second = true) :
    (firstOctet first second).toNat = value first * 4 + value second / 16 := by
  have := (letter_value one).1
  have := (letter_value two).1
  exact UInt8.toNat_ofNat'.trans (Nat.mod_eq_of_lt (by omega))

theorem toNat_secondOctet (three : Octet.isBase64 third = true) :
    (secondOctet second third).toNat = value second % 16 * 16 + value third / 4 := by
  have := (letter_value three).1
  exact UInt8.toNat_ofNat'.trans (Nat.mod_eq_of_lt (by omega))

theorem toNat_thirdOctet (four : Octet.isBase64 fourth = true) :
    (thirdOctet third fourth).toNat = value third % 4 * 64 + value fourth := by
  have := (letter_value four).1
  exact UInt8.toNat_ofNat'.trans (Nat.mod_eq_of_lt (by omega))

theorem firstLetter_octet (one : Octet.isBase64 first = true) (two : Octet.isBase64 second = true) :
    firstLetter (firstOctet first second) = first := by
  have := (letter_value two).1
  refine letter_eq one ?_
  rw [toNat_firstOctet one two]
  omega

theorem secondLetter_octets (one : Octet.isBase64 first = true) (two : Octet.isBase64 second = true)
    (three : Octet.isBase64 third = true) :
    secondLetter (firstOctet first second) (secondOctet second third) = second := by
  have := (letter_value two).1
  have := (letter_value three).1
  refine letter_eq two ?_
  rw [toNat_firstOctet one two, toNat_secondOctet three]
  omega

theorem thirdLetter_octets (three : Octet.isBase64 third = true)
    (four : Octet.isBase64 fourth = true) :
    thirdLetter (secondOctet second third) (thirdOctet third fourth) = third := by
  have := (letter_value three).1
  have := (letter_value four).1
  refine letter_eq three ?_
  rw [toNat_secondOctet three, toNat_thirdOctet four]
  omega

theorem fourthLetter_octet (four : Octet.isBase64 fourth = true) : fourthLetter (thirdOctet third fourth) = fourth := by
  have := (letter_value four).1
  refine letter_eq four ?_
  rw [toNat_thirdOctet four]
  omega

/-- Where the second letter is the last one, it has four bits to spare. -/
theorem secondLetter_octet (one : Octet.isBase64 first = true) (two : Octet.isBase64 second = true)
    (unused : value second % 16 = 0) : secondLetter (firstOctet first second) 0 = second := by
  have := (letter_value two).1
  refine letter_eq two ?_
  rw [toNat_firstOctet one two, UInt8.toNat_zero]
  omega

/-- Where the third letter is the last one, it has two bits to spare. -/
theorem thirdLetter_octet (three : Octet.isBase64 third = true) (unused : value third % 4 = 0) :
    thirdLetter (secondOctet second third) 0 = third := by
  have := (letter_value three).1
  refine letter_eq three ?_
  rw [toNat_secondOctet three, UInt8.toNat_zero]
  omega

end Groups

section Canonical

variable {first second third fourth : UInt8} {letters front rest : Bytes}

theorem canonical_nil : Canonical [] :=
  ⟨List.forall_mem_nil _, by decide, nofun⟩

theorem canonical_two_iff : Canonical [first, second] ↔
    Octet.isBase64 first = true ∧ Octet.isBase64 second = true ∧ value second % 16 = 0 := by
  constructor
  · rintro ⟨every, _, unused⟩
    exact ⟨every first (by simp), every second (by simp), by simpa using unused second rfl⟩
  · rintro ⟨one, two, spare⟩
    refine ⟨by simp [one, two], by simp, ?_⟩
    rintro _ ⟨⟩
    simpa using spare

theorem canonical_three_iff : Canonical [first, second, third] ↔ Octet.isBase64 first = true ∧
    Octet.isBase64 second = true ∧ Octet.isBase64 third = true ∧ value third % 4 = 0 := by
  constructor
  · rintro ⟨every, _, unused⟩
    exact ⟨every first (by simp), every second (by simp), every third (by simp), by simpa using unused third rfl⟩
  · rintro ⟨one, two, three, spare⟩
    refine ⟨by simp [one, two, three], by simp, ?_⟩
    rintro _ ⟨⟩
    simpa using spare

/-- Four letters are three octets, and no bits are left over. -/
theorem canonical_append_iff (fours : front.length % 4 = 0) :
    Canonical (front ++ rest) ↔ (∀ octet ∈ front, Octet.isBase64 octet = true) ∧ Canonical rest := by
  have count : (front ++ rest).length % 4 = rest.length % 4 := by
    rw [List.length_append]
    omega
  have bits : 6 * (front ++ rest).length % 8 = 6 * rest.length % 8 := by omega
  constructor
  · rintro ⟨every, whole, unused⟩
    obtain ⟨here, there⟩ := List.forall_mem_append.mp every
    refine ⟨here, there, count ▸ whole, fun last ends => bits ▸ unused last ?_⟩
    rw [List.getLast?_append, ends, Option.some_or]
  · rintro ⟨here, there, whole, unused⟩
    refine ⟨List.forall_mem_append.mpr ⟨here, there⟩, count ▸ whole, fun last ends => ?_⟩
    rw [bits]
    cases rest with
    | nil => exact Nat.mod_one _
    | cons octet others =>
      rw [List.getLast?_append, List.getLast?_eq_some_getLast (List.cons_ne_nil octet others), Option.some_or] at ends
      exact unused last (by rw [← ends, List.getLast?_eq_some_getLast])

theorem canonical_cons_iff : Canonical (first :: second :: third :: fourth :: rest) ↔
    (Octet.isBase64 first = true ∧ Octet.isBase64 second = true ∧ Octet.isBase64 third = true ∧
      Octet.isBase64 fourth = true) ∧ Canonical rest := by
  have whole : Canonical ([first, second, third, fourth] ++ rest) ↔ _ := canonical_append_iff (by simp)
  simpa using whole

/-- What is encoded makes up whole octets. -/
theorem canonical_encode (data : Bytes) : Canonical (encode data) := by
  fun_induction encode data with
  | case1 => exact canonical_nil
  | case2 one =>
    obtain ⟨isFirst, isSecond, _⟩ := letters_isBase64 one 0 0
    refine canonical_two_iff.mpr ⟨isFirst, isSecond, ?_⟩
    rw [value_secondLetter, UInt8.toNat_zero]
    omega
  | case3 one two =>
    obtain ⟨isFirst, isSecond, isThird, _⟩ := letters_isBase64 one two 0
    refine canonical_three_iff.mpr ⟨isFirst, isSecond, isThird, ?_⟩
    rw [value_thirdLetter, UInt8.toNat_zero]
    omega
  | case4 one two three rest ih => exact canonical_cons_iff.mpr ⟨letters_isBase64 one two three, ih⟩

theorem encode_decode (canonical : Canonical letters) : encode (decode letters) = letters := by
  fun_induction decode letters with
  | case1 first second third fourth rest ih =>
    obtain ⟨⟨one, two, three, four⟩, others⟩ := canonical_cons_iff.mp canonical
    rw [encode, firstLetter_octet one two, secondLetter_octets one two three, thirdLetter_octets three four,
      fourthLetter_octet four, ih others]
  | case2 first second third =>
    obtain ⟨one, two, three, unused⟩ := canonical_three_iff.mp canonical
    rw [encode, firstLetter_octet one two, secondLetter_octets one two three, thirdLetter_octet three unused]
  | case3 first second =>
    obtain ⟨one, two, unused⟩ := canonical_two_iff.mp canonical
    rw [encode, firstLetter_octet one two, secondLetter_octet one two unused]
  | case4 lone => exact absurd rfl canonical.whole
  | case5 => rfl

theorem length_flatten_groups {groups : List Bytes} (fours : ∀ group ∈ groups, group.length = 4) :
    groups.flatten.length % 4 = 0 := by
  rw [List.length_flatten, List.map_congr_left fours]
  simp

/-- Canonical letters are rows of four and two or three more, or none. -/
theorem exists_groups (canonical : Canonical letters) : ∃ groups tail, letters = List.flatten groups ++ tail ∧
    (∀ group ∈ groups, group.length = 4 ∧ ∀ octet ∈ group, Octet.isBase64 octet = true) ∧
    Canonical tail ∧ tail.length < 4 := by
  fun_induction decode letters with
  | case1 first second third fourth rest ih =>
    obtain ⟨⟨one, two, three, four⟩, others⟩ := canonical_cons_iff.mp canonical
    obtain ⟨groups, tail, rfl, every, ends, few⟩ := ih others
    refine ⟨[first, second, third, fourth] :: groups, tail, rfl, ?_, ends, few⟩
    exact List.forall_mem_cons.mpr ⟨⟨rfl, by simp [one, two, three, four]⟩, every⟩
  | case2 first second third => exact ⟨[], _, rfl, List.forall_mem_nil _, canonical, by simp⟩
  | case3 first second => exact ⟨[], _, rfl, List.forall_mem_nil _, canonical, by simp⟩
  | case4 lone => exact absurd rfl canonical.whole
  | case5 => exact ⟨[], [], rfl, List.forall_mem_nil _, canonical, by simp⟩

/-- Letters that make up whole octets are an encoding, and of one string of octets only. -/
theorem existsUnique_encode_iff : (∃! data, encode data = letters) ↔ Canonical letters := by
  constructor
  · rintro ⟨data, rfl, _⟩
    exact canonical_encode data
  · intro canonical
    exact ⟨decode letters, encode_decode canonical, fun data same =>
      encode_injective (same.trans (encode_decode canonical).symm)⟩

end Canonical

section Padding

variable {letters front content : Bytes}

theorem padded_iff : OptionallyPadded letters content ↔
    ∃ signs, (signs = [] ∨ signs = padding letters) ∧ content = letters ++ signs := by
  simp [OptionallyPadded, or_and_right, exists_or]

theorem padding_append (fours : front.length % 4 = 0) : padding (front ++ letters) = padding letters := by
  have count : (front ++ letters).length % 4 = letters.length % 4 := by
    rw [List.length_append]
    omega
  rw [padding, count, padding]

theorem OptionallyPadded.append (padded : OptionallyPadded letters content) (fours : front.length % 4 = 0) :
    OptionallyPadded (front ++ letters) (front ++ content) := by
  rw [OptionallyPadded, padding_append fours, List.append_assoc]
  exact padded.imp (congrArg (front ++ ·)) (congrArg (front ++ ·))

theorem stripped_append_replicate (every : ∀ octet ∈ letters, Octet.isBase64 octet = true) (count : Nat) :
    stripped (letters ++ List.replicate count '='.toUInt8) = letters := by
  induction count with
  | zero =>
    rw [List.replicate_zero, List.append_nil, stripped, List.rdropWhile_eq_self_iff]
    intro filled isSign
    have isLetter := every _ (List.getLast_mem filled)
    rw [beq_iff_eq.mp isSign] at isLetter
    cases isLetter
  | succ count ih =>
    rw [List.replicate_succ', ← List.append_assoc, stripped, List.rdropWhile_concat_pos (· == '='.toUInt8) _ _ rfl]
    exact ih

theorem OptionallyPadded.mem (canonical : Canonical letters) (padded : OptionallyPadded letters content) :
    ∀ octet ∈ content, Octet.isBase64 octet = true ∨ octet = '='.toUInt8 := by
  obtain ⟨signs, form, rfl⟩ := padded_iff.mp padded
  refine List.forall_mem_append.mpr ⟨fun octet member => .inl (canonical.every octet member), fun octet member => ?_⟩
  rcases form with rfl | rfl
  · cases member
  · exact .inr (List.eq_of_mem_replicate member)

/-- Without its padding, an encoding is the letters of the data. -/
theorem stripped_of_padded (canonical : Canonical letters) (padded : OptionallyPadded letters content) :
    stripped content = letters := by
  rcases padded with rfl | rfl
  · simpa using stripped_append_replicate canonical.every 0
  · exact stripped_append_replicate canonical.every _

end Padding

end ODataLiteral.Base64Url
