import Mathlib.Computability.Language
import Mathlib.Order.CompletePartialOrder
import ODataLiteral.Proofs.Characters

/-! Grammars as sets of texts. As in ABNF, an alternative is a sum, a sequence is a product, and a repetition has a
least and a greatest number of parts. Octets are derived when they spell a text of the grammar. -/
namespace ODataLiteral.Abnf

variable {text : Text}

/-- One character of a class. -/
def character (accepts : UriChar → Bool) : Language UriChar :=
  { text : Text | ∃ character, accepts character = true ∧ text = [character] }

/-- An octet of a class in its plain form. -/
def raw (accepts : UInt8 → Bool) : Language UriChar :=
  character (UriChar.isPlain accepts)

/-- An octet of a class in its encoded form. -/
def encoded (accepts : UInt8 → Bool) : Language UriChar :=
  character (UriChar.isEncoded accepts)

/-- A mark that may be encoded. -/
def mark (delimiter : Char) : Language UriChar :=
  raw (· == delimiter.toUInt8) + encoded (· == delimiter.toUInt8)

/-- A keyword in plain characters. -/
def word (keyword : String) : Language UriChar :=
  { text : Text | text = Text.ofWord keyword }

/-- From `least` to `most` parts in a row. -/
def repeated (least : Nat) (most : Option Nat) (part : Language UriChar) : Language UriChar :=
  { text : Text | ∃ parts : List Text, least ≤ parts.length ∧
      (∀ bound, most = some bound → parts.length ≤ bound) ∧ (∀ one ∈ parts, one ∈ part) ∧
      text = parts.flatten }

def optional (part : Language UriChar) : Language UriChar :=
  repeated 0 (some 1) part

/-- Items with a separator between two neighbours: `item *( separator item )`. -/
def row (separator item : Language UriChar) : Language UriChar :=
  item * repeated 0 none (separator * item)

/-- Octets that spell a text of a grammar. -/
def Derives (grammar : Language UriChar) (octets : Bytes) : Prop :=
  ∃ text : Text, text ∈ grammar ∧ text.Legible ∧ text.bytes = octets

/-- Octets that start with a text of a grammar. -/
def Begins (grammar : Language UriChar) (octets : Bytes) : Prop :=
  ∃ front, front <+: octets ∧ Derives grammar front

theorem Derives.mono {first second : Language UriChar} {octets : Bytes} (within : first ≤ second)
    (derived : Derives first octets) : Derives second octets := by
  obtain ⟨text, member, rest⟩ := derived
  exact ⟨text, within member, rest⟩

theorem Derives.append {first second : Language UriChar} {before after : Bytes}
    (one : Derives first before) (two : Derives second after) :
    Derives (first * second) (before ++ after) := by
  obtain ⟨front, member, legible, rfl⟩ := one
  obtain ⟨back, memberToo, legibleToo, rfl⟩ := two
  refine ⟨front ++ back, Language.append_mem_mul member memberToo, ?_, Text.bytes_append _ _⟩
  exact fun character inside => (List.mem_append.mp inside).elim (legible _) (legibleToo _)

section Membership

theorem mem_character {accepts : UriChar → Bool} :
    text ∈ character accepts ↔ ∃ character, accepts character = true ∧ text = [character] :=
  Iff.rfl

theorem character_add (first second : UriChar → Bool) :
    character first + character second = character fun one => first one || second one := by
  ext text
  simp only [Language.mem_add, mem_character, Bool.or_eq_true]
  constructor
  · rintro (⟨one, accepted, rfl⟩ | ⟨one, accepted, rfl⟩)
    · exact ⟨one, .inl accepted, rfl⟩
    · exact ⟨one, .inr accepted, rfl⟩
  · rintro ⟨one, accepted | accepted, rfl⟩
    · exact .inl ⟨one, accepted, rfl⟩
    · exact .inr ⟨one, accepted, rfl⟩

theorem mem_raw {accepts : UInt8 → Bool} :
    text ∈ raw accepts ↔ ∃ octet, accepts octet = true ∧ text = [.plain octet] := by
  rw [raw, mem_character]
  constructor
  · rintro ⟨character, accepted, rfl⟩
    cases character with
    | plain octet => exact ⟨octet, accepted, rfl⟩
    | encoded high low => cases accepted
  · rintro ⟨octet, accepted, rfl⟩
    exact ⟨.plain octet, accepted, rfl⟩

theorem mark_eq (delimiter : Char) : mark delimiter = character (UriChar.isDelimiter delimiter) :=
  character_add _ _

theorem mem_mark {delimiter : Char} :
    text ∈ mark delimiter ↔ ∃ character, character.isDelimiter delimiter = true ∧ text = [character] := by
  rw [mark_eq, mem_character]

theorem mem_repeated {least : Nat} {most : Option Nat} {part : Language UriChar} :
    text ∈ repeated least most part ↔ ∃ parts : List Text, least ≤ parts.length ∧
      (∀ bound, most = some bound → parts.length ≤ bound) ∧ (∀ one ∈ parts, one ∈ part) ∧
      text = parts.flatten :=
  Iff.rfl

theorem mem_optional {part : Language UriChar} : text ∈ optional part ↔ text = [] ∨ text ∈ part := by
  rw [optional, mem_repeated]
  constructor
  · rintro ⟨parts, _, few, every, rfl⟩
    match parts, few 1 rfl with
    | [], _ => exact .inl rfl
    | [one], _ => exact .inr (by simpa using every)
  · rintro (rfl | member)
    · exact ⟨[], Nat.le_refl _, fun _ _ => Nat.zero_le _, nofun, rfl⟩
    · refine ⟨[text], Nat.zero_le _, ?_, by simpa using member, by simp⟩
      rintro bound ⟨⟩
      exact Nat.le_refl _

theorem optional_eq (part : Language UriChar) : optional part = part + 1 := by
  ext text
  rw [mem_optional, Language.mem_add, Language.mem_one, or_comm]

/-- Parts of one element each are the elements of a row. -/
theorem exists_singletons_iff {α : Type} {accepts : α → Prop} {least : Nat} {most : Option Nat} {row : List α} :
    (∃ parts : List (List α), least ≤ parts.length ∧ (∀ bound, most = some bound → parts.length ≤ bound) ∧
      (∀ one ∈ parts, ∃ element, accepts element ∧ one = [element]) ∧ row = parts.flatten) ↔
        least ≤ row.length ∧ (∀ bound, most = some bound → row.length ≤ bound) ∧ ∀ element ∈ row, accepts element := by
  constructor
  · rintro ⟨parts, enough, few, every, rfl⟩
    have single (one : List α) (member : one ∈ parts) : one.length = 1 := by
      obtain ⟨_, _, rfl⟩ := every one member
      rfl
    have count : parts.flatten.length = parts.length := by
      rw [List.length_flatten, List.map_congr_left single]
      simp
    refine ⟨by omega, fun bound same => count ▸ few bound same, fun element member => ?_⟩
    obtain ⟨one, inside, member⟩ := List.mem_flatten.mp member
    obtain ⟨_, accepted, rfl⟩ := every one inside
    rwa [List.mem_singleton.mp member]
  · rintro ⟨enough, few, every⟩
    refine ⟨row.map fun element => [element], by simpa, by simpa, ?_, ?_⟩
    · intro one member
      obtain ⟨element, inside, rfl⟩ := List.mem_map.mp member
      exact ⟨element, every element inside, rfl⟩
    · simp [List.flatten_eq_flatMap, List.flatMap_map]

theorem mem_repeated_character {least : Nat} {most : Option Nat} {accepts : UriChar → Bool} :
    text ∈ repeated least most (character accepts) ↔ least ≤ text.length ∧
      (∀ bound, most = some bound → text.length ≤ bound) ∧
      ∀ character ∈ text, accepts character = true :=
  exists_singletons_iff

theorem mem_row {separator item : Language UriChar} :
    text ∈ row separator item ↔ ∃ first parts, first ∈ item ∧
      (∀ part ∈ parts, part ∈ separator * item) ∧ text = first ++ List.flatten parts := by
  simp only [row, Language.mem_mul, mem_repeated]
  constructor
  · rintro ⟨first, member, _, ⟨parts, _, _, every, rfl⟩, rfl⟩
    exact ⟨first, parts, member, every, rfl⟩
  · rintro ⟨first, parts, member, every, rfl⟩
    exact ⟨first, member, _, ⟨parts, Nat.zero_le _, nofun, every, rfl⟩, rfl⟩

theorem item_le_row (separator item : Language UriChar) : item ≤ row separator item := by
  intro text member
  exact mem_row.mpr ⟨text, [], member, nofun, (List.append_nil _).symm⟩

theorem more_le_row (separator item : Language UriChar) :
    item * separator * row separator item ≤ row separator item := by
  rintro _ ⟨_, ⟨first, member, gap, separates, rfl⟩, _, others, rfl⟩
  obtain ⟨next, parts, memberToo, every, rfl⟩ := mem_row.mp others
  refine mem_row.mpr ⟨first, (gap ++ next) :: parts, member, ?_, by simp⟩
  exact List.forall_mem_cons.mpr ⟨Language.append_mem_mul separates memberToo, every⟩

end Membership

section Octets

variable {grammar first second part : Language UriChar} {octets rest : Bytes}

/-- Octets spell one text only, the one that they are decoded to. -/
theorem derives_iff :
    Derives grammar octets ↔ Text.ofBytes octets ∈ grammar ∧ (Text.ofBytes octets).Legible := by
  constructor
  · rintro ⟨text, member, legible, rfl⟩
    rw [Text.ofBytes_bytes legible]
    exact ⟨member, legible⟩
  · rintro ⟨member, legible⟩
    exact ⟨_, member, legible, Text.bytes_ofBytes octets⟩

theorem Derives.ne_nil (derived : Derives grammar octets) (filled : [] ∉ grammar) : octets ≠ [] := by
  rintro rfl
  exact filled (derives_iff.mp derived).1

theorem Derives.ofBytes_append (derived : Derives grammar octets) (rest : Bytes) :
    Text.ofBytes (octets ++ rest) = Text.ofBytes octets ++ Text.ofBytes rest := by
  obtain ⟨text, _, legible, rfl⟩ := derived
  rw [Text.ofBytes_bytes_append legible, Text.ofBytes_bytes legible]

theorem derives_mul_iff : Derives (first * second) octets ↔
    ∃ before after, Derives first before ∧ Derives second after ∧ octets = before ++ after := by
  constructor
  · rintro ⟨_, ⟨front, member, back, memberToo, rfl⟩, legible, rfl⟩
    obtain ⟨here, there⟩ := List.forall_mem_append.mp legible
    exact ⟨_, _, ⟨front, member, here, rfl⟩, ⟨back, memberToo, there, rfl⟩, Text.bytes_append _ _⟩
  · rintro ⟨before, after, one, two, rfl⟩
    exact one.append two

theorem derives_add_iff : Derives (first + second) octets ↔ Derives first octets ∨ Derives second octets := by
  simp only [derives_iff, Language.mem_add, or_and_right]

theorem derives_word_iff {keyword : String} (legible : (Text.ofWord keyword).Legible) :
    Derives (word keyword) octets ↔ octets = (Text.ofWord keyword).bytes := by
  constructor
  · rintro ⟨_, rfl, _, rfl⟩
    rfl
  · rintro rfl
    exact ⟨_, rfl, legible, rfl⟩

theorem derives_character_iff {accepts : UriChar → Bool} : Derives (character accepts) octets ↔
    ∃ one : UriChar, accepts one = true ∧ one.Legible ∧ octets = one.bytes := by
  constructor
  · rintro ⟨_, ⟨one, accepted, rfl⟩, legible, rfl⟩
    exact ⟨one, accepted, legible one List.mem_cons_self, by simp [Text.bytes]⟩
  · rintro ⟨one, accepted, legible, rfl⟩
    exact ⟨[one], ⟨one, accepted, rfl⟩, by simpa [Text.Legible] using legible, by simp [Text.bytes]⟩

/-- The parts of a repetition spell octets of their own. -/
theorem derives_repeated_iff {least : Nat} {most : Option Nat} : Derives (repeated least most part) octets ↔
    ∃ parts : List Bytes, least ≤ parts.length ∧ (∀ bound, most = some bound → parts.length ≤ bound) ∧
      (∀ one ∈ parts, Derives part one) ∧ octets = parts.flatten := by
  constructor
  · rintro ⟨_, ⟨texts, enough, few, every, rfl⟩, legible, rfl⟩
    refine ⟨texts.map Text.bytes, by simpa, by simpa, ?_, ?_⟩
    · intro one member
      obtain ⟨text, inside, rfl⟩ := List.mem_map.mp member
      exact ⟨text, every text inside, fun character here => legible _ (List.mem_flatten_of_mem inside here), rfl⟩
    · exact Text.bytes_flatten texts
  · rintro ⟨parts, enough, few, every, rfl⟩
    refine ⟨(parts.map Text.ofBytes).flatten,
      ⟨parts.map Text.ofBytes, by simpa, by simpa, ?_, rfl⟩, ?_, ?_⟩
    · intro text member
      obtain ⟨one, inside, rfl⟩ := List.mem_map.mp member
      exact (derives_iff.mp (every one inside)).1
    · intro character member
      obtain ⟨text, inside, here⟩ := List.mem_flatten.mp member
      obtain ⟨one, among, rfl⟩ := List.mem_map.mp inside
      exact (derives_iff.mp (every one among)).2 character here
    · have inverse : Text.bytes ∘ Text.ofBytes = id := funext Text.bytes_ofBytes
      rw [Text.bytes_flatten, List.map_map, inverse, List.map_id]

theorem derives_raw_iff {accepts : UInt8 → Bool} (clean : accepts UriChar.percent = false) :
    Derives (raw accepts) octets ↔ ∃ octet, accepts octet = true ∧ octets = [octet] := by
  rw [raw, derives_character_iff]
  constructor
  · rintro ⟨one, accepted, _, rfl⟩
    cases one with
    | plain octet => exact ⟨octet, accepted, rfl⟩
    | encoded high low => cases accepted
  · rintro ⟨octet, accepted, rfl⟩
    refine ⟨.plain octet, accepted, ?_, rfl⟩
    rintro rfl
    cases clean.symm.trans accepted

/-- A row of plain octets of a class is as long as it has parts. -/
theorem derives_repeated_raw_iff {accepts : UInt8 → Bool} (clean : accepts UriChar.percent = false) {least : Nat}
    {most : Option Nat} : Derives (repeated least most (raw accepts)) octets ↔
      least ≤ octets.length ∧ (∀ bound, most = some bound → octets.length ≤ bound) ∧
        ∀ octet ∈ octets, accepts octet = true := by
  simp only [derives_repeated_iff, derives_raw_iff clean]
  exact exists_singletons_iff

theorem derives_optional_iff : Derives (optional part) octets ↔ octets = [] ∨ Derives part octets := by
  constructor
  · rintro ⟨text, member, legible, rfl⟩
    exact (mem_optional.mp member).imp (fun none => by rw [none]; rfl) fun inside => ⟨text, inside, legible, rfl⟩
  · rintro (rfl | ⟨text, member, legible, rfl⟩)
    · exact ⟨[], mem_optional.mpr (.inl rfl), List.forall_mem_nil _, rfl⟩
    · exact ⟨text, mem_optional.mpr (.inr member), legible, rfl⟩

/-- The next character decides whether a class of characters begins, for none of a class is a bare percent sign. -/
theorem begins_character_iff {accepts : UriChar → Bool} (clean : accepts (.plain UriChar.percent) = false) :
    Begins (character accepts) octets ↔
      ∃ one, (Text.ofBytes octets).head? = some one ∧ accepts one = true := by
  constructor
  · rintro ⟨front, ⟨back, rfl⟩, derived⟩
    obtain ⟨one, accepted, legible, rfl⟩ := derives_character_iff.mp derived
    refine ⟨one, ?_, accepted⟩
    rw [Text.ofBytes_character_append legible]
    rfl
  · rintro ⟨one, first, accepted⟩
    obtain ⟨tail, same⟩ := List.head?_eq_some_iff.mp first
    obtain ⟨after, read, _⟩ := Text.next?_of_ofBytes same
    have legible : one.Legible := by
      refine UriChar.legible_of_next? read ?_
      rintro rfl
      cases clean.symm.trans accepted
    exact ⟨one.bytes, ⟨after, UriChar.bytes_of_next? read⟩, derives_character_iff.mpr ⟨one, accepted, legible, rfl⟩⟩

end Octets

end ODataLiteral.Abnf
