import ODataLiteral.Bytes

/-! Characters of a URI text: an octet written plainly, or a percent sign with two hexadecimal digits.
Every rule of the grammar looks at whole characters, so an encoded delimiter is one step for it,
just as a plain one. A percent sign that starts no encoded octet is a plain character that no rule accepts. -/
namespace ODataLiteral

/-- One character as it is written, so its octets can be given back. -/
inductive UriChar where
  | plain (octet : UInt8)
  | encoded (high low : UInt8)
deriving DecidableEq, Repr

/-- A piece of a source, character by character. -/
abbrev Text := List UriChar

namespace UriChar

def percent : UInt8 := '%'.toUInt8

/-- The octets that the character is written with. -/
def bytes : UriChar → Bytes
  | plain octet => [octet]
  | encoded high low => [percent, high, low]

/-- The number of octets that the character is written with. -/
def width : UriChar → Nat
  | plain _ => 1
  | encoded _ _ => 3

/-- The octet that an encoded character stands for. Plain characters have none. -/
def decoded? : UriChar → Option UInt8
  | plain _ => none
  | encoded high low => some (Octet.hexValue high * 16 + Octet.hexValue low)

/-- A plain character of a class. -/
def isPlain (accepts : UInt8 → Bool) : UriChar → Bool
  | plain octet => accepts octet
  | encoded _ _ => false

/-- An encoded character whose octet is in a class. -/
def isEncoded (accepts : UInt8 → Bool) (character : UriChar) : Bool :=
  character.decoded?.any accepts

/-- A plain decimal digit. -/
def isDigit : UriChar → Bool :=
  isPlain Octet.isDigit

/-- A delimiter in either of its forms, plain or encoded. -/
def isDelimiter (delimiter : Char) (character : UriChar) : Bool :=
  character.isPlain (· == delimiter.toUInt8) || character.isEncoded (· == delimiter.toUInt8)

/-- The first character of a buffer and the octets after it. -/
def next? : Bytes → Option (UriChar × Bytes)
  | [] => none
  | octet :: rest =>
    if octet == percent then
      match rest with
      | high :: low :: after =>
        if Octet.isHexDigit high && Octet.isHexDigit low then some (encoded high low, after)
        else some (plain octet, rest)
      | _ => some (plain octet, rest)
    else some (plain octet, rest)

theorem length_bytes (character : UriChar) : character.bytes.length = character.width := by
  cases character <;> rfl

/-- Reading a character loses nothing. -/
theorem bytes_of_next? {source rest : Bytes} {character : UriChar}
    (read : next? source = some (character, rest)) : character.bytes ++ rest = source := by
  unfold next? at read
  split at read
  · cases read
  · rename_i octet after
    by_cases escape : octet = percent
    · subst escape
      simp only [beq_self_eq_true, if_true] at read
      split at read
      · split at read <;> cases read <;> rfl
      · cases read; rfl
    · simp only [beq_iff_eq, escape, if_false] at read
      cases read; rfl

end UriChar

namespace Text

/-- The octets that the text is written with. -/
def bytes (text : Text) : Bytes :=
  text.flatMap UriChar.bytes

/-- The number of octets that the text is written with. -/
def width (text : Text) : Nat :=
  text.foldr (fun character rest => character.width + rest) 0

/-- The plain characters of a keyword. -/
def ofWord (word : String) : Text :=
  word.toList.map (UriChar.plain ·.toUInt8)

/-- A numeral's value with one more character at its end. What is no plain digit is passed over. -/
def extendNumeral (value : Nat) : UriChar → Nat
  | .plain octet => if Octet.isDigit octet then 10 * value + (octet - '0'.toUInt8).toNat else value
  | .encoded _ _ => value

/-- The value of the decimal digits of a text. -/
def natural (text : Text) : Nat :=
  text.foldl extendNumeral 0

/-- The value of the decimal digits of a text, where no digit counts after the one that reaches the limit. -/
def naturalUpTo (limit : Nat) (text : Text) : Nat :=
  text.foldl (fun value character =>
    if value < limit then extendNumeral value character else value) 0

/-- A magnitude with the sign of a numeral: only a minus sign in front makes it negative. -/
def withSign (text : Text) (magnitude : Nat) : Int :=
  if text.head? = some (.plain '-'.toUInt8) then -(magnitude : Int) else magnitude

/-- The integer that a signed numeral denotes. -/
def integer (text : Text) : Int :=
  text.withSign text.natural

theorem bytes_append (first second : Text) :
    Text.bytes (first ++ second) = Text.bytes first ++ Text.bytes second :=
  List.flatMap_append

theorem width_append (first second : Text) :
    Text.width (first ++ second) = Text.width first + Text.width second := by
  induction first with
  | nil => exact (Nat.zero_add _).symm
  | cons character rest ih =>
    simp only [width, List.cons_append, List.foldr_cons] at ih ⊢
    rw [ih, Nat.add_assoc]

theorem length_bytes (text : Text) : text.bytes.length = text.width := by
  induction text with
  | nil => rfl
  | cons character rest ih =>
    have head := UriChar.length_bytes character
    simp only [bytes, width, List.flatMap_cons, List.length_append, List.foldr_cons] at ih ⊢
    omega

end Text

/-- The characters of a buffer, one step for each octet of `budget` at the most. -/
def Text.decodeWithin : (budget : Bytes) → Bytes → Text → Text
  | [], _, characters => characters.reverse
  | _ :: budget, source, characters =>
    match UriChar.next? source with
    | some (character, rest) => Text.decodeWithin budget rest (character :: characters)
    | none => characters.reverse

/-- All characters of a buffer. -/
def Text.ofBytes (source : Bytes) : Text :=
  Text.decodeWithin source source []

end ODataLiteral
