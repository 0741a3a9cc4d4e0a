import ODataLiteral.Bytes

/-! Strict UTF-8: shortest forms only, no surrogates, nothing above U+10FFFF.
A lead octet fixes the length of the sequence and the range of the second octet;
the later octets are continuation octets. -/
namespace ODataLiteral.Utf8

/-- The range of the octet after a lead octet, which excludes overlong forms and surrogates. -/
def secondInRange (lead second : UInt8) : Bool :=
  if lead == 0xE0 then 0xA0 ≤ second && second ≤ 0xBF
  else if lead == 0xED then 0x80 ≤ second && second ≤ 0x9F
  else if lead == 0xF0 then 0x90 ≤ second && second ≤ 0xBF
  else if lead == 0xF4 then 0x80 ≤ second && second ≤ 0x8F
  else 0x80 ≤ second && second ≤ 0xBF

def isContinuation (octet : UInt8) : Bool :=
  0x80 ≤ octet && octet ≤ 0xBF

/-- The six bits that a continuation octet adds to a code point. -/
def extend (value : Nat) (octet : UInt8) : Nat :=
  value * 64 + (octet.toNat - 0x80)

/-- Decoding with the characters read so far, last first. -/
def decodeOnto : Bytes → List Char → Option (List Char)
  | [], characters => some characters.reverse
  | lead :: rest, characters =>
    if lead < 0x80 then decodeOnto rest (Char.ofNat lead.toNat :: characters)
    else if 0xC2 ≤ lead && lead ≤ 0xDF then
      match rest with
      | second :: after =>
        if secondInRange lead second then
          decodeOnto after (Char.ofNat (extend (lead.toNat - 0xC0) second) :: characters)
        else none
      | _ => none
    else if 0xE0 ≤ lead && lead ≤ 0xEF then
      match rest with
      | second :: third :: after =>
        if secondInRange lead second && isContinuation third then
          decodeOnto after
            (Char.ofNat (extend (extend (lead.toNat - 0xE0) second) third) :: characters)
        else none
      | _ => none
    else if 0xF0 ≤ lead && lead ≤ 0xF4 then
      match rest with
      | second :: third :: fourth :: after =>
        if secondInRange lead second && isContinuation third && isContinuation fourth then
          decodeOnto after
            (Char.ofNat (extend (extend (extend (lead.toNat - 0xF0) second) third) fourth) ::
              characters)
        else none
      | _ => none
    else none

/-- The text that a buffer encodes, if it is valid UTF-8. -/
def decode? (source : Bytes) : Option String :=
  (decodeOnto source []).map String.ofList

end ODataLiteral.Utf8
