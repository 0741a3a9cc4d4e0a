import ODataLiteral.Uri.Char

/-! Lexical patterns in the style of ABNF, and the greedy reader for them.
A pattern is data, so the rules of the grammar can be read, printed and reasoned about as values.
Reading takes characters from the front of a buffer and never looks at what stands before it.
Alternatives are tried in order and repetitions take as much as they can, without going back. -/
namespace ODataLiteral

inductive Pattern where
  | empty
  | char (accepts : UriChar → Bool)
  | seq (first second : Pattern)
  | alt (first second : Pattern)
  | times (least : Nat) (most : Option Nat) (body : Pattern)
  | notBefore (ahead : Pattern)

namespace Pattern

instance : Append Pattern := ⟨seq⟩

instance : OrElse Pattern := ⟨fun first second => alt first (second ())⟩

/-- A plain character of an octet class. -/
def octet (accepts : UInt8 → Bool) : Pattern :=
  char (UriChar.isPlain accepts)

/-- One plain character. -/
def plain (character : Char) : Pattern :=
  octet (· == character.toUInt8)

/-- A delimiter in its plain or its encoded form. -/
def delimiter (character : Char) : Pattern :=
  char (UriChar.isDelimiter character)

/-- One character, written exactly so. -/
def same (character : UriChar) : Pattern :=
  char (· == character)

/-- A text, written exactly so. -/
def text : Text → Pattern
  | [] => empty
  | [character] => same character
  | character :: rest => same character ++ text rest

/-- A keyword in plain characters. -/
def word (keyword : String) : Pattern :=
  text (Text.ofWord keyword)

def optional (body : Pattern) : Pattern :=
  times 0 (some 1) body

def many (body : Pattern) : Pattern :=
  times 0 none body

def atLeast (least : Nat) (body : Pattern) : Pattern :=
  times least none body

def exactly (count : Nat) (body : Pattern) : Pattern :=
  times count (some count) body

/-- The body when the lead stands here, and nothing when it does not. A lead binds: once it is there,
the rest must follow. -/
def whenLedBy (lead rest : Pattern) : Pattern :=
  (lead ++ rest) <|> notBefore lead

/-- The pieces that a step takes one after another, at most `most` of them, and what is left.
The budget is the buffer itself: a step that takes a character uses up at least one of its octets. -/
def repeatStep (step : Bytes → Option (Text × Bytes)) :
    (budget : Bytes) → (most : Option Nat) → (pieces : List Text) → Bytes → List Text × Bytes
  | [], _, pieces, source => (pieces.reverse, source)
  | _ :: budget, most, pieces, source =>
    if most = some 0 then (pieces.reverse, source)
    else match step source with
      | some (piece, rest) =>
        repeatStep step budget (most.map (· - 1)) (piece :: pieces) rest
      | none => (pieces.reverse, source)

/-- The text that a pattern takes from the front of a buffer, and what follows it. -/
def scan : Pattern → Bytes → Option (Text × Bytes)
  | empty, source => some ([], source)
  | char accepts, source =>
    match UriChar.next? source with
    | some (character, rest) => if accepts character then some ([character], rest) else none
    | none => none
  | seq first second, source =>
    match first.scan source with
    | some (before, middle) =>
      match second.scan middle with
      | some (after, rest) => some (before ++ after, rest)
      | none => none
    | none => none
  | alt first second, source =>
    match first.scan source with
    | some taken => some taken
    | none => second.scan source
  | times least most body, source =>
    match repeatStep body.scan source most [] source with
    | (pieces, rest) => if least ≤ pieces.length then some (pieces.flatten, rest) else none
  | notBefore ahead, source =>
    match ahead.scan source with
    | some _ => none
    | none => some ([], source)

/-- The offset at which the pattern ends when it is read at an offset of a source. Past the end of the
source there is nothing left to take. -/
def endAt (pattern : Pattern) (source : Bytes) (offset : Nat) : Option Nat :=
  (pattern.scan (source.drop offset)).map fun (taken, _) => offset + taken.width

theorem append_eq_seq (first second : Pattern) : first ++ second = seq first second := rfl

theorem orElse_eq_alt (first second : Pattern) : (first <|> second) = alt first second := rfl

end Pattern

end ODataLiteral
