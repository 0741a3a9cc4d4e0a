/-! Texts made of nested brackets, written on one line or with every item on a line of its own, and texts between
double quotes. -/
namespace ODataLiteral

inductive Bracketed where
  | leaf (text : String)
  /-- Items between two brackets, each with a label or an empty one.
  A spaced group keeps its brackets apart from its items on one line too. -/
  | group (opening closing : String) (spaced : Bool) (items : List (String × Bracketed))

namespace Bracketed

/-- How items are told apart. -/
structure Style where
  /-- What stands between two items on one line. -/
  separator : String
  /-- What stands after a label on one line. -/
  labelEnd : String
  /-- The spaces that one level adds to a line's indentation. -/
  indent : Nat
  /-- Whether the last item on its own line has a comma after it. -/
  lastComma : Bool

def label (labelEnd text : String) : String :=
  if text.isEmpty then "" else text ++ labelEnd

def spaces (count : Nat) : String :=
  String.ofList (List.replicate count ' ')

mutual

/-- The text on one line. -/
def line (style : Style) : Bracketed → String
  | leaf text => text
  | group opening closing spaced items =>
    let inner := style.separator.intercalate (lines style items)
    if spaced then opening ++ " " ++ inner ++ " " ++ closing else opening ++ inner ++ closing

def lines (style : Style) : List (String × Bracketed) → List String
  | [] => []
  | (name, item) :: rest => (label style.labelEnd name ++ item.line style) :: lines style rest

end

mutual

/-- The text with one item a line, at some depth. A group without items stays on its line. -/
def block (style : Style) (depth : Nat) : Bracketed → String
  | leaf text => text
  | group opening closing _ items =>
    if items.isEmpty then opening ++ closing
    else
      let inner := ",\n".intercalate (blocks style (depth + 1) items)
      opening ++ "\n" ++ inner ++ (if style.lastComma then "," else "") ++ "\n" ++
        spaces (depth * style.indent) ++ closing

def blocks (style : Style) (depth : Nat) : List (String × Bracketed) → List String
  | [] => []
  | (name, item) :: rest =>
    (spaces (depth * style.indent) ++ label ": " name ++ item.block style depth) ::
      blocks style depth rest

end

end Bracketed

namespace Quoted

/-! Texts between double quotes, with a backslash before a quote or a backslash.
What else is escaped, and how, is up to the format. -/

/-- A control character's own letter. -/
def letterEscapes : List (Char × Char) :=
  [('\n', 'n'), ('\r', 'r'), ('\t', 't')]

/-- The digits of a code point in hexadecimal. -/
def hexDigits (character : Char) : List Char :=
  Nat.toDigits 16 character.toNat

/-- A text in quotes, where `other?` gives the escape of a character that every format may write
as it is. -/
def quoted (other? : Char → Option (List Char)) (text : String) : String :=
  let escape (character : Char) : List Char :=
    if character == '"' || character == '\\' then ['\\', character]
    else match letterEscapes.lookup character with
      | some letter => ['\\', letter]
      | none => (other? character).getD [character]
  String.ofList ('"' :: text.toList.flatMap escape ++ ['"'])

/-- JSON escapes the control characters: some by a letter, the others by four digits. -/
def jsonOther? (character : Char) : Option (List Char) :=
  if character == '\x08' then some ['\\', 'b']
  else if character == '\x0c' then some ['\\', 'f']
  else if character.toNat < 32 then
    let digits := hexDigits character
    some ('\\' :: 'u' :: List.replicate (4 - digits.length) '0' ++ digits)
  else none

def json (text : String) : String :=
  quoted jsonOther? text

end Quoted

end ODataLiteral
