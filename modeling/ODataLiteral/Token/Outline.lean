import ODataLiteral.Hidden
import ODataLiteral.Token.Tree

/-! Tokens as an outline. A name is followed by what is in it, in parentheses or braces. -/
namespace ODataLiteral.Outline

def record (name : String) (fields : List (String × Bracketed)) : Bracketed :=
  .group (name ++ " \x7b") "\x7d" true fields

/-- Numbers from 1e-4 up to 1e16 are positional, and only a negative exponent has a sign. -/
def numberLayout : Binary64.Layout where
  leastPower := -4
  greatestPower := 15
  plusSign := false
  tie := .up
  infinity := "inf"
  negativeInfinity := "-inf"
  notANumber := "NaN"

/-- A character that does not show is written as its code point. -/
def other? (character : Char) : Option (List Char) :=
  if Hidden.isHidden character then some ("\\u\x7b".toList ++ Quoted.hexDigits character ++ ['\x7d'])
  else none

def vocabulary : Vocabulary where
  record := record
  variant name value := .group (name ++ "(") ")" false [("", value)]
  fields := record
  unit := .leaf
  list items := .group "[" "]" false (items.map fun item => ("", item))
  text text := .leaf (Quoted.quoted other? text)
  number value := .leaf (value.text numberLayout)

def style : Bracketed.Style where
  separator := ", "
  labelEnd := ": "
  indent := 4
  lastComma := true

/-- The outline on one line. -/
def compact (tree : Bracketed) : String :=
  tree.line style

/-- The outline with one part a line. -/
def pretty (tree : Bracketed) : String :=
  tree.block style 0

end ODataLiteral.Outline
