import ODataLiteral.Token.Tree

/-! Tokens as JSON. A name with something in it is an object with that one member. -/
namespace ODataLiteral.Json

def object (members : List (String × Bracketed)) : Bracketed :=
  .group "\x7b" "\x7d" false (members.map fun (name, value) => (Quoted.json name, value))

def array (items : List Bracketed) : Bracketed :=
  .group "[" "]" false (items.map fun item => ("", item))

def string (text : String) : Bracketed :=
  .leaf (Quoted.json text)

/-- Numbers from 1e-5 up to 1e16 are positional, exponents have a sign, and infinity is null. -/
def numberLayout : Binary64.Layout where
  leastPower := -5
  greatestPower := 15
  plusSign := true
  tie := .even
  infinity := "null"
  negativeInfinity := "null"
  notANumber := "null"

def vocabulary : Vocabulary where
  record _ fields := object fields
  variant name value := object [(name, value)]
  fields name fields := object [(name, object fields)]
  unit := string
  list := array
  text := string
  number value := .leaf (value.text numberLayout)

def style : Bracketed.Style where
  separator := ","
  labelEnd := ":"
  indent := 2
  lastComma := false

/-- The JSON text on one line. -/
def compact (tree : Bracketed) : String :=
  tree.line style

/-- The JSON text with one member or item a line. -/
def pretty (tree : Bracketed) : String :=
  tree.block style 0

end ODataLiteral.Json
