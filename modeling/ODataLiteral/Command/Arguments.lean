/-! Words of a command line, read against the parameters that a command takes.
Options and operands may come in any order. After a double dash every word is an operand.
The value of an option is judged when the next word is taken up, so an unknown option after it is
reported first. -/
namespace ODataLiteral

inductive ArgumentError where
  | unknownArgument
  | invalidValue
  | unexpectedValue
  | missingArgument
  | repeatedArgument
  | unknownCommand
  | helpRequested
  | versionRequested
deriving DecidableEq, Repr

/-- What an option does. -/
inductive Action where
  | help
  | version
  | flag
  | value (accepts : String → Bool) (repeatable : Bool)

structure Parameter where
  long : String
  short : Option Char
  action : Action

/-- What a command takes: its options, how many operands at the most, and which words may be operands. -/
structure Signature where
  parameters : List Parameter
  mostOperands : Option Nat
  acceptsOperand : String → Bool

/-- Words that have been taken up but not judged. -/
inductive Pending where
  | nothing
  | valueOf (parameter : Parameter) (value : Option String)
  | operands (words : List String)

/-- The options and operands found so far. -/
structure Arguments where
  options : List (String × List String)
  operands : List String
  pending : Pending

namespace Arguments

def empty : Arguments where
  options := []
  operands := []
  pending := .nothing

def isGiven (arguments : Arguments) (long : String) : Bool :=
  arguments.options.any (·.1 == long)

/-- All values of an option, in the order that they were given. -/
def valuesOf (arguments : Arguments) (long : String) : List String :=
  (arguments.options.filter (·.1 == long)).flatMap (·.2)

/-- Adds an option with its values, which must not have been given already unless it may repeat. -/
def add (arguments : Arguments) (parameter : Parameter) (values : List String) :
    Except ArgumentError Arguments :=
  let added := { arguments with options := arguments.options ++ [(parameter.long, values)] }
  match parameter.action with
  | .help => .error .helpRequested
  | .version => .error .versionRequested
  | .flag => if arguments.isGiven parameter.long then .error .repeatedArgument else .ok added
  | .value accepts repeatable =>
    if !repeatable && arguments.isGiven parameter.long then .error .repeatedArgument
    else if values.all accepts then .ok added
    else .error .invalidValue

/-- Judges the words that are pending. An option that still lacks its value is at fault first. -/
def settle (signature : Signature) (arguments : Arguments) : Except ArgumentError Arguments :=
  let settled := { arguments with pending := .nothing }
  match arguments.pending with
  | .nothing => .ok settled
  | .valueOf _ none => .error .invalidValue
  | .valueOf parameter (some value) => settled.add parameter [value]
  | .operands words =>
    if words.all signature.acceptsOperand then
      .ok { settled with operands := settled.operands ++ words }
    else .error .invalidValue

def operandCount (arguments : Arguments) : Nat :=
  arguments.operands.length + match arguments.pending with
    | .operands words => words.length
    | _ => 0

/-- Takes up an operand, unless the command takes no more of them. -/
def takeOperand (signature : Signature) (arguments : Arguments) (word : String) :
    Except ArgumentError Arguments :=
  if signature.mostOperands.any (· ≤ arguments.operandCount) then .error .unknownArgument
  else match arguments.pending with
    | .operands words => .ok { arguments with pending := .operands (words ++ [word]) }
    | _ => do
      let settled ← arguments.settle signature
      .ok { settled with pending := .operands [word] }

/-- Takes up an option by its long name, with the value after an equals sign if there is one. -/
def takeLong (signature : Signature) (arguments : Arguments) (long : String) (value : Option String) :
    Except ArgumentError Arguments :=
  match signature.parameters.find? (·.long == long) with
  | none => .error .unknownArgument
  | some parameter =>
    match parameter.action, value with
    | .value _ _, none => do
      let settled ← arguments.settle signature
      .ok { settled with pending := .valueOf parameter none }
    | .value _ _, some value => do
      (← arguments.settle signature).add parameter [value]
    | _, some _ => .error .unexpectedValue
    | _, none => do
      (← arguments.settle signature).add parameter []

/-- Takes up a cluster of short options, one after another. -/
def takeShort (signature : Signature) (arguments : Arguments) (letters : List Char) :
    Except ArgumentError Arguments :=
  letters.foldlM (fun arguments letter =>
    match signature.parameters.find? (·.short == some letter) with
    | none => .error .unknownArgument
    | some parameter => do (← arguments.settle signature).add parameter []) arguments

/-- What a word is before a double dash. -/
inductive Word where
  | doubleDash
  | long (name : String) (value : Option String)
  | short (letters : List Char)
  | plain (text : String)

/-- A single dash is an ordinary word. -/
def Word.ofString (text : String) : Word :=
  match text.toList with
  | ['-', '-'] => .doubleDash
  | '-' :: '-' :: rest =>
    let name := rest.takeWhile (· != '=')
    let value := match rest.dropWhile (· != '=') with
      | _ :: value => some (String.ofList value)
      | [] => none
    .long (String.ofList name) value
  | '-' :: letter :: rest => .short (letter :: rest)
  | _ => .plain text

/-- Takes up one word before a double dash that is not one itself. A plain word is the value that an
option is waiting for, or else an operand. -/
def takeWord (signature : Signature) (arguments : Arguments) (text : String) :
    Except ArgumentError Arguments :=
  match Word.ofString text, arguments.pending with
  | .long name value, _ => arguments.takeLong signature name value
  | .short letters, _ => arguments.takeShort signature letters
  | _, .valueOf parameter none => .ok { arguments with pending := .valueOf parameter (some text) }
  | _, _ => arguments.takeOperand signature text

/-- Takes up the words of a command and judges what is pending at the end. -/
def takeAll (signature : Signature) : Arguments → List String → Except ArgumentError Arguments
  | arguments, [] => arguments.settle signature
  | arguments, "--" :: words => do
    let arguments ← words.foldlM (takeOperand signature) arguments
    arguments.settle signature
  | arguments, word :: words => do takeAll signature (← arguments.takeWord signature word) words

end Arguments

end ODataLiteral
