import ODataLiteral.Command.Arguments
import ODataLiteral.Grammar

/-! The commands, the rules that they can be asked to apply, and the words that ask for them. -/
namespace ODataLiteral

/-- A rule that a command can be asked to apply. -/
inductive RuleChoice where
  | primitive
  | geo
  | json
  | arrayOrObject
deriving DecidableEq, Repr

namespace RuleChoice

def rule : RuleChoice → Rule
  | primitive => Grammar.primitiveLiteral
  | geo => Grammar.geoLiteral
  | json => Grammar.jsonValue
  | arrayOrObject => Grammar.arrayOrObject

/-- The name that results are reported under. -/
def name : RuleChoice → String
  | primitive => "Primitive"
  | geo => "Geo"
  | json => "Json"
  | arrayOrObject => "ArrayOrObject"

/-- The choice that a word on the command line stands for. -/
def ofWord? : String → Option RuleChoice
  | "primitive" => some primitive
  | "geo" => some geo
  | "json" => some json
  | "array-or-object" => some arrayOrObject
  | _ => none

end RuleChoice

structure CheckOptions where
  choice : RuleChoice
  extensions : List String
  paths : List String
deriving DecidableEq, Repr

structure InspectOptions where
  choice : RuleChoice
  json : Bool
  literal : String
deriving DecidableEq, Repr

inductive Invocation where
  /-- No command is named. -/
  | bare
  | check (options : CheckOptions)
  | inspect (options : InspectOptions)
deriving DecidableEq, Repr

namespace Invocation

def helpParameter : Parameter where
  long := "help"
  short := some 'h'
  action := .help

def ruleParameter : Parameter where
  long := "rule"
  short := none
  action := .value (fun word => (RuleChoice.ofWord? word).isSome) false

/-- What may stand before the command. -/
def topSignature : Signature where
  parameters :=
    [⟨"verbose", some 'v', .flag⟩, helpParameter, ⟨"version", some 'V', .version⟩]
  mostOperands := some 0
  acceptsOperand _ := false

/-- Paths are not empty. -/
def checkSignature : Signature where
  parameters :=
    [⟨"literal-file-exts", none, .value (fun _ => true) true⟩, ruleParameter, helpParameter]
  mostOperands := none
  acceptsOperand path := !path.isEmpty

def inspectSignature : Signature where
  parameters := [⟨"json", none, .flag⟩, ruleParameter, helpParameter]
  mostOperands := some 1
  acceptsOperand _ := true

/-- The files that are checked when no extension is asked for. -/
def defaultExtensions : List String := ["odata", "txt"]

def choiceOf (arguments : Arguments) : RuleChoice :=
  ((arguments.valuesOf "rule").head?.bind RuleChoice.ofWord?).getD .primitive

def ofCheckWords (words : List String) : Except ArgumentError Invocation := do
  let arguments ← Arguments.empty.takeAll checkSignature words
  if arguments.operands.isEmpty then .error .missingArgument
  else
    let extensions := (arguments.valuesOf "literal-file-exts").flatMap (·.splitOn ",")
    .ok (.check
      { choice := choiceOf arguments
        extensions := if arguments.isGiven "literal-file-exts" then extensions else defaultExtensions
        paths := arguments.operands })

def ofInspectWords (words : List String) : Except ArgumentError Invocation := do
  let arguments ← Arguments.empty.takeAll inspectSignature words
  match arguments.operands with
  | [] => .error .missingArgument
  | literal :: _ =>
    .ok (.inspect { choice := choiceOf arguments, json := arguments.isGiven "json", literal })

def commands : List String := ["check", "inspect", "help"]

/-- The words after the word that names a command. Help may name one command. -/
def ofCommandWords (command : String) (words : List String) : Except ArgumentError Invocation :=
  match command with
  | "check" => ofCheckWords words
  | "inspect" => ofInspectWords words
  | "help" =>
    match words with
    | [] => .error .helpRequested
    | [topic] => if commands.contains topic then .error .helpRequested else .error .unknownCommand
    | _ => .error .unknownCommand
  | _ => .error .unknownCommand

/-- A word after a double dash names no command, even if it is the name of one. -/
def ofTrailingWords : List String → Except ArgumentError Invocation
  | [] => .ok .bare
  | word :: _ => if commands.contains word then .error .unknownArgument else .error .unknownCommand

/-- The words before the command, and then the command. -/
def ofTopWords : Arguments → List String → Except ArgumentError Invocation
  | _, [] => .ok .bare
  | arguments, word :: words =>
    match Arguments.Word.ofString word with
    | .doubleDash => ofTrailingWords words
    | .plain command => ofCommandWords command words
    | _ => do ofTopWords (← arguments.takeWord topSignature word) words

/-- The invocation that the words after the program's name ask for. -/
def ofWords (words : List String) : Except ArgumentError Invocation :=
  ofTopWords Arguments.empty words

end Invocation

end ODataLiteral
