import ODataLiteral.Bytes
import ODataLiteral.Token

/-! Attempts to read a rule, and the account that is kept of how deeply rules are nested.
An attempt hands its account on whether it succeeds or fails. A rule that may contain itself opens a level
before it is read and closes it afterwards, so a policy decides how deep the nesting may go. -/
namespace ODataLiteral

/-! What a reader asserts while it reads. A fault means that the reader is wrong and not the input,
so it ends the reading: no alternative is tried after it. -/

inductive Fault where
  /-- A token's span is no part of the source. -/
  | span (error : SpanError)
  /-- Octets are asked for that the source does not have. -/
  | slice (start stop length : Nat)
  /-- A number is too large for the bits that hold it. -/
  | overflow (bits : Nat)
  /-- A natural number would be negative. -/
  | underflow
deriving DecidableEq, Repr

namespace Checked

/-- A number that so many bits must hold. -/
def fits (bits value : Nat) : Except Fault Nat :=
  if value < Nat.pow 2 bits then .ok value else .error (.overflow bits)

/-- A difference that must not be negative. -/
def subtract (value less : Nat) : Except Fault Nat :=
  if less ≤ value then .ok (value - less) else .error .underflow

/-- A token of a source of some length. -/
def token (length : Nat) (kind : Kind) (span : Span) (value : Value) : Except Fault Token :=
  (Token.ofSpan length kind span value).mapError .span

/-- A numeral's value in an accumulator of so many bits, with one more octet at its end. -/
def extendNumeral (bits value : Nat) (octet : UInt8) : Except Fault Nat := do
  let digit ← subtract octet.toNat '0'.toNat
  let shifted ← fits bits (10 * value)
  fits bits (shifted + digit)

/-- The value of decimal digits in an accumulator of so many bits. -/
def numeral (bits : Nat) (digits : Bytes) : Except Fault Nat :=
  digits.foldlM (extendNumeral bits) 0

end Checked

/-! How attempts end, and what policies on nesting do to them. -/

/-- How an attempt ends. -/
inductive Ending (result : Type) where
  | done (value : result)
  | noMatch
  | fault (fault : Fault)

namespace Ending

variable {result : Type}

def ofOption : Option result → Ending result
  | some value => done value
  | none => noMatch

/-- What was read, if anything was. -/
def value? : Ending result → Option result
  | done value => some value
  | noMatch | fault _ => none

end Ending

/-- A computation that may fail, and that passes the nesting account on either way. -/
def Attempt (account result : Type) : Type :=
  account → Ending result × account

namespace Attempt

variable {account result next : Type}

def succeed (value : result) : Attempt account result :=
  fun state => (.done value, state)

def fail : Attempt account result :=
  fun state => (.noMatch, state)

/-- What an option holds, or failure. -/
def ofOption (value : Option result) : Attempt account result :=
  fun state => (.ofOption value, state)

/-- What has been checked, or the fault that the check has found. -/
def ofChecked (value : Except Fault result) : Attempt account result :=
  fun state => match value with
    | .ok value => (.done value, state)
    | .error fault => (.fault fault, state)

def andThen (first : Attempt account result) (rest : result → Attempt account next) :
    Attempt account next :=
  fun state => match first state with
    | (.done value, after) => rest value after
    | (.noMatch, after) => (.noMatch, after)
    | (.fault fault, after) => (.fault fault, after)

/-- The second attempt is made only when the first has failed, with the account that it left. -/
def orElse (first : Attempt account result) (second : Unit → Attempt account result) :
    Attempt account result :=
  fun state => match first state with
    | (.noMatch, after) => second () after
    | decided => decided

instance : Monad (Attempt account) where
  pure := succeed
  bind := andThen

instance : OrElse (Attempt account result) := ⟨orElse⟩

end Attempt

/-- How levels are opened and closed. Opening one may be refused. -/
structure Nesting (account : Type) where
  enter : account → Option account
  leave : account → Except Fault account

namespace Nesting

/-- At most `limit` levels are open at a time. -/
def bounded (limit : Nat) : Nesting Nat where
  enter depth := if depth < limit then some (depth + 1) else none
  leave depth := Checked.subtract depth 1

/-- Levels are never refused. -/
def unbounded : Nesting Unit where
  enter := some
  leave := .ok

/-- Reads the body one level deeper. The level is closed even when the body fails. -/
def within {account result : Type} (nesting : Nesting account) (body : Attempt account result) :
    Attempt account result :=
  fun state => match nesting.enter state with
    | some inside =>
      match body inside with
      | (ending, after) =>
        match nesting.leave after with
        | .ok outside => (ending, outside)
        | .error fault => (.fault fault, after)
    | none => (.noMatch, state)

end Nesting

end ODataLiteral
