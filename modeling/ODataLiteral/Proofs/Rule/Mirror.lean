import ODataLiteral.Grammar

/-! One reader under two accounts. A rule asks its account for nothing but to open and to close levels, so two
policies that refuse alike and fail alike find the same, and accounts that were related before the reading are so
after it, wherever it has failed. -/
namespace ODataLiteral

/-- The two policies open and close the same levels, and related accounts stay related. -/
structure Nesting.Mirrors {account account' : Type} (related : account → account' → Prop)
    (nesting : Nesting account) (other : Nesting account') : Prop where
  enter : ∀ state state', related state state' →
    Option.Rel related (nesting.enter state) (other.enter state')
  leave : ∀ state state', related state state' →
    (∃ outside outside', nesting.leave state = .ok outside ∧ other.leave state' = .ok outside' ∧
      related outside outside') ∨
    ∃ fault, nesting.leave state = .error fault ∧ other.leave state' = .error fault

variable {account account' : Type} {related : account → account' → Prop}

namespace Attempt

variable {result next : Type}

/-- From related accounts both attempts end alike, and they leave related accounts. -/
def Mirrors (related : account → account' → Prop) (attempt : Attempt account result)
    (other : Attempt account' result) : Prop :=
  ∀ state state', related state state' →
    ∃ ending after after', attempt state = (ending, after) ∧ other state' = (ending, after') ∧
      related after after'

theorem mirrors_succeed (value : result) :
    Mirrors related (pure value : Attempt account result) (pure value) :=
  fun state state' same => ⟨.done value, state, state', rfl, rfl, same⟩

theorem mirrors_fail : Mirrors related (fail : Attempt account result) fail :=
  fun state state' same => ⟨.noMatch, state, state', rfl, rfl, same⟩

theorem mirrors_ofOption (value : Option result) :
    Mirrors related (ofOption value : Attempt account result) (ofOption value) :=
  fun state state' same => ⟨.ofOption value, state, state', rfl, rfl, same⟩

theorem mirrors_ofChecked (value : Except Fault result) :
    Mirrors related (ofChecked value : Attempt account result) (ofChecked value) := by
  intro state state' same
  cases value with
  | ok value => exact ⟨.done value, state, state', rfl, rfl, same⟩
  | error fault => exact ⟨.fault fault, state, state', rfl, rfl, same⟩

theorem Mirrors.bind {first : Attempt account result} {first' : Attempt account' result}
    {rest : result → Attempt account next} {rest' : result → Attempt account' next}
    (one : Mirrors related first first') (others : ∀ value, Mirrors related (rest value) (rest' value)) :
    Mirrors related (first >>= rest) (first' >>= rest') := by
  intro state state' same
  obtain ⟨ending, after, after', run, run', sameAfter⟩ := one state state' same
  show ∃ ending after after', andThen first rest state = (ending, after) ∧
    andThen first' rest' state' = (ending, after') ∧ related after after'
  simp only [andThen, run, run']
  cases ending with
  | done value => exact others value after after' sameAfter
  | noMatch => exact ⟨.noMatch, after, after', rfl, rfl, sameAfter⟩
  | fault fault => exact ⟨.fault fault, after, after', rfl, rfl, sameAfter⟩

theorem Mirrors.orElse {first second : Attempt account result} {first' second' : Attempt account' result}
    (one : Mirrors related first first') (two : Mirrors related second second') :
    Mirrors related (first <|> second) (first' <|> second') := by
  intro state state' same
  obtain ⟨ending, after, after', run, run', sameAfter⟩ := one state state' same
  show ∃ ending after after', Attempt.orElse first (fun _ => second) state = (ending, after) ∧
    Attempt.orElse first' (fun _ => second') state' = (ending, after') ∧ related after after'
  simp only [Attempt.orElse, run, run']
  cases ending with
  | done value => exact ⟨.done value, after, after', rfl, rfl, sameAfter⟩
  | noMatch => exact two after after' sameAfter
  | fault fault => exact ⟨.fault fault, after, after', rfl, rfl, sameAfter⟩

end Attempt

open Attempt

theorem Nesting.Mirrors.within {result : Type} {nesting : Nesting account} {other : Nesting account'}
    (policy : nesting.Mirrors related other) {body : Attempt account result} {body' : Attempt account' result}
    (inner : Attempt.Mirrors related body body') :
    Attempt.Mirrors related (nesting.within body) (other.within body') := by
  intro state state' same
  unfold Nesting.within
  have opened := policy.enter state state' same
  revert opened
  generalize nesting.enter state = inside
  generalize other.enter state' = inside'
  rintro (⟨sameInside⟩ | _)
  · -- The level is closed again however its body has ended, a failure included.
    obtain ⟨ending, after, after', run, run', sameAfter⟩ := inner _ _ sameInside
    simp only [run, run']
    rcases policy.leave after after' sameAfter with
      ⟨outside, outside', closed, closed', sameOutside⟩ | ⟨fault, closed, closed'⟩
    · simp only [closed, closed']
      exact ⟨ending, outside, outside', rfl, rfl, sameOutside⟩
    · simp only [closed, closed']
      exact ⟨.fault fault, after, after', rfl, rfl, sameAfter⟩
  · exact ⟨.noMatch, state, state', rfl, rfl, same⟩

namespace Reader

def Mirrors (related : account → account' → Prop) (reader : Reader account) (other : Reader account') : Prop :=
  ∀ start, Attempt.Mirrors related (reader start) (other start)

variable {reader : Reader account} {reader' : Reader account'} {first second : Reader account}
  {first' second' : Reader account'}

theorem skip_mirrors (pattern : Pattern) (start : Cursor) :
    Attempt.Mirrors related (skip pattern start) (skip pattern start) :=
  mirrors_ofOption _

theorem close_mirrors (length : Nat) (kind : Kind) (value : Value) (start stop : Cursor) :
    Attempt.Mirrors related (close length kind value start stop) (close length kind value start stop) :=
  (mirrors_ofChecked _).bind fun _ => mirrors_succeed _

theorem lexeme_mirrors (length : Nat) (kind : Kind) (meaning : Meaning) (pattern : Pattern) :
    Mirrors related (lexeme length kind meaning pattern) (lexeme length kind meaning pattern) := by
  intro start
  apply (mirrors_ofOption _).bind
  intro found
  apply (mirrors_ofChecked _).bind
  intro meant
  exact (mirrors_ofOption meant).bind fun value => close_mirrors length kind value start found.2

theorem enclosed_mirrors (same : Mirrors related reader reader') (length : Nat) (kind : Kind)
    (opening closing : Pattern) :
    Mirrors related (enclosed length kind opening reader closing)
      (enclosed length kind opening reader' closing) := by
  intro start
  apply (skip_mirrors opening start).bind
  intro first
  apply (same first).bind
  intro inner
  exact (skip_mirrors closing inner.2).bind fun stop => close_mirrors length kind _ start stop

theorem pair_mirrors (same : Mirrors related first first') (sameToo : Mirrors related second second')
    (length : Nat) (pairing : Pairing) (opening between : Pattern) :
    Mirrors related (pair length pairing opening first between second)
      (pair length pairing opening first' between second') := by
  intro start
  apply (skip_mirrors opening start).bind
  intro left
  apply (same left).bind
  intro one
  apply (skip_mirrors between one.2).bind
  intro right
  exact (sameToo right).bind fun two => close_mirrors length pairing.kind _ start two.2

theorem itemsUntil_mirrors (same : Mirrors related reader reader') (separator closing : Pattern)
    (budget : Bytes) (tokens : List Token) (start : Cursor) :
    Attempt.Mirrors related (itemsUntil reader separator closing budget tokens start)
      (itemsUntil reader' separator closing budget tokens start) := by
  induction budget generalizing tokens start with
  | nil => exact mirrors_fail
  | cons _ budget ih =>
    apply (same start).bind
    intro item
    dsimp only
    cases closing.read item.2 with
    | some closed => exact mirrors_succeed _
    | none => exact (skip_mirrors separator item.2).bind fun next => ih _ next

theorem items_mirrors (same : Mirrors related reader reader') (separator closing : Pattern) (start : Cursor) :
    Attempt.Mirrors related (items reader separator closing start) (items reader' separator closing start) :=
  itemsUntil_mirrors same separator closing start.rest [] start

theorem list_mirrors (same : Mirrors related reader reader') (length : Nat) (kind : Kind)
    (opening separator closing : Pattern) (mayBeEmpty : Bool) :
    Mirrors related (list length kind opening reader separator closing mayBeEmpty)
      (list length kind opening reader' separator closing mayBeEmpty) := by
  intro start
  apply (skip_mirrors opening start).bind
  intro first
  dsimp only
  cases (if mayBeEmpty = true then closing.read first else none) with
  | some closed => exact close_mirrors length kind _ start closed.2
  | none =>
    apply (items_mirrors same separator closing first).bind
    intro tokens
    exact close_mirrors length kind _ start tokens.2

theorem enumeration_mirrors (same : Mirrors related reader reader') (length : Nat)
    (typeName opening separator closing : Pattern) :
    Mirrors related (enumeration length typeName opening reader separator closing)
      (enumeration length typeName opening reader' separator closing) := by
  intro start
  apply (mirrors_ofOption _).bind
  intro named
  apply (skip_mirrors opening named.2).bind
  intro first
  apply (items_mirrors same separator closing first).bind
  intro members
  apply (mirrors_ofChecked _).bind
  intro octets
  exact (mirrors_ofOption _).bind fun name => close_mirrors length .enumeration _ start members.2

theorem mapToken_mirrors (same : Mirrors related reader reader') (change : Token → Token) :
    Mirrors related (mapToken change reader) (mapToken change reader') :=
  fun start => (same start).bind fun _ => mirrors_succeed _

end Reader

theorem Rule.readWith_mirrors (length : Nat) {construct : Construct → Reader account}
    {construct' : Construct → Reader account'}
    (named : ∀ one, Reader.Mirrors related (construct one) (construct' one)) (rule : Rule) :
    Reader.Mirrors related (rule.readWith length construct) (rule.readWith length construct') := by
  induction rule with
  | lexeme kind meaning pattern => exact Reader.lexeme_mirrors length kind meaning pattern
  | enclosed kind opening inner closing ih => exact Reader.enclosed_mirrors ih length kind opening closing
  | pair pairing opening first between second one two =>
    exact Reader.pair_mirrors one two length pairing opening between
  | list kind opening item separator closing mayBeEmpty ih =>
    exact Reader.list_mirrors ih length kind opening separator closing mayBeEmpty
  | enumeration typeName opening member separator closing ih =>
    exact Reader.enumeration_mirrors ih length typeName opening separator closing
  | withType type rule ih => exact Reader.mapToken_mirrors ih _
  | withKind kind rule ih => exact Reader.mapToken_mirrors ih _
  | orElse first second one two => exact fun start => (one start).orElse (two start)
  | never => exact fun _ => mirrors_fail
  | construct one => exact named one

section Policy

variable {nesting : Nesting account} {other : Nesting account'}

theorem Construct.reader_mirrors (policy : nesting.Mirrors related other) (length unfoldings : Nat)
    (construct : Construct) :
    Reader.Mirrors related (construct.reader nesting length unfoldings)
      (construct.reader other length unfoldings) := by
  induction unfoldings generalizing construct with
  | zero => exact fun _ => mirrors_fail
  | succ unfoldings ih => exact fun start => policy.within (Rule.readWith_mirrors length ih construct.body start)

theorem Rule.read_mirrors (policy : nesting.Mirrors related other) (rule : Rule) (source : Bytes) (offset : Nat) :
    Attempt.Mirrors related (rule.read nesting source offset) (rule.read other source offset) := by
  have constructs := Construct.reader_mirrors policy source.length (Cursor.ofSource source offset).rest.length
  exact (Rule.readWith_mirrors source.length constructs rule _).bind fun found => mirrors_succeed found.1

end Policy

end ODataLiteral
