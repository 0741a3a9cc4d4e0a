import ODataLiteral.Proofs.Rule.Meaning
import ODataLiteral.Proofs.Rule.Steady

/-! The reader of a rule and the parser of its text come to the same, and the reader is never at fault.
An attempt refines an option when it finds what the option holds and hands its account back as it got it.
This goes through sequences and choices, so each form of a rule has one lemma. -/
namespace ODataLiteral

namespace Attempt

variable {account α β γ δ : Type} {state : account}

/-- An attempt that finds what an option holds, up to a relation, and leaves its account alone. -/
def Refines (related : α → β → Prop) (state : account) (attempt : Attempt account α)
    (expected : Option β) : Prop :=
  ∃ found, attempt state = (.ofOption found, state) ∧ Option.Rel related found expected

variable {related : α → β → Prop} {onward : γ → δ → Prop}

theorem Refines.succeed {value : α} {expected : β} (same : related value expected) :
    Refines related state (succeed value) (some expected) :=
  ⟨some value, rfl, .some same⟩

theorem Refines.fail : Refines related state (fail : Attempt account α) none :=
  ⟨none, rfl, .none⟩

theorem Refines.ofOption {value : Option α} {expected : Option β}
    (same : Option.Rel related value expected) :
    Refines related state (ofOption value) expected :=
  ⟨value, rfl, same⟩

theorem Refines.bind {first : Attempt account α} {expected : Option β}
    {rest : α → Attempt account γ} {further : β → Option δ}
    (one : Refines related state first expected)
    (others : ∀ value found, expected = some found → related value found →
      Refines onward state (rest value) (further found)) :
    Refines onward state (first >>= rest) (expected >>= further) := by
  obtain ⟨found, run, same⟩ := one
  cases same with
  | none =>
    refine ⟨none, ?_, .none⟩
    show andThen first rest state = _
    simp only [andThen, run, Ending.ofOption]
  | some same =>
    obtain ⟨last, runLast, sameLast⟩ := others _ _ rfl same
    refine ⟨last, ?_, sameLast⟩
    show andThen first rest state = _
    simp only [andThen, run, Ending.ofOption]
    exact runLast

theorem Refines.orElse {first : Attempt account α} (second : Unit → Attempt account α)
    {expected other : Option β} (one : Refines related state first expected)
    (two : Refines related state (second ()) other) :
    Refines related state (orElse first second) (expected.or other) := by
  obtain ⟨found, run, same⟩ := one
  obtain ⟨last, runLast, sameLast⟩ := two
  cases same with
  | none =>
    refine ⟨last, ?_, sameLast⟩
    simp only [Attempt.orElse, run]
    exact runLast
  | some same =>
    refine ⟨some _, ?_, .some same⟩
    simp only [Attempt.orElse, run]
    rfl

theorem Refines.further {first : Attempt account α} {expected : Option β} {change : β → δ} {whole : α → δ → Prop}
    (one : Refines related state first expected)
    (kept : ∀ value found, related value found → whole value (change found)) :
    Refines whole state first (expected >>= fun found => some (change found)) := by
  obtain ⟨found, run, same⟩ := one
  refine ⟨found, run, ?_⟩
  cases same with
  | none => exact .none
  | some same => exact .some (kept _ _ same)

theorem Refines.bindOption {value : Option α} {rest : α → Attempt account γ}
    {further : α → Option δ}
    (others : ∀ held, Refines onward state (rest held) (further held)) :
    Refines onward state (Attempt.ofOption value >>= rest) (value >>= further) := by
  cases value with
  | none => exact ⟨none, rfl, .none⟩
  | some held => exact others held

theorem Refines.ofChecked {checked : Except Fault α} (value : α) {rest : α → Attempt account γ}
    {expected : Option δ} (passes : checked = .ok value)
    (others : Refines onward state (rest value) expected) :
    Refines onward state (ofChecked checked >>= rest) expected := by
  subst passes
  exact others

end Attempt

open Attempt (Refines)

/-- A place of a source of some length, in octets and in characters. -/
structure Cursor.At (length : Nat) (cursor : Cursor) (place : Place) : Prop where
  place : cursor.place = place
  within : cursor.Within length

def Cursor.After (length : Nat) (found : Token × Cursor) (expected : Token × Place) : Prop :=
  found.1 = expected.1 ∧ found.2.At length expected.2

namespace Cursor

variable {length : Nat} {start stop : Cursor} {place last : Place} {text : Text}

theorem At.rest (at_ : start.At length place) : Text.ofBytes start.rest = place.rest := by
  rw [← at_.place]
  rfl

theorem At.offset (at_ : start.At length place) : start.offset = place.offset := by
  rw [← at_.place]
  rfl

theorem At.holds (at_ : start.At length place) (filled : text ≠ [])
    (on : place.Advances text last) : start.Holds length text := by
  have rest := at_.rest
  rw [on.rest] at rest
  obtain ⟨after, _, split⟩ := Text.exists_rest_of_append rest
  have wide := congrArg List.length split
  rw [List.length_append, Text.length_bytes, at_.within] at wide
  have long := Text.width_pos_of_ne_nil filled
  exact ⟨⟨after, split⟩, by omega⟩

theorem At.length_lt {next : Cursor} (at_ : start.At length place) (atNext : next.At length last)
    (filled : text ≠ []) (on : place.Advances text last) : next.rest.length < start.rest.length := by
  have long := Text.width_pos_of_ne_nil filled
  have inside := (at_.holds filled on).inside
  have further := on.offset
  have offset := at_.offset
  have offsetNext := atNext.offset
  rw [at_.within, atNext.within]
  omega

end Cursor

theorem Pattern.read_refines {pattern : Pattern} {length : Nat} {start : Cursor} {place : Place}
    (steady : pattern.steady = true) (at_ : start.At length place) :
    Option.Rel (fun found expected : _ × _ => found.1 = expected.1 ∧ found.2.At length expected.2)
      (pattern.read start) (pattern.parse place) := by
  have agree := split_ofBytes steady start.rest
  rw [at_.rest] at agree
  simp only [read, parse, agree]
  cases scanned : pattern.scan start.rest with
  | none => exact .none
  | some found =>
    have wide := length_of_scan scanned
    have within := at_.within
    refine .some ⟨rfl, ?_, ?_⟩
    · simp only [Cursor.place, inText, at_.offset]
    · simp only [Cursor.Within] at within ⊢
      omega

namespace Reader

variable {account : Type} {state : account} {length : Nat}

/-- A reader that finds what a parser finds, at every place of a source of some length. -/
def Computes (length : Nat) (state : account) (reader : Reader account) (parser : Parser) : Prop :=
  ∀ start place, start.At length place →
    Refines (Cursor.After length) state (reader start) (parser place)

theorem skip_refines {pattern : Pattern} {start : Cursor} {place : Place}
    (steady : pattern.steady = true) (at_ : start.At length place) :
    Refines (fun (found : Cursor) (expected : Text × Place) => found.At length expected.2) state
      (skip pattern start) (pattern.parse place) := by
  apply Refines.ofOption
  have same := Pattern.read_refines steady at_
  revert same
  generalize pattern.read start = found
  generalize pattern.parse place = expected
  rintro (⟨_, at_⟩ | _)
  · exact .some at_
  · exact .none

/-- The token of a text that is not empty lies in the source. -/
theorem close_refines {kind : Kind} {value : Value} {start stop : Cursor} {place last : Place}
    {text : Text} (at_ : start.At length place) (atLast : stop.At length last) (filled : text ≠ [])
    (on : place.Advances text last) :
    Refines (Cursor.After length) state (close length kind value start stop)
      (some (Parser.close kind value place last)) := by
  have inside := (at_.holds filled on).inside
  have offset := at_.offset
  have further := on.offset
  have offsetLast := atLast.offset
  have forward : ¬ stop.offset < start.offset := by omega
  have ends : ¬ length < stop.offset := by omega
  refine Refines.ofChecked { kind, span := ⟨start.offset, stop.offset⟩, value } ?_
    (Refines.succeed ⟨?_, atLast⟩)
  · simp only [Checked.token, Token.ofSpan, if_neg forward, if_neg ends]
    rfl
  · simp only [Parser.close, offset, offsetLast]

theorem lexeme_computes {kind : Kind} {meaning : Meaning} {pattern : Pattern}
    (steady : pattern.steady = true) (filled : pattern.nullable = false)
    (fits : meaning.Fits pattern) :
    Computes length state (lexeme length kind meaning pattern) (Parser.lexeme kind meaning pattern) := by
  intro start place at_
  apply Refines.bind (Refines.ofOption (Pattern.read_refines steady at_))
  rintro ⟨text, stop⟩ ⟨_, last⟩ read ⟨rfl, atLast⟩
  have on := Pattern.parse_advances read
  have some := Pattern.ne_nil_of_parse filled read
  have readable := fits _ _ _ (Pattern.parse_iff.mp read).1
  apply Refines.ofChecked _ (Meaning.read?_of_readable readable (at_.holds some on))
  exact Refines.bindOption fun value => close_refines at_ atLast some on

theorem enclosed_computes {kind : Kind} {opening closing : Pattern} {inner : Reader account}
    {parser : Parser} (steady : opening.steady = true) (steadyClosing : closing.steady = true)
    (strict : parser.Strict) (computes : Computes length state inner parser) :
    Computes length state (enclosed length kind opening inner closing)
      (Parser.enclosed kind opening parser closing) := by
  intro start place at_
  apply Refines.bind (skip_refines steady at_)
  rintro first ⟨before, _⟩ opened atFirst
  apply Refines.bind (computes _ _ atFirst)
  rintro ⟨token, after⟩ ⟨_, _⟩ read ⟨rfl, atAfter⟩
  apply Refines.bind (skip_refines steadyClosing atAfter)
  rintro stop ⟨behind, _⟩ closed atStop
  obtain ⟨text, filled, on⟩ := strict _ _ _ read
  exact close_refines at_ atStop
    (List.append_ne_nil_of_left_ne_nil (List.append_ne_nil_of_right_ne_nil _ filled) _)
    (((Pattern.parse_advances opened).trans on).trans (Pattern.parse_advances closed))

theorem pair_computes {pairing : Pairing} {opening between : Pattern}
    {first second : Reader account} {parser parser' : Parser} (steady : opening.steady = true)
    (steadyBetween : between.steady = true) (strict : parser.Strict) (strict' : parser'.Strict)
    (computes : Computes length state first parser)
    (computes' : Computes length state second parser') :
    Computes length state (pair length pairing opening first between second)
      (Parser.pair pairing opening parser between parser') := by
  intro start place at_
  apply Refines.bind (skip_refines steady at_)
  rintro one ⟨before, _⟩ opened atOne
  apply Refines.bind (computes _ _ atOne)
  rintro ⟨left, after⟩ ⟨_, _⟩ read ⟨rfl, atAfter⟩
  apply Refines.bind (skip_refines steadyBetween atAfter)
  rintro two ⟨gap, _⟩ middle atTwo
  apply Refines.bind (computes' _ _ atTwo)
  rintro ⟨right, stop⟩ ⟨_, _⟩ readToo ⟨rfl, atStop⟩
  obtain ⟨_, on⟩ := strict.forward _ _ _ read
  obtain ⟨text, filled, onToo⟩ := strict' _ _ _ readToo
  exact close_refines at_ atStop (List.append_ne_nil_of_right_ne_nil _ filled)
    ((((Pattern.parse_advances opened).trans on).trans (Pattern.parse_advances middle)).trans onToo)

section Items

variable {item : Reader account} {parser : Parser} {separator closing : Pattern}

/-- What both loops return, when one of them starts with some items. -/
def Lists (length : Nat) (items : List Token) (found : List Token × Cursor)
    (expected : List Token × Place) : Prop :=
  found.1 = items.reverse ++ expected.1 ∧ found.2.At length expected.2

theorem itemsUntil_refines (steady : separator.steady = true) (steadyClosing : closing.steady = true)
    (strict : parser.Strict) (computes : Computes length state item parser)
    (budget : Bytes) (rounds : Text) (items : List Token) {start : Cursor} {place : Place}
    (at_ : start.At length place) (enough : start.rest.length ≤ budget.length)
    (enoughRounds : place.rest.length ≤ rounds.length) :
    Refines (Lists length items) state (itemsUntil item separator closing budget items start)
      (Parser.itemsWithin parser separator closing rounds place) := by
  -- The reader counts its rounds in octets and the parser in characters. Every item takes one of each, so both
  -- budgets stay long enough for what is left.
  induction budget generalizing rounds items start place with
  | nil =>
    have empty : start.rest = [] := List.eq_nil_of_length_eq_zero (Nat.le_zero.mp enough)
    have rest := at_.rest
    rw [empty, Text.ofBytes_nil] at rest
    rw [strict.itemsWithin_eq_none rest.symm]
    exact Refines.fail
  | cons _ budget ih =>
    cases rounds with
    | nil =>
      have empty : place.rest = [] := List.eq_nil_of_length_eq_zero (Nat.le_zero.mp enoughRounds)
      have refused := computes _ _ at_
      rw [strict.eq_none empty] at refused
      have ended : Parser.itemsWithin parser separator closing [] place =
          (none : Option (Token × Place)) >>= fun _ => none := rfl
      rw [ended]
      exact refused.bind fun _ _ holds => (by cases holds)
    | cons _ rounds =>
      apply Refines.bind (computes _ _ at_)
      rintro ⟨token, after⟩ ⟨_, afterPlace⟩ read ⟨rfl, atAfter⟩
      have same := Pattern.read_refines steadyClosing atAfter
      dsimp only at same ⊢
      revert same
      generalize closing.read after = closed
      generalize closing.parse afterPlace = closedPlace
      rintro (⟨_, atStop⟩ | _)
      · exact Refines.succeed ⟨by simp, atStop⟩
      · apply Refines.bind (skip_refines steady atAfter)
        rintro next ⟨gap, nextPlace⟩ between atNext
        obtain ⟨text, filled, on⟩ := strict _ _ _ read
        have through := on.trans (Pattern.parse_advances between)
        have some := List.append_ne_nil_of_left_ne_nil filled gap
        have fewer := at_.length_lt atNext some through
        have fewerToo := through.length_lt some
        simp only [List.length_cons] at enough enoughRounds
        have enoughLater : nextPlace.rest.length ≤ rounds.length := by omega
        apply (ih rounds (token :: items) atNext (by omega) enoughLater).further
        rintro ⟨_, _⟩ ⟨tokens, stop⟩ ⟨rfl, atStop⟩
        exact ⟨by simp, atStop⟩

theorem items_refines (steady : separator.steady = true) (steadyClosing : closing.steady = true)
    (strict : parser.Strict) (computes : Computes length state item parser) {start : Cursor}
    {place : Place} (at_ : start.At length place) :
    Refines (Lists length []) state (items item separator closing start)
      (Parser.items parser separator closing place) :=
  itemsUntil_refines steady steadyClosing strict computes start.rest place.rest [] at_
    (Nat.le_refl _) (Nat.le_refl _)

theorem list_computes {kind : Kind} {opening : Pattern} {mayBeEmpty : Bool}
    (steady : opening.steady = true) (steadySeparator : separator.steady = true)
    (steadyClosing : closing.steady = true) (closes : closing.nullable = false)
    (strict : parser.Strict) (computes : Computes length state item parser) :
    Computes length state (list length kind opening item separator closing mayBeEmpty)
      (Parser.list kind opening parser separator closing mayBeEmpty) := by
  intro start place at_
  apply Refines.bind (skip_refines steady at_)
  rintro first ⟨before, firstPlace⟩ opened atFirst
  have onFirst := Pattern.parse_advances opened
  have same : Option.Rel
      (fun found expected : _ × _ => found.1 = expected.1 ∧ found.2.At length expected.2)
      (if mayBeEmpty then closing.read first else none)
      (if mayBeEmpty then closing.parse firstPlace else none) := by
    cases mayBeEmpty with
    | true => exact Pattern.read_refines steadyClosing atFirst
    | false => exact .none
  have ends (behind : Text) (stop : Place)
      (closed : (if mayBeEmpty then closing.parse firstPlace else none) = some (behind, stop)) :
      behind ≠ [] ∧ firstPlace.Advances behind stop := by
    cases mayBeEmpty with
    | true => exact ⟨Pattern.ne_nil_of_parse closes closed, Pattern.parse_advances closed⟩
    | false => cases closed
  dsimp only at same ⊢
  revert same ends
  generalize (if mayBeEmpty = true then closing.read first else none) = closed
  generalize (if mayBeEmpty = true then closing.parse firstPlace else none) = closedPlace
  rintro (⟨_, atStop⟩ | _) ends
  · obtain ⟨filled, on⟩ := ends _ _ rfl
    exact close_refines at_ atStop (List.append_ne_nil_of_right_ne_nil _ filled) (onFirst.trans on)
  · apply Refines.bind (items_refines steadySeparator steadyClosing strict computes atFirst)
    rintro ⟨tokens, stop⟩ ⟨_, stopPlace⟩ read ⟨rfl, atStop⟩
    obtain ⟨text, filled, on⟩ := (Parser.items_of_itemsWithin read).strict strict
    exact close_refines at_ atStop (List.append_ne_nil_of_right_ne_nil _ filled) (onFirst.trans on)

theorem enumeration_computes {typeName opening : Pattern} (steadyName : typeName.steady = true)
    (steady : opening.steady = true) (steadySeparator : separator.steady = true)
    (steadyClosing : closing.steady = true) (strict : parser.Strict)
    (computes : Computes length state item parser) :
    Computes length state (enumeration length typeName opening item separator closing)
      (Parser.enumeration typeName opening parser separator closing) := by
  intro start place at_
  apply Refines.bind (Refines.ofOption (Pattern.read_refines steadyName at_))
  rintro ⟨name, after⟩ ⟨_, afterPlace⟩ named ⟨rfl, atAfter⟩
  apply Refines.bind (skip_refines steady atAfter)
  rintro first ⟨gap, firstPlace⟩ opened atFirst
  apply Refines.bind (items_refines steadySeparator steadyClosing strict computes atFirst)
  rintro ⟨members, stop⟩ ⟨_, stopPlace⟩ read ⟨rfl, atStop⟩
  obtain ⟨text, filled, on⟩ := (Parser.items_of_itemsWithin read).strict strict
  have onName := Pattern.parse_advances named
  have onFirst := onName.trans (Pattern.parse_advances opened)
  have someText := List.append_ne_nil_of_right_ne_nil (name ++ gap) filled
  have octets : start.slice length 0 after.offset = .ok name.bytes := by
    have holds := at_.holds someText (onFirst.trans on)
    have slice := Cursor.slice_of_holds [] name (gap ++ text)
      (by simpa [List.append_assoc] using holds)
    have offset := onName.offset
    rw [← at_.offset, ← atAfter.offset] at offset
    rw [offset]
    exact slice
  apply Refines.ofChecked _ octets
  exact Refines.bindOption fun name => close_refines at_ atStop someText (onFirst.trans on)

end Items

theorem mapToken_computes {change : Token → Token} {reader : Reader account} {parser : Parser}
    (computes : Computes length state reader parser) :
    Computes length state (mapToken change reader) (Parser.mapToken change parser) := by
  intro start place at_
  have same : Parser.mapToken change parser place =
      parser place >>= fun found => some (change found.1, found.2) := by
    simp only [Parser.mapToken]
    cases parser place <;> rfl
  rw [same]
  apply Refines.bind (computes _ _ at_)
  rintro ⟨token, stop⟩ ⟨_, _⟩ _ ⟨rfl, atStop⟩
  exact Refines.succeed ⟨rfl, atStop⟩

end Reader

end ODataLiteral
