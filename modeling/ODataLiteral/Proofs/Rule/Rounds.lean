import Mathlib.Data.List.Chain
import ODataLiteral.Grammar
import ODataLiteral.Proofs.Pattern.Split

/-! The loop of a list over any reader of items. The items may take no octets, but every round that goes on takes those
of a separator, so the loop ends by itself. The budget of the reader is never what ends it. -/
namespace ODataLiteral

namespace Pattern

variable {pattern : Pattern} {source : Bytes} {offset stop : Nat}

theorem read_ofSource (pattern : Pattern) (source : Bytes) (offset : Nat) :
    (pattern.read (Cursor.ofSource source offset)).map (·.2) =
      (pattern.endAt source offset).map (Cursor.ofSource source) := by
  simp only [Pattern.read, Pattern.endAt, Cursor.ofSource, Option.map_map]
  cases read : pattern.scan (source.drop offset) with
  | none => rfl
  | some found =>
    obtain ⟨text, rest⟩ := found
    have whole := scan_lossless pattern _ _ _ read
    have behind : rest = source.drop (offset + text.width) := by
      rw [← List.drop_drop, ← whole, ← Text.length_bytes, List.drop_left]
    rw [behind]
    rfl

theorem read_of_endAt (ends : pattern.endAt source offset = some stop) :
    ∃ text, pattern.read (Cursor.ofSource source offset) = some (text, Cursor.ofSource source stop) := by
  have same := pattern.read_ofSource source offset
  rw [ends, Option.map_some, Option.map_eq_some_iff] at same
  obtain ⟨⟨text, _⟩, read, rfl⟩ := same
  exact ⟨text, read⟩

theorem read_eq_none (refused : pattern.endAt source offset = none) :
    pattern.read (Cursor.ofSource source offset) = none := by
  have same := pattern.read_ofSource source offset
  rwa [refused, Option.map_none, Option.map_eq_none_iff] at same

theorem endAt_iff_split (steady : pattern.steady = true) : pattern.endAt source offset = some stop ↔
    ∃ taken rest, pattern.split (Text.ofBytes (source.drop offset)) = some (taken, rest) ∧
      stop = offset + taken.width := by
  rw [split_ofBytes steady, endAt]
  cases pattern.scan (source.drop offset) with
  | none => simp
  | some found =>
    obtain ⟨taken, rest⟩ := found
    simp [inText, eq_comm]

end Pattern

/-- An offset function that takes at least one octet of a source. -/
def Consumes (length : Nat) (ends : Nat → Option Nat) : Prop :=
  ∀ offset stop, ends offset = some stop → offset < stop ∧ stop ≤ length

theorem Pattern.endAt_consumes {pattern : Pattern} (steady : pattern.steady = true)
    (filled : pattern.nullable = false) (source : Bytes) : Consumes source.length (pattern.endAt source) := by
  intro offset stop ends
  obtain ⟨text, rest, split, rfl⟩ := (Pattern.endAt_iff_split steady).mp ends
  have long := Text.width_pos_of_ne_nil (Pattern.ne_nil_of_split filled split)
  have whole := congrArg Text.width (Pattern.split_append split)
  rw [← Text.length_bytes, Text.bytes_ofBytes, Text.width_append, List.length_drop] at whole
  omega

/-- A token of a source of some length that starts at an offset. It may be empty. -/
structure Token.StandsAt (length offset : Nat) (token : Token) : Prop where
  starts : token.span.start = offset
  forward : offset ≤ token.span.stop
  inside : token.span.stop ≤ length

/-- A reader that gives the tokens of a recognizer, goes on where each of them ends, and leaves the account alone. -/
structure Reader.Recognizes {account : Type} (reader : Reader account) (state : account) (source : Bytes)
    (item : Nat → Option Token) : Prop where
  reads : ∀ offset, reader (Cursor.ofSource source offset) state =
    (.ofOption ((item offset).map fun token => (token, Cursor.ofSource source token.span.stop)), state)
  stands : ∀ offset token, item offset = some token → token.StandsAt source.length offset

/-- The rounds of a list from an offset on, how many they are, and what they find: items and the offset behind the
closing delimiter, or nothing. -/
inductive Rounds (item : Nat → Option Token) (separator closing : Nat → Option Nat) :
    Nat → Nat → Option (List Token × Nat) → Prop
  | refused {start : Nat} (read : item start = none) : Rounds item separator closing start 1 none
  | closed {start stop : Nat} {token : Token} (read : item start = some token)
      (closes : closing token.span.stop = some stop) : Rounds item separator closing start 1 (some ([token], stop))
  | broken {start : Nat} {token : Token} (read : item start = some token) (goesOn : closing token.span.stop = none)
      (parts : separator token.span.stop = none) : Rounds item separator closing start 1 none
  | onward {start next rounds : Nat} {token : Token} {found : Option (List Token × Nat)}
      (read : item start = some token) (goesOn : closing token.span.stop = none)
      (parts : separator token.span.stop = some next) (others : Rounds item separator closing next rounds found) :
      Rounds item separator closing start (rounds + 1) (found.map fun listed => (token :: listed.1, listed.2))

/-- A list from its opening delimiter on, with the number of its rounds. A list that may be empty looks for the closing
delimiter before the first round. -/
inductive ListRun (item : Nat → Option Token) (opening separator closing : Nat → Option Nat) (mayBeEmpty : Bool)
    (start : Nat) : Nat → Option (List Token × Nat) → Prop
  | unopened (refused : opening start = none) : ListRun item opening separator closing mayBeEmpty start 0 none
  | empty {first stop : Nat} (opens : opening start = some first) (allowed : mayBeEmpty = true)
      (closes : closing first = some stop) :
      ListRun item opening separator closing mayBeEmpty start 0 (some ([], stop))
  | filled {first rounds : Nat} {found : Option (List Token × Nat)} (opens : opening start = some first)
      (goesOn : mayBeEmpty = true → closing first = none) (run : Rounds item separator closing first rounds found) :
      ListRun item opening separator closing mayBeEmpty start rounds found

/-- Items in a row: the first one at an offset, each other one behind a separator behind the one before it, and the
closing delimiter behind the last one and no other. -/
structure Listed (item : Nat → Option Token) (separator closing : Nat → Option Nat) (first : Nat) (tokens : List Token)
    (stop : Nat) : Prop where
  filled : tokens ≠ []
  head : item first = some (tokens.head filled)
  row : tokens.IsChain fun one two =>
    closing one.span.stop = none ∧ ∃ next, separator one.span.stop = some next ∧ item next = some two
  last : closing (tokens.getLast filled).span.stop = some stop

section Rounds

variable {item : Nat → Option Token} {opening separator closing : Nat → Option Nat} {length start rounds stop : Nat}
  {tokens : List Token} {found : Option (List Token × Nat)} {mayBeEmpty : Bool}

theorem Rounds.listed (run : Rounds item separator closing start rounds (some (tokens, stop))) :
    Listed item separator closing start tokens stop := by
  generalize same : some (tokens, stop) = found at run
  induction run generalizing tokens with
  | refused | broken => cases same
  | closed read ends =>
    cases same
    exact ⟨List.cons_ne_nil _ _, read, .singleton _, ends⟩
  | @onward start next rounds token found read goesOn parts _ ih =>
    obtain ⟨⟨others, _⟩, rfl, same⟩ := Option.map_eq_some_iff.mp same.symm
    cases same
    obtain ⟨filled, head, row, last⟩ := ih rfl
    obtain ⟨second, more, rfl⟩ := List.exists_cons_of_ne_nil filled
    exact ⟨List.cons_ne_nil _ _, read, .cons_cons ⟨goesOn, next, parts, head⟩ row, last⟩

theorem Listed.exists_rounds (listed : Listed item separator closing start tokens stop) :
    ∃ rounds, Rounds item separator closing start rounds (some (tokens, stop)) := by
  induction tokens generalizing start with
  | nil => exact absurd rfl listed.filled
  | cons token others ih =>
    obtain ⟨_, head, row, last⟩ := listed
    cases others with
    | nil => exact ⟨1, .closed head last⟩
    | cons second more =>
      obtain ⟨⟨goesOn, next, parts, read⟩, row⟩ := List.isChain_cons_cons.mp row
      obtain ⟨rounds, run⟩ := ih ⟨List.cons_ne_nil _ _, read, row, last⟩
      exact ⟨rounds + 1, .onward head goesOn parts run⟩

variable (stands : ∀ offset token, item offset = some token → token.StandsAt length offset)

include stands in
/-- A delimiter behind an item takes the offset on, even if the item does not. -/
theorem Consumes.behind {ends : Nat → Option Nat} {token : Token} (consumes : Consumes length ends)
    (read : item start = some token) (delimited : ends token.span.stop = some stop) : start < stop ∧ stop ≤ length := by
  have forward := (stands _ _ read).forward
  have further := consumes _ _ delimited
  omega

variable (separates : Consumes length separator)
include stands separates

theorem Rounds.le (run : Rounds item separator closing start rounds found) : rounds ≤ length - start + 1 := by
  induction run with
  | refused | closed | broken => omega
  | onward read _ parts _ ih =>
    have further := separates.behind stands read parts
    omega

theorem exists_rounds (start : Nat) : ∃ rounds found, Rounds item separator closing start rounds found := by
  cases read : item start with
  | none => exact ⟨_, _, .refused read⟩
  | some token =>
    cases closes : closing token.span.stop with
    | some stop => exact ⟨_, _, .closed read closes⟩
    | none =>
      cases parts : separator token.span.stop with
      | none => exact ⟨_, _, .broken read closes parts⟩
      | some next =>
        have further := separates.behind stands read parts
        obtain ⟨rounds, found, run⟩ := exists_rounds next
        exact ⟨_, _, .onward read closes parts run⟩
termination_by length - start
decreasing_by omega

theorem Rounds.inside (closes : Consumes length closing)
    (run : Rounds item separator closing start rounds (some (tokens, stop))) : start ≤ stop ∧ stop ≤ length := by
  generalize same : some (tokens, stop) = found at run
  induction run generalizing tokens with
  | refused | broken => cases same
  | closed read ends =>
    cases same
    have further := closes.behind stands read ends
    omega
  | onward read _ parts _ ih =>
    obtain ⟨⟨others, _⟩, rfl, same⟩ := Option.map_eq_some_iff.mp same.symm
    cases same
    have further := separates.behind stands read parts
    have behind := ih rfl
    omega

theorem ListRun.le (opens : Consumes length opening)
    (run : ListRun item opening separator closing mayBeEmpty start rounds found) : rounds ≤ length - start + 1 := by
  cases run with
  | unopened | empty => omega
  | filled opened _ run =>
    have further := opens _ _ opened
    have fewer := run.le stands separates
    omega

theorem exists_listRun (mayBeEmpty : Bool) (start : Nat) :
    ∃ rounds found, ListRun item opening separator closing mayBeEmpty start rounds found := by
  cases opens : opening start with
  | none => exact ⟨_, _, .unopened opens⟩
  | some first =>
    by_cases goesOn : mayBeEmpty = true → closing first = none
    · obtain ⟨rounds, found, run⟩ := exists_rounds stands separates first
      exact ⟨_, _, .filled opens goesOn run⟩
    · obtain ⟨allowed, ends⟩ := Classical.not_imp.mp goesOn
      obtain ⟨stop, closes⟩ := Option.ne_none_iff_exists'.mp ends
      exact ⟨_, _, .empty opens allowed closes⟩

end Rounds

namespace Attempt

variable {account α β : Type} {state after : account} {first : Attempt account α} {rest : α → Attempt account β}

theorem bind_of_done {value : α} (run : first state = (.done value, after)) :
    (first >>= rest) state = rest value after := by
  show andThen first rest state = _
  simp only [andThen, run]

theorem bind_of_noMatch (run : first state = (.noMatch, after)) : (first >>= rest) state = (.noMatch, after) := by
  show andThen first rest state = _
  simp only [andThen, run]

end Attempt

namespace Reader

open Attempt (bind_of_done bind_of_noMatch)
open Pattern (read_of_endAt read_eq_none)

variable {account : Type} {reader : Reader account} {state : account} {source : Bytes} {item : Nat → Option Token}
  {kind : Kind} {opening separator closing : Pattern} {mayBeEmpty : Bool} {start stop rounds : Nat}
  {found : Option (List Token × Nat)}

theorem skip_of_endAt (ends : opening.endAt source start = some stop) :
    (skip opening (Cursor.ofSource source start)) state = (.done (Cursor.ofSource source stop), state) := by
  obtain ⟨text, read⟩ := read_of_endAt ends
  rw [skip, read]
  rfl

theorem skip_of_refused (refused : opening.endAt source start = none) :
    (skip opening (Cursor.ofSource source start) : Attempt account Cursor) state = (.noMatch, state) := by
  rw [skip, read_eq_none refused]
  rfl

theorem close_of_le {value : Value} (forward : start ≤ stop) (inside : stop ≤ source.length) :
    (close source.length kind value (Cursor.ofSource source start) (Cursor.ofSource source stop)) state =
      (.done (⟨kind, ⟨start, stop⟩, value⟩, Cursor.ofSource source stop), state) := by
  have token : Checked.token source.length kind ⟨start, stop⟩ value = .ok ⟨kind, ⟨start, stop⟩, value⟩ := by
    simp [Checked.token, Token.ofSpan, Nat.not_lt.mpr forward, Nat.not_lt.mpr inside, Except.mapError]
  simp only [close, Cursor.ofSource, token]
  rfl

theorem itemsUntil_of_read (recognizes : reader.Recognizes state source item) {token : Token}
    (read : item start = some token) (octet : UInt8) (budget : Bytes) (tokens : List Token) :
    itemsUntil reader separator closing (octet :: budget) tokens (Cursor.ofSource source start) state =
      (match closing.read (Cursor.ofSource source token.span.stop) with
        | some (_, stop) => pure ((token :: tokens).reverse, stop)
        | none => do
          itemsUntil reader separator closing budget (token :: tokens)
            (← skip separator (Cursor.ofSource source token.span.stop)) : Attempt account _) state := by
  have done := recognizes.reads start
  rw [read] at done
  exact bind_of_done done

/-- The octets that are left are rounds enough. One round more is possible, from the end of the source, but it finds
no closing delimiter there and no separator. -/
theorem itemsUntil_of_rounds (recognizes : reader.Recognizes state source item)
    (separates : Consumes source.length (separator.endAt source))
    (closes : Consumes source.length (closing.endAt source))
    (run : Rounds item (separator.endAt source) (closing.endAt source) start rounds found) (budget : Bytes)
    (tokens : List Token) (enough : source.length - start ≤ budget.length) :
    itemsUntil reader separator closing budget tokens (Cursor.ofSource source start) state =
      (.ofOption (found.map fun listed => (tokens.reverse ++ listed.1, Cursor.ofSource source listed.2)), state) := by
  induction run generalizing budget tokens with
  | @refused start read =>
    cases budget with
    | nil => rfl
    | cons _ budget =>
      have refused := recognizes.reads start
      rw [read] at refused
      unfold itemsUntil
      exact bind_of_noMatch refused
  | @closed start stop token read ends =>
    have further := closes.behind recognizes.stands read ends
    cases budget with
    | nil => simp only [List.length_nil] at enough; omega
    | cons octet budget =>
      obtain ⟨text, closed⟩ := read_of_endAt ends
      rw [itemsUntil_of_read recognizes read, closed, Option.map_some, ← List.reverse_cons]
      rfl
  | @broken start token read goesOn parts =>
    cases budget with
    | nil => rfl
    | cons octet budget =>
      rw [itemsUntil_of_read recognizes read, read_eq_none goesOn]
      exact bind_of_noMatch (skip_of_refused parts)
  | @onward start next rounds token found read goesOn parts _ ih =>
    have further := separates.behind recognizes.stands read parts
    cases budget with
    | nil => simp only [List.length_nil] at enough; omega
    | cons octet budget =>
      simp only [List.length_cons] at enough
      rw [itemsUntil_of_read recognizes read, read_eq_none goesOn]
      dsimp only
      rw [bind_of_done (skip_of_endAt parts), ih budget (token :: tokens) (by omega), Option.map_map]
      simp only [List.reverse_cons, List.append_assoc, List.singleton_append]
      rfl

/-- A list that is read as its rounds find it: they end, they are no more than the octets from the offset on and one
more, and what they find is what the reader gives, with the account as it was. -/
structure Ends (list : Reader account) (state : account) (source : Bytes) (kind : Kind) (start : Nat)
    (run : Nat → Option (List Token × Nat) → Prop) : Prop where
  ends : ∃ rounds found, run rounds found
  few : ∀ rounds found, run rounds found → rounds ≤ source.length - start + 1
  given : ∀ rounds found, run rounds found → list (Cursor.ofSource source start) state =
    (.ofOption (found.map fun listed =>
      (⟨kind, ⟨start, listed.2⟩, .items listed.1⟩, Cursor.ofSource source listed.2)), state)

variable (recognizes : reader.Recognizes state source item)
  (opens : Consumes source.length (opening.endAt source))
  (separates : Consumes source.length (separator.endAt source))
  (closes : Consumes source.length (closing.endAt source))
include recognizes opens separates closes

theorem list_of_run (run : ListRun item (opening.endAt source) (separator.endAt source) (closing.endAt source)
      mayBeEmpty start rounds found) :
    list source.length kind opening reader separator closing mayBeEmpty (Cursor.ofSource source start) state =
      (.ofOption (found.map fun listed =>
        (⟨kind, ⟨start, listed.2⟩, .items listed.1⟩, Cursor.ofSource source listed.2)), state) := by
  unfold list
  cases run with
  | unopened refused => exact bind_of_noMatch (skip_of_refused refused)
  | @empty first stop opened allowed ends =>
    have before := opens _ _ opened
    have behind := closes _ _ ends
    obtain ⟨text, closed⟩ := read_of_endAt ends
    rw [bind_of_done (skip_of_endAt opened), if_pos allowed, closed]
    exact close_of_le (by omega) behind.2
  | @filled first rounds found opened goesOn run =>
    have none : (if mayBeEmpty = true then closing.read (Cursor.ofSource source first) else none) = none := by
      split
      · exact read_eq_none (goesOn ‹_›)
      · rfl
    have enough : source.length - first ≤ (Cursor.ofSource source first).rest.length := by
      rw [Cursor.ofSource, List.length_drop]
    have items := itemsUntil_of_rounds recognizes separates closes run _ [] enough
    rw [bind_of_done (skip_of_endAt opened), none]
    cases found with
    | none => exact bind_of_noMatch items
    | some listed =>
      have before := opens _ _ opened
      have inside := run.inside recognizes.stands separates closes
      dsimp only
      rw [Reader.items, bind_of_done items]
      exact close_of_le (by omega) inside.2

theorem list_ends :
    (list source.length kind opening reader separator closing mayBeEmpty).Ends state source kind start
      (ListRun item (opening.endAt source) (separator.endAt source) (closing.endAt source) mayBeEmpty start) where
  ends := exists_listRun recognizes.stands separates mayBeEmpty start
  few _ _ run := run.le recognizes.stands separates opens
  given _ _ run := list_of_run recognizes opens separates closes run

end Reader

end ODataLiteral
