import ODataLiteral.Proofs.Rule.Lexeme

/-! What stands between two marks of one kind, unit by unit. A source can hold one such row at an offset at the most
when no unit could begin with its closing mark: whatever is taken greedily is then the row itself. -/
namespace ODataLiteral

open Abnf (Derives)
open Pattern

/-- Units in a row between two marks, from one offset of a source to another. -/
structure Quotation (delimiter : Char) (unit : Language UriChar) (source : Bytes) (offset stop : Nat)
    (opening : Bytes) (units : List Bytes) (closing : Bytes) : Prop where
  inside : stop ≤ source.length
  octets : source.slice offset stop = opening ++ units.flatten ++ closing
  opens : Derives (Abnf.mark delimiter) opening
  every : ∀ one ∈ units, Derives unit one
  closes : Derives (Abnf.mark delimiter) closing

theorem Text.ofBytes_injective : Function.Injective Text.ofBytes :=
  Function.LeftInverse.injective Text.bytes_ofBytes

namespace Abnf

/-- A mark, units in a row and a mark. -/
def quoted (delimiter : Char) (unit : Language UriChar) : Language UriChar :=
  mark delimiter * repeated 0 none unit * mark delimiter

theorem derives_mark_iff {delimiter : Char} {octets : Bytes} : Derives (mark delimiter) octets ↔
    ∃ character : UriChar, character.isDelimiter delimiter = true ∧ character.Legible ∧ octets = character.bytes := by
  rw [mark_eq, derives_character_iff]

theorem ofBytes_flatten_append {unit : Language UriChar} {units : List Bytes}
    (every : ∀ one ∈ units, Derives unit one) (rest : Bytes) :
    Text.ofBytes (units.flatten ++ rest) = (units.map Text.ofBytes).flatten ++ Text.ofBytes rest := by
  induction units with
  | nil => rfl
  | cons one others ih =>
    obtain ⟨first, every⟩ := List.forall_mem_cons.mp every
    rw [List.flatten_cons, List.append_assoc, first.ofBytes_append, ih every, List.map_cons, List.flatten_cons,
      List.append_assoc]

end Abnf

section Greedy

variable {body : Pattern} {text tail : Text} {units : List Text}

/-- Units are taken one by one, and no more of them where no unit goes on. -/
theorem Pattern.repeats_of_takes (takes : body.Takes Grammar.anything) (filled : body.nullable = false)
    (every : ∀ one ∈ units, one ∈ body.language) (halts : body.split tail = none) :
    Repeats body.split none (units.flatten ++ tail) units tail := by
  have each : ∀ one ∈ body.language, ∀ tail, HeadIn (fun character => body.leads character || true) tail →
      body.split (one ++ tail) = some (one, tail) := fun one member tail _ => takes one member tail fun _ _ => rfl
  refine repeats_of_parts each filled every ?_ (.inr halts) fun _ _ => rfl
  rintro bound ⟨⟩

/-- A row of units between two marks is taken as a whole where no unit goes on at the second mark. -/
theorem Pattern.split_quoted_of_mem {mark : Char} (takes : body.Takes Grammar.anything)
    (filled : body.nullable = false) (member : text ∈ Abnf.quoted mark body.language)
    (halts : ∀ last : UriChar, last.isDelimiter mark = true → body.split (last :: tail) = none) :
    (delimiter mark ++ many body ++ delimiter mark).split (text ++ tail) = some (text, tail) := by
  obtain ⟨_, ⟨_, opens, _, ⟨units, _, _, every, rfl⟩, rfl⟩, _, closes, rfl⟩ := member
  obtain ⟨first, isMark, rfl⟩ := Abnf.mem_mark.mp opens
  obtain ⟨last, isMarkToo, rfl⟩ := Abnf.mem_mark.mp closes
  have run := repeats_of_takes takes filled every (halts last isMarkToo)
  have row : (many body).split (units.flatten ++ last :: tail) = some (units.flatten, last :: tail) :=
    (split_times_iff filled).mpr ⟨units, run, Nat.zero_le _, rfl⟩
  have opened : (delimiter mark).split (first :: (units.flatten ++ last :: tail)) =
      some ([first], units.flatten ++ last :: tail) := if_pos isMark
  have closed : (delimiter mark).split (last :: tail) = some ([last], tail) := if_pos isMarkToo
  have whole : first :: (units.flatten ++ last :: tail) = [first] ++ units.flatten ++ [last] ++ tail := by simp
  rw [whole] at opened
  exact split_seq_iff.mpr ⟨_, _, _, split_seq_iff.mpr ⟨_, _, _, opened, row, rfl⟩, closed, rfl⟩

end Greedy

variable {delimiter : Char} {unit : Language UriChar} {source : Bytes} {offset stop other : Nat}
  {opening closing opening' closing' : Bytes} {units units' : List Bytes}

theorem exists_quotation_iff :
    (∃ opening units closing, Quotation delimiter unit source offset stop opening units closing) ↔
      stop ≤ source.length ∧ Derives (Abnf.quoted delimiter unit) (source.slice offset stop) := by
  simp only [Abnf.quoted, Abnf.derives_mul_iff, Abnf.derives_repeated_iff]
  constructor
  · rintro ⟨opening, units, closing, inside, octets, opens, every, closes⟩
    exact ⟨inside, _, closing, ⟨opening, _, opens, ⟨units, Nat.zero_le _, nofun, every, rfl⟩, rfl⟩, closes, octets⟩
  · rintro ⟨inside, _, closing, ⟨opening, _, opens, ⟨units, _, _, every, rfl⟩, rfl⟩, closes, octets⟩
    exact ⟨opening, units, closing, inside, octets, opens, every, closes⟩

namespace Quotation

theorem drop_eq (quotation : Quotation delimiter unit source offset stop opening units closing) :
    source.drop offset = opening ++ (units.flatten ++ (closing ++ source.drop stop)) := by
  obtain ⟨mark, _, _, rfl⟩ := Abnf.derives_mark_iff.mp quotation.opens
  have filled : source.slice offset stop ≠ [] := by
    rw [quotation.octets, List.append_assoc]
    exact List.append_ne_nil_of_left_ne_nil (List.length_pos_iff.mp (mark.length_bytes ▸ mark.width_pos)) _
  rw [(Bytes.drop_of_slice quotation.inside filled).2, quotation.octets]
  simp only [List.append_assoc]

/-- The characters of a quotation: its first mark, the characters of its units, and its last mark. -/
theorem characters (quotation : Quotation delimiter unit source offset stop opening units closing) :
    ∃ first last : UriChar, opening = first.bytes ∧ closing = last.bytes ∧ last.isDelimiter delimiter = true ∧
      ∀ rest, Text.ofBytes (opening ++ (units.flatten ++ (closing ++ rest))) =
        first :: ((units.map Text.ofBytes).flatten ++ last :: Text.ofBytes rest) := by
  obtain ⟨first, _, legible, rfl⟩ := Abnf.derives_mark_iff.mp quotation.opens
  obtain ⟨last, isMark, legibleToo, rfl⟩ := Abnf.derives_mark_iff.mp quotation.closes
  refine ⟨first, last, rfl, rfl, isMark, fun rest => ?_⟩
  rw [Text.ofBytes_character_append legible, Abnf.ofBytes_flatten_append quotation.every,
    Text.ofBytes_character_append legibleToo]

theorem mem_unit (quotation : Quotation delimiter unit source offset stop opening units closing) :
    ∀ text ∈ units.map Text.ofBytes, text ∈ unit := by
  intro text member
  obtain ⟨one, inside, rfl⟩ := List.mem_map.mp member
  exact (Abnf.derives_iff.mp (quotation.every one inside)).1

theorem ofBytes_flatten (quotation : Quotation delimiter unit source offset stop opening units closing) :
    Text.ofBytes units.flatten = (units.map Text.ofBytes).flatten := by
  simpa using Abnf.ofBytes_flatten_append quotation.every []

/-- What stands between the first and the last character of a quotation are its units. -/
theorem bytes_between (quotation : Quotation delimiter unit source offset stop opening units closing) :
    Text.bytes (Text.ofBytes (source.slice offset stop)).tail.dropLast = units.flatten := by
  obtain ⟨first, last, _, _, _, whole⟩ := quotation.characters
  have parts := whole []
  rw [List.append_nil, ← List.append_assoc, ← quotation.octets, Text.ofBytes_nil] at parts
  rw [parts, List.tail_cons, List.dropLast_concat, ← quotation.ofBytes_flatten, Text.bytes_ofBytes]

section Greedy

variable {body : Pattern}

/-- Behind its mark the row is taken unit by unit, and the scan halts where no unit goes on. -/
theorem repeats (takes : body.Takes Grammar.anything) (filled : body.nullable = false)
    (quotation : Quotation delimiter body.language source offset stop opening units closing) {rest : Text}
    (halts : body.split rest = none) :
    Repeats body.split none ((units.map Text.ofBytes).flatten ++ rest) (units.map Text.ofBytes) rest :=
  repeats_of_takes takes filled quotation.mem_unit halts

/-- Where no unit goes on at the closing mark, there is one way to read the row. -/
theorem unique (takes : body.Takes Grammar.anything) (filled : body.nullable = false)
    (one : Quotation delimiter body.language source offset stop opening units closing)
    (two : Quotation delimiter body.language source offset other opening' units' closing')
    (halts : ∀ last : UriChar, last.isDelimiter delimiter = true →
      body.split (last :: Text.ofBytes (source.drop stop)) = none)
    (haltsToo : ∀ last : UriChar, last.isDelimiter delimiter = true →
      body.split (last :: Text.ofBytes (source.drop other)) = none) :
    stop = other ∧ opening = opening' ∧ units = units' ∧ closing = closing' := by
  obtain ⟨first, last, rfl, rfl, isMark, whole⟩ := one.characters
  obtain ⟨first', last', rfl, rfl, isMark', whole'⟩ := two.characters
  have both := one.drop_eq.symm.trans two.drop_eq
  obtain ⟨rfl, rest⟩ := List.cons.inj ((whole _).symm.trans ((congrArg Text.ofBytes both).trans (whole' _)))
  have run := one.repeats takes filled (halts last isMark)
  rw [rest] at run
  obtain ⟨same, sameRest⟩ := run.unique (two.repeats takes filled (haltsToo last' isMark'))
  obtain ⟨rfl, ends⟩ := List.cons.inj sameRest
  have length := congrArg List.length (Text.ofBytes_injective ends)
  have inside := one.inside
  have insideToo := two.inside
  rw [List.length_drop, List.length_drop] at length
  exact ⟨by omega, rfl, List.map_injective_iff.mpr Text.ofBytes_injective same, rfl⟩

/-- The greedy scan of the units behind the first mark takes all of them and stops before the last mark. -/
theorem scan_units (steady : body.steady = true) (takes : body.Takes Grammar.anything) (filled : body.nullable = false)
    (quotation : Quotation delimiter body.language source offset stop opening units closing)
    (halts : ∀ last : UriChar, last.isDelimiter delimiter = true →
      body.split (last :: Text.ofBytes (source.drop stop)) = none) :
    (many body).scan (source.drop (offset + opening.length)) =
      some (Text.ofBytes units.flatten, closing ++ source.drop stop) := by
  have behind : source.drop (offset + opening.length) = units.flatten ++ (closing ++ source.drop stop) := by
    rw [← List.drop_drop, quotation.drop_eq, List.drop_left]
  obtain ⟨last, isMark, legible, rfl⟩ := Abnf.derives_mark_iff.mp quotation.closes
  have rest : Text.ofBytes (last.bytes ++ source.drop stop) = last :: Text.ofBytes (source.drop stop) :=
    Text.ofBytes_character_append legible _
  have goesOn : (many body).steady = true := by simp [many, Pattern.steady, filled, steady]
  have taken : (many body).split (Text.ofBytes (units.flatten ++ (last.bytes ++ source.drop stop))) =
      some (Text.ofBytes units.flatten, Text.ofBytes (last.bytes ++ source.drop stop)) := by
    rw [Abnf.ofBytes_flatten_append quotation.every, quotation.ofBytes_flatten, rest]
    exact (split_times_iff filled).mpr ⟨_, quotation.repeats takes filled (halts last isMark), Nat.zero_le _, rfl⟩
  rw [split_ofBytes goesOn] at taken
  obtain ⟨⟨text, after⟩, read, same⟩ := Option.map_eq_some_iff.mp taken
  obtain ⟨rfl, ends⟩ := Prod.mk.inj same
  obtain rfl : after = last.bytes ++ source.drop stop := Text.ofBytes_injective ends
  rw [behind, read]

end Greedy

end Quotation

end ODataLiteral
