import ODataLiteral.Proofs.Grammar.Fits
import ODataLiteral.Proofs.Rule.Agreement

/-! Reading a rule, whatever is asserted on the way, comes to parsing the text at its place.
Under a limit on nesting, the levels that are still free are all that matters; without one, there are always
as many levels as characters. -/
namespace ODataLiteral

open Attempt (Refines)

section Rule

variable {account : Type} {state : account} {length : Nat}

theorem Rule.readWith_computes {construct : Construct → Reader account}
    {parser : Construct → Parser} (strict : ∀ named, (parser named).Strict)
    (computes : ∀ named, Reader.Computes length state (construct named) (parser named)) {rule : Rule}
    (steady : rule.steady = true) (fits : rule.Fits) :
    Reader.Computes length state (rule.readWith length construct) (rule.parseWith parser) := by
  induction rule with
  | lexeme kind meaning pattern =>
    simp only [Rule.steady, Bool.and_eq_true, Bool.not_eq_true'] at steady
    exact Reader.lexeme_computes steady.1 steady.2 fits
  | enclosed kind opening inner closing ih =>
    simp only [Rule.steady, Bool.and_eq_true] at steady
    obtain ⟨⟨opens, inside⟩, closes⟩ := steady
    exact Reader.enclosed_computes opens closes (Rule.parseWith_strict strict _ inside)
      (ih inside fits)
  | pair pairing opening first between second ihFirst ihSecond =>
    simp only [Rule.steady, Bool.and_eq_true] at steady
    obtain ⟨⟨⟨opens, one⟩, middle⟩, two⟩ := steady
    exact Reader.pair_computes opens middle (Rule.parseWith_strict strict _ one)
      (Rule.parseWith_strict strict _ two) (ihFirst one fits.1) (ihSecond two fits.2)
  | list kind opening item separator closing mayBeEmpty ih =>
    have steady := steadyItems_of_list steady
    exact Reader.list_computes steady.opens steady.parts steady.ends steady.closes
      (Rule.parseWith_strict strict _ steady.inside) (ih steady.inside fits)
  | enumeration typeName opening member separator closing ih =>
    obtain ⟨named, steady⟩ := steadyItems_of_enumeration steady
    exact Reader.enumeration_computes named steady.opens steady.parts steady.ends
      (Rule.parseWith_strict strict _ steady.inside) (ih steady.inside fits)
  | withType type rule ih => exact Reader.mapToken_computes (ih steady fits)
  | withKind kind rule ih => exact Reader.mapToken_computes (ih steady fits)
  | orElse first second ihFirst ihSecond =>
    simp only [Rule.steady, Bool.and_eq_true] at steady
    intro start place at_
    exact Refines.orElse (fun _ => second.readWith length construct start)
      (ihFirst steady.1 fits.1 _ _ at_) (ihSecond steady.2 fits.2 _ _ at_)
  | never => exact fun _ _ _ => Refines.fail
  | construct named => exact computes named

end Rule

namespace Nesting

variable {account α β : Type} {related : α → β → Prop}

theorem within_refines {nesting : Nesting account} {state inside : account}
    {body : Attempt account α} {expected : Option β} (opens : nesting.enter state = some inside)
    (closes : nesting.leave inside = .ok state) (refines : Refines related inside body expected) :
    Refines related state (nesting.within body) expected := by
  obtain ⟨found, run, same⟩ := refines
  refine ⟨found, ?_, same⟩
  simp only [within, opens, run, closes]

theorem within_refines_of_refused {nesting : Nesting account} {state : account}
    {body : Attempt account α} (refused : nesting.enter state = none) :
    Refines related state (nesting.within body) (none : Option β) := by
  refine ⟨none, ?_, .none⟩
  simp only [within, refused]
  rfl

end Nesting

namespace Construct

/-- Under a limit, the readers have as many levels as are free, unless the unfoldings run out before. -/
theorem reader_bounded_computes (limit length unfoldings depth : Nat) (construct : Construct) :
    Reader.Computes length depth (construct.reader (Nesting.bounded limit) length unfoldings)
      (construct.parse (min unfoldings (limit - depth))) := by
  induction unfoldings generalizing depth construct with
  | zero =>
    rw [Nat.zero_min]
    exact fun _ _ _ => Refines.fail
  | succ unfoldings ih =>
    intro start place at_
    by_cases free : depth < limit
    · have levels : min (unfoldings + 1) (limit - depth) =
          min unfoldings (limit - (depth + 1)) + 1 := by omega
      rw [levels]
      have body := Rule.readWith_computes (Construct.parse_strict _) (ih (depth + 1))
        construct.steady_body construct.body_fits
      have opens : (Nesting.bounded limit).enter depth = some (depth + 1) := if_pos free
      have closes : (Nesting.bounded limit).leave (depth + 1) = .ok depth := by
        simp [Nesting.bounded, Checked.subtract]
      exact Nesting.within_refines opens closes (body _ _ at_)
    · have levels : min (unfoldings + 1) (limit - depth) = 0 := by omega
      rw [levels]
      exact Nesting.within_refines_of_refused (if_neg free)

theorem reader_unbounded_computes (length unfoldings : Nat) (construct : Construct) :
    Reader.Computes length () (construct.reader Nesting.unbounded length unfoldings)
      (construct.parse unfoldings) := by
  induction unfoldings generalizing construct with
  | zero => exact fun _ _ _ => Refines.fail
  | succ unfoldings ih =>
    intro start place at_
    have body := Rule.readWith_computes (Construct.parse_strict _) ih construct.steady_body
      construct.body_fits
    have opens : Nesting.unbounded.enter () = some () := rfl
    have closes : Nesting.unbounded.leave () = .ok () := rfl
    exact Nesting.within_refines opens closes (body _ _ at_)

end Construct

/-- What a rule finds at an offset of a source with so many levels left to open. -/
def Rule.find? (levels : Nat) (rule : Rule) (source : Bytes) (offset : Nat) : Option Token :=
  (rule.parse levels (Place.ofSource source offset)).map (·.1)

theorem Table.find?_rule (table : Table) (levels : Nat) (source : Bytes) (offset : Nat) :
    table.rule.find? levels source offset =
      table.findSome? fun alternative => alternative.rule.find? levels source offset := by
  rw [Rule.find?, parse_rule, List.map_findSome?]
  rfl

theorem Place.slice_of_advances {source : Bytes} {offset : Nat} {text : Text} {stop : Place}
    (on : (Place.ofSource source offset).Advances text stop) :
    source.slice offset stop.offset = text.bytes := by
  obtain ⟨after, _, whole⟩ := Text.exists_rest_of_append on.rest
  have whole : source.drop offset = text.bytes ++ after := whole
  have width : stop.offset - offset = text.bytes.length := by
    rw [Text.length_bytes, on.offset]
    exact Nat.add_sub_cancel_left _ _
  rw [Bytes.slice, List.drop_take, whole, width, List.take_left]

namespace Rule

variable {rule : Rule} {source : Bytes} {offset : Nat}

theorem ofSource_at (source : Bytes) (offset : Nat) :
    (Cursor.ofSource source offset).At source.length (Place.ofSource source offset) :=
  ⟨rfl, Cursor.ofSource_within source offset⟩

/-- The token of a rule where constructs are unfolded so many times at the most. -/
def readUnfolding {account : Type} (nesting : Nesting account) (unfoldings : Nat) (rule : Rule) (source : Bytes)
    (offset : Nat) : Attempt account Token := do
  let construct := Construct.reader nesting source.length unfoldings
  let (token, _) ← rule.readWith source.length construct (Cursor.ofSource source offset)
  pure token

theorem read_eq {account : Type} (nesting : Nesting account) (rule : Rule) (source : Bytes) (offset : Nat) :
    rule.read nesting source offset =
      rule.readUnfolding nesting (Cursor.ofSource source offset).rest.length source offset :=
  rfl

theorem readUnfolding_of_computes {account : Type} {nesting : Nesting account} {state : account}
    {unfoldings : Nat} {parser : Parser}
    (computes : Reader.Computes source.length state
      (rule.readWith source.length (Construct.reader nesting source.length unfoldings)) parser) :
    rule.readUnfolding nesting unfoldings source offset state =
      (.ofOption ((parser (Place.ofSource source offset)).map (·.1)), state) := by
  have refines : Refines Eq state (rule.readUnfolding nesting unfoldings source offset)
      (parser (Place.ofSource source offset) >>= fun found => some found.1) := by
    apply Refines.bind (computes _ _ (ofSource_at source offset))
    rintro ⟨token, stop⟩ ⟨_, last⟩ _ ⟨rfl, _⟩
    exact Refines.succeed rfl
  obtain ⟨found, run, same⟩ := refines
  rw [run]
  have equal : found = (parser (Place.ofSource source offset)).map (·.1) := by
    revert same
    cases parser (Place.ofSource source offset) <;> rintro ⟨⟩ <;> simp_all
  rw [equal]

theorem length_place_le (source : Bytes) (offset : Nat) :
    (Place.ofSource source offset).rest.length ≤ (Cursor.ofSource source offset).rest.length :=
  Text.length_ofBytes_le _

/-- Reading with some levels open is parsing with the others, and leaves them open. The number of unfoldings does
not matter, as long as there is one for each octet. -/
theorem readUnfolding_bounded (steady : rule.steady = true) (fits : rule.Fits) (limit depth : Nat) {unfoldings : Nat}
    (enough : (Cursor.ofSource source offset).rest.length ≤ unfoldings) :
    rule.readUnfolding (Nesting.bounded limit) unfoldings source offset depth =
      (.ofOption (rule.find? (limit - depth) source offset), depth) := by
  have computes := Rule.readWith_computes (Construct.parse_strict _)
    (Construct.reader_bounded_computes limit source.length unfoldings depth) steady fits
  have short := Nat.le_trans (length_place_le source offset) enough
  have same : rule.parse (min unfoldings (limit - depth)) (Place.ofSource source offset) =
      rule.parse (limit - depth) (Place.ofSource source offset) := by
    rcases Nat.le_total unfoldings (limit - depth) with fewer | more
    · rw [Nat.min_eq_left fewer]
      exact rule.parse_enough short (Nat.le_trans short fewer)
    · rw [Nat.min_eq_right more]
  rw [find?, ← same]
  exact readUnfolding_of_computes computes

theorem attempt_eq (steady : rule.steady = true) (fits : rule.Fits) (depth : Nat) :
    rule.attempt source offset depth =
      (.ofOption (rule.find? (maxDepth - depth) source offset), depth) :=
  readUnfolding_bounded steady fits maxDepth depth (Nat.le_refl _)

theorem value?_attempt (steady : rule.steady = true) (fits : rule.Fits) (depth : Nat) :
    (rule.attempt source offset depth).1.value? = rule.find? (maxDepth - depth) source offset := by
  rw [attempt_eq steady fits]
  cases rule.find? (maxDepth - depth) source offset <;> rfl

/-- Without a limit there are as many levels as characters. Here, too, the number of unfoldings does not matter. -/
theorem readUnfolding_unbounded (steady : rule.steady = true) (fits : rule.Fits) {unfoldings : Nat}
    (enough : (Cursor.ofSource source offset).rest.length ≤ unfoldings) :
    rule.readUnfolding Nesting.unbounded unfoldings source offset () =
      (.ofOption (rule.find? (Place.ofSource source offset).rest.length source offset), ()) := by
  have computes := Rule.readWith_computes (Construct.parse_strict _)
    (Construct.reader_unbounded_computes source.length unfoldings) steady fits
  rw [find?, rule.parse_enough (Nat.le_refl _) (Nat.le_trans (length_place_le source offset) enough)]
  exact readUnfolding_of_computes computes

theorem read_unbounded_eq (steady : rule.steady = true) (fits : rule.Fits) :
    rule.read Nesting.unbounded source offset () =
      (.ofOption (rule.find? (Place.ofSource source offset).rest.length source offset), ()) :=
  readUnfolding_unbounded steady fits (Nat.le_refl _)

/-- One unfolding for each octet is enough: more of them never change what is read, with a limit or without. -/
theorem readUnfolding_enough (steady : rule.steady = true) (fits : rule.Fits) {unfoldings : Nat}
    (enough : (Cursor.ofSource source offset).rest.length ≤ unfoldings) :
    (∀ limit, rule.readUnfolding (Nesting.bounded limit) unfoldings source offset =
      rule.read (Nesting.bounded limit) source offset) ∧
    rule.readUnfolding Nesting.unbounded unfoldings source offset =
      rule.read Nesting.unbounded source offset := by
  refine ⟨fun limit => funext fun depth => ?_, funext fun _ => ?_⟩
  · rw [read_eq, readUnfolding_bounded steady fits limit depth enough,
      readUnfolding_bounded steady fits limit depth (Nat.le_refl _)]
  · rw [read_unbounded_eq steady fits]
    exact readUnfolding_unbounded steady fits enough

theorem tokenAt?_eq (steady : rule.steady = true) (fits : rule.Fits) :
    rule.tokenAt? source offset = rule.find? maxDepth source offset :=
  value?_attempt steady fits 0

theorem tokenAt?_iff (steady : rule.steady = true) (fits : rule.Fits) {token : Token} :
    rule.tokenAt? source offset = some token ↔
      ∃ stop, rule.parse maxDepth (Place.ofSource source offset) = some (token, stop) := by
  simp only [tokenAt?_eq steady fits, find?, Option.map_eq_some_iff, Prod.exists, exists_and_right,
    exists_eq_right]

end Rule

end ODataLiteral
