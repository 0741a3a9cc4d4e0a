import ODataLiteral.Proofs.Pattern.Settled
import ODataLiteral.Proofs.Rule.Cut

/-! Rules that read the same token when more text is put behind a text, form by form. What each part of a rule needs to
be settled is that the next part reads behind it, so a rule asks nothing of the text behind it but what its last part
asks. -/
namespace ODataLiteral

/-- A parser that reads the same in every longer text where what it leaves has a property. -/
def Parser.Settled (parser : Parser) (ahead : Text → Prop) : Prop :=
  ∀ start token stop, parser start = some (token, stop) → ahead stop.rest →
    ∀ more, parser (start.extend more) = some (token, stop.extend more)

/-- Where the second rule reads the same in a longer text, the first one is refused there as it was before. -/
def Rule.Abstains (first second : Rule) : Prop :=
  ∀ levels start token stop more, second.parse levels start = some (token, stop) →
    second.parse levels (start.extend more) = some (token, stop.extend more) →
      first.parse levels start = none → first.parse levels (start.extend more) = none

/-- Where the rule reads, the pattern does not. -/
def Rule.Bars (rule : Rule) (pattern : Pattern) : Prop :=
  ∀ levels start found, rule.parse levels start = some found → pattern.parse start = none

/-- What stands behind an item of a list: a separator and then another item, or the closing delimiter. -/
def Text.Itemized (separator closing : Pattern) (ahead : Text → Prop) (text : Text) : Prop :=
  separator.Before Filled text ∨ closing.Before ahead text

/-- Rules that read the same when more text is put behind them, where what they leave has a property. -/
def Rule.Settled : Rule → (Text → Prop) → Prop
  | lexeme _ _ pattern, ahead => pattern.Settled ahead
  | enclosed _ opening inner closing, ahead =>
    opening.Settled Text.Filled ∧ inner.Settled (closing.Before ahead) ∧ closing.Settled ahead
  | pair _ opening first between second, ahead =>
    opening.Settled Text.Filled ∧ first.Settled (between.Before Text.Filled) ∧
      between.Settled Text.Filled ∧ second.Settled ahead
  | list _ opening item separator closing mayBeEmpty, ahead =>
    opening.Settled Text.Filled ∧ item.Settled (Text.Itemized separator closing ahead) ∧
      separator.Settled Text.Filled ∧ closing.Settled ahead ∧ separator.Excludes closing ∧
      (mayBeEmpty = true → item.Bars closing)
  | enumeration typeName opening member separator closing, ahead =>
    typeName.Settled (opening.Before Text.Filled) ∧ opening.Settled Text.Filled ∧
      member.Settled (Text.Itemized separator closing ahead) ∧
      separator.Settled Text.Filled ∧ closing.Settled ahead ∧ separator.Excludes closing
  | withType _ rule, ahead | withKind _ rule, ahead => rule.Settled ahead
  | orElse first second, ahead => first.Settled ahead ∧ second.Settled ahead ∧ first.Abstains second
  | never, _ | .construct _, _ => True

section Places

variable {pattern : Pattern} {ahead : Text → Prop} {start stop : Place} {text : Text}

theorem Pattern.Settled.parse (settled : pattern.Settled ahead)
    (read : pattern.parse start = some (text, stop)) (here : ahead stop.rest) (more : Text) :
    pattern.parse (start.extend more) = some (text, stop.extend more) := by
  obtain ⟨taken, offset⟩ := Pattern.parse_iff.mp read
  exact Pattern.parse_iff.mpr ⟨settled _ _ _ taken here more, offset⟩

theorem Pattern.before_of_parse (read : pattern.parse start = some (text, stop)) (here : ahead stop.rest) :
    pattern.Before ahead start.rest :=
  ⟨text, stop.rest, (Pattern.parse_iff.mp read).1, here⟩

theorem Pattern.Excludes.parse_eq_none {first second : Pattern} (excludes : first.Excludes second)
    (read : first.parse start = some (text, stop)) : second.parse start = none :=
  Pattern.parse_eq_none.mpr (excludes _ _ _ (Pattern.parse_iff.mp read).1)

theorem Place.Advances.filled (on : start.Advances text stop) (taken : text ≠ []) : start.rest.Filled := by
  unfold Text.Filled
  rw [on.rest]
  exact List.append_ne_nil_of_left_ne_nil taken _

theorem Parser.Strict.filled {parser : Parser} (strict : parser.Strict) {token : Token}
    (read : parser start = some (token, stop)) : start.rest.Filled := by
  obtain ⟨text, taken, on⟩ := strict _ _ _ read
  exact on.filled taken

end Places

namespace Parser

variable {item first second : Parser} {opening between separator closing : Pattern} {ahead : Text → Prop}

theorem lexeme_settled {pattern : Pattern} (settled : pattern.Settled ahead) (kind : Kind) (meaning : Meaning) :
    (lexeme kind meaning pattern).Settled ahead := by
  intro start token stop read here more
  obtain ⟨text, value, taken, known, rfl⟩ := lexeme_iff.mp read
  exact lexeme_iff.mpr ⟨text, value, settled.parse taken here more, known, rfl⟩

theorem enclosed_settled (strict : item.Strict) (opens : opening.Settled Text.Filled)
    (settled : item.Settled (closing.Before ahead)) (closes : closing.Settled ahead) (kind : Kind) :
    (enclosed kind opening item closing).Settled ahead := by
  intro start token stop read here more
  obtain ⟨before, left, child, after, behind, opened, inner, closed, rfl⟩ := enclosed_iff.mp read
  have opened := opens.parse opened (strict.filled inner) more
  have inner := settled _ _ _ inner (Pattern.before_of_parse closed here) more
  have closed := closes.parse closed here more
  exact enclosed_iff.mpr ⟨before, _, child, _, behind, opened, inner, closed, rfl⟩

theorem pair_settled (strict : first.Strict) (strictToo : second.Strict) (opens : opening.Settled Text.Filled)
    (settled : first.Settled (between.Before Text.Filled)) (separates : between.Settled Text.Filled)
    (settledToo : second.Settled ahead) (pairing : Pairing) :
    (pair pairing opening first between second).Settled ahead := by
  intro start token stop read here more
  obtain ⟨before, left, one, middle, gap, right, two, opened, readOne, parted, readTwo, rfl⟩ :=
    pair_iff.mp read
  have filled := strictToo.filled readTwo
  have opened := opens.parse opened (strict.filled readOne) more
  have readOne := settled _ _ _ readOne (Pattern.before_of_parse parted filled) more
  have parted := separates.parse parted filled more
  have readTwo := settledToo _ _ _ readTwo here more
  exact pair_iff.mpr ⟨before, _, one, _, gap, _, two, opened, readOne, parted, readTwo, rfl⟩

/-- The items of a list, their separator and what closes it, all of them settled by what comes next in the list. -/
structure SettledItems (item : Parser) (separator closing : Pattern) (ahead : Text → Prop) : Prop where
  strict : item.Strict
  settled : item.Settled (Text.Itemized separator closing ahead)
  parts : separator.nullable = false ∧ separator.Settled Text.Filled
  closes : closing.nullable = false ∧ closing.Settled ahead
  excludes : separator.Excludes closing

section Items

variable {start stop : Place} {tokens : List Token}

theorem Items.filled (strict : item.Strict) (run : Items item separator closing start tokens stop) :
    start.rest.Filled := by
  obtain ⟨text, taken, on⟩ := run.strict strict
  exact on.filled taken

theorem Items.longer (list : SettledItems item separator closing ahead)
    (run : Items item separator closing start tokens stop) (here : ahead stop.rest) (more : Text) :
    Items item separator closing (start.extend more) tokens (stop.extend more) := by
  induction run with
  | last read closed =>
    -- What settles the item is the closing delimiter behind it.
    have read := list.settled _ _ _ read (.inr (Pattern.before_of_parse closed here)) more
    exact .last read (list.closes.2.parse closed here more)
  | more read _ parted others ih =>
    -- Here it is the separator, which also keeps the list from being closed.
    have filled := others.filled list.strict
    have read := list.settled _ _ _ read (.inl (Pattern.before_of_parse parted filled)) more
    have parted := list.parts.2.parse parted filled more
    exact .more read (list.excludes.parse_eq_none parted) parted (ih here)

theorem items_longer (list : SettledItems item separator closing ahead)
    (run : items item separator closing start = some (tokens, stop)) (here : ahead stop.rest) (more : Text) :
    items item separator closing (start.extend more) = some (tokens, stop.extend more) := by
  apply (items_iff list.strict.forward list.parts.1 list.closes.1).mpr
  exact (items_of_itemsWithin run).longer list here more

end Items

theorem list_settled (list : SettledItems item separator closing ahead) (opens : opening.Settled Text.Filled)
    {mayBeEmpty : Bool}
    (bars : mayBeEmpty = true → ∀ start found, item start = some found → closing.parse start = none)
    (kind : Kind) : (Parser.list kind opening item separator closing mayBeEmpty).Settled ahead := by
  intro start token stop read here more
  obtain ⟨before, first, tokens, opened, rfl, inner⟩ := list_iff.mp read
  rcases inner with ⟨mayBe, none, behind, closed⟩ | ⟨_, run⟩
  · have taken := Pattern.ne_nil_of_parse list.closes.1 closed
    have opened := opens.parse opened ((Pattern.parse_advances closed).filled taken) more
    have closed := list.closes.2.parse closed here more
    exact list_iff.mpr ⟨before, _, tokens, opened, rfl, .inl ⟨mayBe, none, behind, closed⟩⟩
  · have filled := (items_of_itemsWithin run).filled list.strict
    have opened := opens.parse opened filled more
    have run := items_longer list run here more
    -- A list that may be empty could be closed at once, but not where its first item is read.
    obtain ⟨_, _, one⟩ := first_of_items run
    exact list_iff.mpr ⟨before, _, tokens, opened, rfl, .inr ⟨fun mayBe => bars mayBe _ _ one, run⟩⟩

theorem enumeration_settled (list : SettledItems item separator closing ahead) {typeName : Pattern}
    (named : typeName.Settled (opening.Before Text.Filled)) (opens : opening.Settled Text.Filled) :
    (enumeration typeName opening item separator closing).Settled ahead := by
  intro start token stop read here more
  obtain ⟨text, after, gap, first, tokens, name, spelled, opened, run, decoded, rfl⟩ :=
    enumeration_iff.mp read
  have filled := (items_of_itemsWithin run).filled list.strict
  have spelled := named.parse spelled (Pattern.before_of_parse opened filled) more
  have opened := opens.parse opened filled more
  have run := items_longer list run here more
  exact enumeration_iff.mpr ⟨text, _, gap, _, tokens, name, spelled, opened, run, decoded, rfl⟩

theorem mapToken_settled (settled : item.Settled ahead) (change : Token → Token) :
    (mapToken change item).Settled ahead := by
  intro start token stop read here more
  obtain ⟨child, inner, rfl⟩ := mapToken_iff.mp read
  exact mapToken_iff.mpr ⟨child, settled _ _ _ inner here more, rfl⟩

end Parser

namespace Rule

variable {levels : Nat} {rule first second : Rule} {ahead : Text → Prop}

theorem Excludes.abstains (excludes : second.Excludes first) : first.Abstains second :=
  fun levels _ _ _ _ _ again _ => excludes levels _ _ again

theorem abstains_of_apart (steady : first.steady = true) (steadyToo : second.steady = true)
    (apart : UriChar.Apart second.leads first.leads) : first.Abstains second :=
  Excludes.abstains fun levels _ _ read => parse_eq_none_of_apart steadyToo steady apart read levels

theorem LeadsIn.bars {accepts other : UriChar → Bool} (leads : rule.LeadsIn accepts)
    (apart : UriChar.Apart accepts other) : rule.Bars (.char other) := by
  intro levels start found read
  obtain ⟨character, rest, same, lead⟩ := parse_begins levels leads.steady _ _ _ read
  rw [Pattern.parse_eq_none, same, Pattern.split_char_cons, apart character (leads.leads character lead)]
  rfl

theorem parse_settled_of_constructs
    (settled : ∀ construct ahead, (Construct.parse levels construct).Settled ahead)
    (steady : rule.steady = true) (parts : rule.Settled ahead) : (rule.parse levels).Settled ahead := by
  induction rule generalizing ahead with
  | lexeme kind meaning pattern => exact Parser.lexeme_settled parts kind meaning
  | enclosed kind opening inner closing ih =>
    simp only [Rule.steady, Bool.and_eq_true] at steady
    obtain ⟨opens, inside, closes⟩ := parts
    exact Parser.enclosed_settled (parse_strict levels steady.1.2) opens (ih steady.1.2 inside) closes kind
  | pair pairing opening first between second ihFirst ihSecond =>
    simp only [Rule.steady, Bool.and_eq_true] at steady
    obtain ⟨opens, one, separates, two⟩ := parts
    exact Parser.pair_settled (parse_strict levels steady.1.1.2) (parse_strict levels steady.2) opens
      (ihFirst steady.1.1.2 one) separates (ihSecond steady.2 two) pairing
  | list kind opening item separator closing mayBeEmpty ih =>
    have steady := steadyItems_of_list steady
    obtain ⟨opens, one, parted, closed, excludes, bars⟩ := parts
    exact Parser.list_settled ⟨parse_strict levels steady.inside, ih steady.inside one,
      ⟨steady.separates, parted⟩, ⟨steady.closes, closed⟩, excludes⟩ opens (fun mayBe => bars mayBe levels) kind
  | enumeration typeName opening member separator closing ih =>
    obtain ⟨_, steady⟩ := steadyItems_of_enumeration steady
    obtain ⟨named, opens, one, parted, closed, excludes⟩ := parts
    exact Parser.enumeration_settled ⟨parse_strict levels steady.inside, ih steady.inside one,
      ⟨steady.separates, parted⟩, ⟨steady.closes, closed⟩, excludes⟩ named opens
  | withType type rule ih => exact Parser.mapToken_settled (ih steady parts) (·.withType type)
  | withKind kind rule ih => exact Parser.mapToken_settled (ih steady parts) (·.withKind kind)
  | orElse first second ihFirst ihSecond =>
    simp only [Rule.steady, Bool.and_eq_true] at steady
    obtain ⟨one, two, abstains⟩ := parts
    intro start token stop read here more
    apply Option.or_eq_some_iff.mpr
    rcases Option.or_eq_some_iff.mp read with read | ⟨refused, read⟩
    · exact .inl (ihFirst steady.1 one _ _ _ read here more)
    · have again := ihSecond steady.2 two _ _ _ read here more
      exact .inr ⟨abstains _ _ _ _ _ read again refused, again⟩
  | never =>
    intro start token stop read
    cases read
  | construct named => exact settled named ahead

end Rule

end ODataLiteral
