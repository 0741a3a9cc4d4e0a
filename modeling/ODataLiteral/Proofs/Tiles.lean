import ODataLiteral.Proofs.Rule.Soundness

/-! Tokens that fill a span. From the start of a token over its children to its stop there is nothing beside
the children but delimiters, so no octet is left out and none belongs to two children. -/
namespace ODataLiteral

open Abnf (Derives)

/-- The octets from one offset on to another are derived from a grammar. -/
def Gap (source : Bytes) (grammar : Language UriChar) (start stop : Nat) : Prop :=
  start ≤ stop ∧ Derives grammar (source.slice start stop)

/-- What stands before the first child of a token, between two neighbours, and after the last one. -/
structure Delimiters where
  before : Language UriChar
  between : Language UriChar
  after : Language UriChar

namespace Token

variable (source : Bytes)

/-- Tokens from the offset where the first one starts to the offset where the last one stops. -/
inductive Row (between : Language UriChar) : Nat → List Token → Nat → Prop
  | last {token : Token} (forward : token.span.start < token.span.stop) :
      Row between token.span.start [token] token.span.stop
  | more {token : Token} {next stop : Nat} {tokens : List Token}
      (forward : token.span.start < token.span.stop) (gap : Gap source between token.span.stop next)
      (others : Row between next tokens stop) :
      Row between token.span.start (token :: tokens) stop

/-- A token that is made up of its children and the delimiters beside them. -/
def Tiled (delimiters : Delimiters) (token : Token) : Prop :=
  token.children = [] ∧
      Gap source (delimiters.before * delimiters.after) token.span.start token.span.stop ∨
    ∃ first last, Gap source delimiters.before token.span.start first ∧
      Row source delimiters.between first token.children last ∧
      Gap source delimiters.after last token.span.stop

variable {source} {between : Language UriChar} {first last : Nat} {tokens : List Token}

theorem Row.inside (row : Row source between first tokens last) :
    first ≤ last ∧ ∀ token ∈ tokens, first ≤ token.span.start ∧ token.span.stop ≤ last := by
  induction row with
  | last forward => simpa using Nat.le_of_lt forward
  | more forward gap others ih =>
    obtain ⟨further, below⟩ := ih
    have onward := gap.1
    refine ⟨by omega, List.forall_mem_cons.mpr ⟨⟨Nat.le_refl _, by omega⟩, fun token member => ?_⟩⟩
    obtain ⟨starts, stops⟩ := below token member
    exact ⟨by omega, stops⟩

theorem Row.ordered (row : Row source between first tokens last) :
    tokens.Pairwise fun one two => one.span.stop ≤ two.span.start := by
  induction row with
  | last _ => exact List.pairwise_singleton _ _
  | more _ gap others ih =>
    exact List.pairwise_cons.mpr ⟨fun token member =>
      Nat.le_trans gap.1 (others.inside.2 token member).1, ih⟩

theorem Tiled.ordered {delimiters : Delimiters} {token : Token} (tiled : token.Tiled source delimiters) :
    (∀ child ∈ token.children,
        token.span.start ≤ child.span.start ∧ child.span.stop ≤ token.span.stop) ∧
      token.children.Pairwise fun one two => one.span.stop ≤ two.span.start := by
  rcases tiled with ⟨none, _⟩ | ⟨first, last, opens, row, closes⟩
  · rw [none]
    exact ⟨nofun, .nil⟩
  · refine ⟨fun child member => ?_, row.ordered⟩
    obtain ⟨starts, stops⟩ := row.inside.2 child member
    exact ⟨Nat.le_trans opens.1 starts, Nat.le_trans stops closes.1⟩

end Token

section Spell

variable {source : Bytes} {before between after item : Language UriChar}

theorem Bytes.slice_append (source : Bytes) {start middle stop : Nat} (less : start ≤ middle)
    (lessToo : middle ≤ stop) :
    source.slice start middle ++ source.slice middle stop = source.slice start stop := by
  have front : source.take middle = (source.take stop).take middle := by
    rw [List.take_take, Nat.min_eq_left lessToo]
  rw [Bytes.slice, Bytes.slice, Bytes.slice, front]
  generalize source.take stop = octets
  rcases Nat.le_total middle octets.length with inside | past
  · have parts := List.take_append_drop middle octets
    conv_rhs => rw [← parts]
    rw [List.drop_append_of_le_length (by rw [List.length_take]; omega)]
  · rw [List.take_of_length_le past, List.drop_eq_nil_of_le past, List.append_nil]

theorem Gap.append {first second : Language UriChar} {start middle stop : Nat}
    (one : Gap source first start middle) (two : Gap source second middle stop) :
    Gap source (first * second) start stop := by
  refine ⟨Nat.le_trans one.1 two.1, ?_⟩
  rw [← Bytes.slice_append source one.1 two.1]
  exact one.2.append two.2

theorem Gap.mono {first second : Language UriChar} {start stop : Nat} (within : first ≤ second)
    (gap : Gap source first start stop) : Gap source second start stop :=
  ⟨gap.1, gap.2.mono within⟩

theorem Token.Row.spells {first last : Nat} {tokens : List Token}
    (row : Token.Row source between first tokens last)
    (every : ∀ token ∈ tokens, Derives item (token.octets source)) :
    Gap source (Abnf.row between item) first last := by
  induction row with
  | @last token forward =>
    have one : Gap source item token.span.start token.span.stop :=
      ⟨Nat.le_of_lt forward, every token List.mem_cons_self⟩
    exact one.mono (Abnf.item_le_row _ _)
  | @more token next stop tokens forward gap others ih =>
    obtain ⟨first, rest⟩ := List.forall_mem_cons.mp every
    have one : Gap source item token.span.start token.span.stop := ⟨Nat.le_of_lt forward, first⟩
    exact ((one.append gap).append (ih rest)).mono (Abnf.more_le_row _ _)

theorem Token.Tiled.spells {token : Token} (tiled : token.Tiled source ⟨before, between, after⟩)
    (every : ∀ child ∈ token.children, Derives item (child.octets source)) :
    token.children = [] ∧ Derives (before * after) (token.octets source) ∨
      Derives (before * Abnf.row between item * after) (token.octets source) := by
  rcases tiled with ⟨none, gap⟩ | ⟨first, last, opens, row, closes⟩
  · exact .inl ⟨none, gap.2⟩
  · exact .inr ((opens.append (row.spells every)).append closes).2

theorem Token.Tiled.spells_one {token child : Token} (tiled : token.Tiled source ⟨before, between, after⟩)
    (only : token.children = [child]) (inner : Derives item (child.octets source)) :
    Derives (before * item * after) (token.octets source) := by
  rcases tiled with ⟨none, _⟩ | ⟨first, last, opens, row, closes⟩
  · rw [only] at none
    cases none
  · rw [only] at row
    cases row with
    | last forward =>
      have one : Gap source item child.span.start child.span.stop := ⟨Nat.le_of_lt forward, inner⟩
      exact ((opens.append one).append closes).2
    | more _ _ others => cases others

theorem Token.Tiled.spells_two {token one two : Token} (tiled : token.Tiled source ⟨before, between, after⟩)
    (both : token.children = [one, two]) (left : Derives item (one.octets source))
    (right : Derives item (two.octets source)) :
    Derives (before * (item * between * item) * after) (token.octets source) := by
  rcases tiled with ⟨none, _⟩ | ⟨first, last, opens, row, closes⟩
  · rw [both] at none
    cases none
  · rw [both] at row
    cases row with
    | more forward gap others =>
      have start : Gap source item one.span.start one.span.stop := ⟨Nat.le_of_lt forward, left⟩
      cases others with
      | last forward =>
        have stop : Gap source item two.span.start two.span.stop := ⟨Nat.le_of_lt forward, right⟩
        exact ((opens.append ((start.append gap).append stop)).append closes).2
      | more _ _ others => cases others

end Spell

/-- Rules in which no bare percent sign is part of a delimiter or a text. -/
def Rule.clean : Rule → Bool
  | lexeme _ _ pattern => pattern.clean
  | enclosed _ opening inner closing => opening.clean && inner.clean && closing.clean
  | pair _ opening first between second =>
    opening.clean && first.clean && between.clean && second.clean
  | list _ opening item separator closing _ =>
    opening.clean && item.clean && separator.clean && closing.clean
  | enumeration typeName opening member separator closing =>
    typeName.clean && opening.clean && member.clean && separator.clean && closing.clean
  | withType _ rule | withKind _ rule => rule.clean
  | orElse first second => first.clean && second.clean
  | never | .construct _ => true

theorem Construct.clean_body (construct : Construct) : construct.body.clean = true := by
  cases construct <;> decide

section Gap

variable {source : Bytes} {start stop : Place} {text : Text}

theorem Place.Over.gap {grammar : Language UriChar} (inside : start.In source)
    (way : Place.Over grammar start stop) : Gap source grammar start.offset stop.offset := by
  refine ⟨?_, way.derives inside⟩
  obtain ⟨_, _, _, on⟩ := way
  exact on.offset ▸ Nat.le_add_right _ _

theorem Pattern.gap_of_parse {pattern : Pattern} (steady : pattern.steady = true)
    (clean : pattern.clean = true) (inside : start.In source)
    (read : pattern.parse start = some (text, stop)) :
    Gap source pattern.language start.offset stop.offset :=
  (Pattern.over_of_parse steady clean inside read).gap inside

theorem Rule.forward_of_parse {levels : Nat} {rule : Rule} {token : Token} (steady : rule.steady = true)
    (read : rule.parse levels start = some (token, stop)) :
    token.span.start < token.span.stop := by
  obtain ⟨text, filled, on⟩ := Rule.parse_strict levels steady _ _ _ read
  have long := Text.width_pos_of_ne_nil filled
  rw [Rule.parse_spans levels rule _ _ _ read]
  show start.offset < stop.offset
  rw [on.offset]
  omega

end Gap

namespace Parser

/-- A parser whose tokens have a shape when it reads at the places of a source. -/
def Shows (source : Bytes) (shape : Token → Prop) (parser : Parser) : Prop :=
  ∀ start token stop, start.In source → parser start = some (token, stop) → shape token

variable {source : Bytes} {shape other : Token → Prop} {one two : Parser}

theorem Shows.mono (shows : one.Shows source shape) (has : ∀ token, shape token → other token) :
    one.Shows source other :=
  fun start token stop inside read => has token (shows start token stop inside read)

theorem Shows.or (shows : one.Shows source shape) (showsToo : two.Shows source shape) :
    Shows source shape fun start => (one start).or (two start) := by
  intro start token stop inside read
  rcases Option.or_eq_some_iff.mp read with read | ⟨_, read⟩
  · exact shows _ _ _ inside read
  · exact showsToo _ _ _ inside read

end Parser

theorem Pairing.children_value (pairing : Pairing) (one two : Token) :
    (pairing.value one two).children = [one, two] := by
  cases pairing <;> rfl

namespace Rule

variable {source : Bytes} {levels : Nat} {item first second : Rule} {shape other : Token → Prop}
  {opening between separator closing : Pattern}

theorem lexeme_shows {kind : Kind} {meaning : Meaning} {pattern : Pattern}
    (steady : pattern.steady = true) (clean : pattern.clean = true) :
    ((lexeme kind meaning pattern).parse levels).Shows source fun token =>
      token.kind = kind ∧ Derives pattern.language (token.octets source) ∧
        ∃ text, meaning.value? text = some token.value := by
  intro start token stop inside read
  obtain ⟨text, value, taken, known, rfl⟩ := Parser.lexeme_iff.mp read
  have way := Pattern.over_of_parse steady clean inside taken
  exact ⟨rfl, way.octets inside read, text, known⟩

theorem enclosed_shows (shows : (item.parse levels).Shows source shape) {kind : Kind}
    (steady : (enclosed kind opening item closing).steady = true)
    (clean : (enclosed kind opening item closing).clean = true) :
    ((enclosed kind opening item closing).parse levels).Shows source fun token =>
      token.kind = kind ∧ ∃ child, token.value = .nested child ∧
        token.Tiled source ⟨opening.language, 0, closing.language⟩ ∧ shape child := by
  simp only [Rule.steady, Rule.clean, Bool.and_eq_true] at steady clean
  intro start token stop inside read
  obtain ⟨_, left, child, right, _, opened, one, closed, rfl⟩ := Parser.enclosed_iff.mp read
  have atChild := inside.advances (Pattern.parse_advances opened)
  obtain ⟨_, on⟩ := Rule.parse_forward levels item _ _ _ one
  have before := Pattern.gap_of_parse steady.1.1 clean.1.1 inside opened
  have after := Pattern.gap_of_parse steady.2 clean.2 (atChild.advances on) closed
  have row : Token.Row source 0 child.span.start [child] child.span.stop :=
    .last (Rule.forward_of_parse steady.1.2 one)
  rw [Rule.parse_spans levels item _ _ _ one] at row
  exact ⟨rfl, child, rfl, .inr ⟨_, _, before, row, after⟩, shows _ _ _ atChild one⟩

theorem pair_shows (shows : (first.parse levels).Shows source shape)
    (showsToo : (second.parse levels).Shows source other) {pairing : Pairing}
    (steady : (pair pairing opening first between second).steady = true)
    (clean : (pair pairing opening first between second).clean = true) :
    ((pair pairing opening first between second).parse levels).Shows source fun token =>
      token.kind = pairing.kind ∧ ∃ one two, token.value = pairing.value one two ∧
        token.Tiled source ⟨opening.language, between.language, 1⟩ ∧ shape one ∧ other two := by
  simp only [Rule.steady, Rule.clean, Bool.and_eq_true] at steady clean
  obtain ⟨⟨⟨steadyOpening, steadyFirst⟩, steadyBetween⟩, steadySecond⟩ := steady
  intro start token stop inside read
  obtain ⟨_, left, one, middle, _, right, two, opened, readOne, separated, readTwo, rfl⟩ :=
    Parser.pair_iff.mp read
  have atOne := inside.advances (Pattern.parse_advances opened)
  obtain ⟨_, on⟩ := Rule.parse_forward levels first _ _ _ readOne
  have afterOne := atOne.advances on
  have atTwo := afterOne.advances (Pattern.parse_advances separated)
  have before := Pattern.gap_of_parse steadyOpening clean.1.1.1 inside opened
  have gap := Pattern.gap_of_parse steadyBetween clean.1.2 afterOne separated
  have spanOne := Rule.parse_spans levels first _ _ _ readOne
  have spanTwo := Rule.parse_spans levels second _ _ _ readTwo
  have last : Token.Row source between.language two.span.start [two] two.span.stop :=
    .last (Rule.forward_of_parse steadySecond readTwo)
  have row : Token.Row source between.language one.span.start [one, two] two.span.stop := by
    refine .more (Rule.forward_of_parse steadyFirst readOne) ?_ last
    rw [spanOne, spanTwo]
    exact gap
  rw [spanOne, spanTwo] at row
  have nothing : Gap source 1 stop.offset stop.offset := by
    refine ⟨Nat.le_refl _, [], Language.nil_mem_one, List.forall_mem_nil _, ?_⟩
    rw [Bytes.slice, List.drop_eq_nil_of_le (by rw [List.length_take]; omega)]
    rfl
  refine ⟨rfl, one, two, rfl, .inr ⟨_, _, before, ?_, nothing⟩, shows _ _ _ atOne readOne,
    showsToo _ _ _ atTwo readTwo⟩
  rwa [Token.children, Pairing.children_value]

section Items

variable {start stop : Place} {tokens : List Token}

theorem row_of_items (steadyItem : item.steady = true) (steady : separator.steady = true)
    (clean : separator.clean = true) (inside : start.In source)
    (run : Parser.Items (item.parse levels) separator closing start tokens stop) :
    ∃ last text, Token.Row source separator.language start.offset tokens last.offset ∧
      last.In source ∧ closing.parse last = some (text, stop) := by
  induction run with
  | @last start after stop token text read closed =>
    obtain ⟨_, on⟩ := Rule.parse_forward levels item _ _ _ read
    have row : Token.Row source separator.language token.span.start [token] token.span.stop :=
      .last (Rule.forward_of_parse steadyItem read)
    rw [Rule.parse_spans levels item _ _ _ read] at row
    exact ⟨after, text, row, inside.advances on, closed⟩
  | @more start after next stop token tokens gap read goesOn separated others ih =>
    obtain ⟨_, on⟩ := Rule.parse_forward levels item _ _ _ read
    have atGap := inside.advances on
    obtain ⟨last, text, row, atLast, closed⟩ :=
      ih (atGap.advances (Pattern.parse_advances separated))
    have span := Rule.parse_spans levels item _ _ _ read
    have between : Gap source separator.language token.span.stop next.offset := by
      rw [span]
      exact Pattern.gap_of_parse steady clean atGap separated
    have whole := Token.Row.more (Rule.forward_of_parse steadyItem read) between row
    rw [span] at whole
    exact ⟨last, text, whole, atLast, closed⟩

theorem forall_of_items (shows : (item.parse levels).Shows source shape) (inside : start.In source)
    (run : Parser.Items (item.parse levels) separator closing start tokens stop) :
    ∀ token ∈ tokens, shape token := by
  induction run with
  | last read _ => simpa using shows _ _ _ inside read
  | more read _ separated _ ih =>
    obtain ⟨_, on⟩ := Rule.parse_forward levels item _ _ _ read
    have onward := (inside.advances on).advances (Pattern.parse_advances separated)
    exact List.forall_mem_cons.mpr ⟨shows _ _ _ inside read, ih onward⟩

theorem ne_nil_of_items (run : Parser.Items (item.parse levels) separator closing start tokens stop) :
    tokens ≠ [] := by
  cases run <;> exact List.cons_ne_nil _ _

end Items

theorem list_shows (shows : (item.parse levels).Shows source shape) {kind : Kind} {mayBeEmpty : Bool}
    (steady : (list kind opening item separator closing mayBeEmpty).steady = true)
    (clean : (list kind opening item separator closing mayBeEmpty).clean = true) :
    ((list kind opening item separator closing mayBeEmpty).parse levels).Shows source fun token =>
      token.kind = kind ∧ ∃ tokens, token.value = .items tokens ∧
        token.Tiled source ⟨opening.language, separator.language, closing.language⟩ ∧
        (tokens = [] → mayBeEmpty = true) ∧ ∀ child ∈ tokens, shape child := by
  have steady := steadyItems_of_list steady
  simp only [Rule.clean, Bool.and_eq_true] at clean
  intro start token stop inside read
  obtain ⟨_, left, tokens, opened, rfl, ⟨may, rfl, _, closed⟩ | ⟨_, items⟩⟩ := Parser.list_iff.mp read
  · have before := Pattern.over_of_parse steady.opens clean.1.1.1 inside opened
    have after := Pattern.over_of_parse steady.ends clean.2 (inside.across before) closed
    exact ⟨rfl, [], rfl, .inl ⟨rfl, (before.trans after).gap inside⟩, fun _ => may, List.forall_mem_nil _⟩
  · have run := Parser.items_of_itemsWithin items
    have atItems := inside.advances (Pattern.parse_advances opened)
    have before := Pattern.gap_of_parse steady.opens clean.1.1.1 inside opened
    obtain ⟨last, _, row, atLast, closed⟩ := row_of_items steady.inside steady.parts clean.1.2 atItems run
    have after := Pattern.gap_of_parse steady.ends clean.2 atLast closed
    exact ⟨rfl, tokens, rfl, .inr ⟨_, _, before, row, after⟩,
      fun none => absurd none (ne_nil_of_items run), forall_of_items shows atItems run⟩

theorem enumeration_shows {typeName : Pattern} (shows : (item.parse levels).Shows source shape)
    (steady : (enumeration typeName opening item separator closing).steady = true)
    (clean : (enumeration typeName opening item separator closing).clean = true) :
    ((enumeration typeName opening item separator closing).parse levels).Shows source fun token =>
      token.kind = .enumeration ∧ ∃ name members, token.value = .enumeration name members ∧
        token.Tiled source ⟨typeName.language * opening.language, separator.language,
          closing.language⟩ ∧ ∀ child ∈ members, shape child := by
  obtain ⟨steadyName, steady⟩ := steadyItems_of_enumeration steady
  simp only [Rule.clean, Bool.and_eq_true] at clean
  intro start token stop inside read
  obtain ⟨_, after, _, left, members, name, named, opened, items, _, rfl⟩ := Parser.enumeration_iff.mp read
  have run := Parser.items_of_itemsWithin items
  have one := Pattern.over_of_parse steadyName clean.1.1.1.1 inside named
  have two := Pattern.over_of_parse steady.opens clean.1.1.1.2 (inside.across one) opened
  have atItems := (inside.across one).across two
  obtain ⟨last, _, row, atLast, closed⟩ := row_of_items steady.inside steady.parts clean.1.2 atItems run
  have ends := Pattern.gap_of_parse steady.ends clean.2 atLast closed
  exact ⟨rfl, name, members, rfl, .inr ⟨_, _, (one.trans two).gap inside, row, ends⟩,
    forall_of_items shows atItems run⟩

end Rule

end ODataLiteral
