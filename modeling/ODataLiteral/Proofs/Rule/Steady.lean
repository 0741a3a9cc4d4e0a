import ODataLiteral.Proofs.Rule.Steps

/-! Rules whose patterns go forward. Such a rule takes at least one character, so what is left of a text bounds
how many constructs can still be opened in it, and more levels than that change nothing. -/
namespace ODataLiteral

/-- Rules that take at least one character, in which every repetition and every list goes forward. -/
def Rule.steady : Rule → Bool
  | lexeme _ _ pattern => pattern.steady && !pattern.nullable
  | enclosed _ opening inner closing => opening.steady && inner.steady && closing.steady
  | pair _ opening first between second =>
    opening.steady && first.steady && between.steady && second.steady
  | list _ opening item separator closing _ =>
    opening.steady && item.steady && separator.steady && !separator.nullable &&
      closing.steady && !closing.nullable
  | enumeration typeName opening member separator closing =>
    typeName.steady && opening.steady && member.steady && separator.steady &&
      !separator.nullable && closing.steady && !closing.nullable
  | withType _ rule | withKind _ rule => rule.steady
  | orElse first second => first.steady && second.steady
  | never | .construct _ => true

/-- The parts of a steady list. All of them are steady, and its separator and its closing delimiter take something. -/
structure Rule.SteadyItems (opening : Pattern) (item : Rule) (separator closing : Pattern) : Prop where
  opens : opening.steady = true
  inside : item.steady = true
  parts : separator.steady = true
  separates : separator.nullable = false
  ends : closing.steady = true
  closes : closing.nullable = false

section Items

variable {kind : Kind} {opening separator closing : Pattern} {item : Rule}

theorem Rule.steadyItems_of_list {mayBeEmpty : Bool}
    (steady : (list kind opening item separator closing mayBeEmpty).steady = true) :
    SteadyItems opening item separator closing := by
  simp only [Rule.steady, Bool.and_eq_true, Bool.not_eq_true'] at steady
  obtain ⟨⟨⟨⟨⟨opens, inside⟩, parts⟩, separates⟩, ends⟩, closes⟩ := steady
  exact ⟨opens, inside, parts, separates, ends, closes⟩

theorem Rule.steadyItems_of_enumeration {typeName : Pattern}
    (steady : (enumeration typeName opening item separator closing).steady = true) :
    typeName.steady = true ∧ SteadyItems opening item separator closing := by
  simp only [Rule.steady, Bool.and_eq_true, Bool.not_eq_true'] at steady
  obtain ⟨⟨⟨⟨⟨⟨named, opens⟩, inside⟩, parts⟩, separates⟩, ends⟩, closes⟩ := steady
  exact ⟨named, opens, inside, parts, separates, ends, closes⟩

end Items

namespace Parser

/-- A parser that takes at least one character. -/
def Strict (parser : Parser) : Prop :=
  ∀ start token stop, parser start = some (token, stop) →
    ∃ text, text ≠ [] ∧ start.Advances text stop

theorem Strict.forward {parser : Parser} (strict : parser.Strict) : parser.Forward := by
  intro start token stop read
  obtain ⟨text, _, on⟩ := strict _ _ _ read
  exact ⟨text, on⟩

theorem Strict.length_lt {parser : Parser} (strict : parser.Strict) {start stop : Place}
    {token : Token} (read : parser start = some (token, stop)) :
    stop.rest.length < start.rest.length := by
  obtain ⟨text, filled, on⟩ := strict _ _ _ read
  exact on.length_lt filled

theorem Strict.eq_none {parser : Parser} (strict : parser.Strict) {start : Place}
    (empty : start.rest = []) : parser start = none := by
  cases read : parser start with
  | none => rfl
  | some found =>
    have shorter := strict.length_lt read
    simp [empty] at shorter

theorem Strict.itemsWithin_eq_none {item : Parser} {separator closing : Pattern} (strict : item.Strict)
    {rounds : Text} {start : Place} (empty : start.rest = []) :
    itemsWithin item separator closing rounds start = none := by
  cases rounds with
  | nil => rfl
  | cons _ rounds =>
    unfold itemsWithin
    rw [strict.eq_none empty]
    rfl

theorem Items.strict {item : Parser} {separator closing : Pattern} (strict : item.Strict)
    {start stop : Place} {tokens : List Token}
    (run : Items item separator closing start tokens stop) :
    ∃ text, text ≠ [] ∧ start.Advances text stop := by
  cases run with
  | last read closed =>
    obtain ⟨taken, filled, on⟩ := strict _ _ _ read
    exact ⟨_, List.append_ne_nil_of_left_ne_nil filled _, on.trans (Pattern.parse_advances closed)⟩
  | more read _ between others =>
    obtain ⟨taken, filled, on⟩ := strict _ _ _ read
    obtain ⟨text, onward⟩ := others.advances strict.forward
    exact ⟨_, List.append_ne_nil_of_left_ne_nil filled _,
      on.trans ((Pattern.parse_advances between).trans onward)⟩

end Parser

theorem Rule.parseWith_strict {construct : Construct → Parser}
    (strict : ∀ named, (construct named).Strict) (rule : Rule) (steady : rule.steady = true) :
    (rule.parseWith construct).Strict := by
  induction rule with
  | lexeme kind meaning pattern =>
    intro start token stop read
    simp only [Rule.steady, Bool.and_eq_true, Bool.not_eq_true'] at steady
    obtain ⟨text, value, read, _, _⟩ := Parser.lexeme_iff.mp read
    exact ⟨text, Pattern.ne_nil_of_parse steady.2 read, Pattern.parse_advances read⟩
  | enclosed kind opening inner closing ih =>
    intro start token stop read
    simp only [Rule.steady, Bool.and_eq_true] at steady
    obtain ⟨_, _, _, _, _, opened, read, closed, _⟩ := Parser.enclosed_iff.mp read
    obtain ⟨text, filled, on⟩ := ih steady.1.2 _ _ _ read
    exact ⟨_, List.append_ne_nil_of_left_ne_nil (List.append_ne_nil_of_right_ne_nil _ filled) _,
      ((Pattern.parse_advances opened).trans on).trans (Pattern.parse_advances closed)⟩
  | pair pairing opening first between second ihFirst ihSecond =>
    intro start token stop read
    simp only [Rule.steady, Bool.and_eq_true] at steady
    obtain ⟨_, _, _, _, _, _, _, opened, one, middle, two, _⟩ := Parser.pair_iff.mp read
    obtain ⟨_, onFirst⟩ := (ihFirst steady.1.1.2).forward _ _ _ one
    obtain ⟨text, filled, onSecond⟩ := ihSecond steady.2 _ _ _ two
    exact ⟨_, List.append_ne_nil_of_right_ne_nil _ filled,
      (((Pattern.parse_advances opened).trans onFirst).trans
        (Pattern.parse_advances middle)).trans onSecond⟩
  | list kind opening item separator closing mayBeEmpty ih =>
    intro start token stop read
    have steady := steadyItems_of_list steady
    obtain ⟨_, _, _, opened, _, ⟨_, _, _, closed⟩ | ⟨_, run⟩⟩ := Parser.list_iff.mp read
    · exact ⟨_, List.append_ne_nil_of_right_ne_nil _ (Pattern.ne_nil_of_parse steady.closes closed),
        (Pattern.parse_advances opened).trans (Pattern.parse_advances closed)⟩
    · obtain ⟨text, filled, on⟩ := (Parser.items_of_itemsWithin run).strict (ih steady.inside)
      exact ⟨_, List.append_ne_nil_of_right_ne_nil _ filled,
        (Pattern.parse_advances opened).trans on⟩
  | enumeration typeName opening member separator closing ih =>
    intro start token stop read
    obtain ⟨_, steady⟩ := steadyItems_of_enumeration steady
    obtain ⟨_, _, _, _, _, _, named, opened, run, _, _⟩ := Parser.enumeration_iff.mp read
    obtain ⟨text, filled, on⟩ := (Parser.items_of_itemsWithin run).strict (ih steady.inside)
    exact ⟨_, List.append_ne_nil_of_right_ne_nil _ filled,
      ((Pattern.parse_advances named).trans (Pattern.parse_advances opened)).trans on⟩
  | withType _ rule ih | withKind _ rule ih =>
    intro start token stop read
    obtain ⟨_, read, _⟩ := Parser.mapToken_iff.mp read
    exact ih steady _ _ _ read
  | orElse first second ihFirst ihSecond =>
    intro start token stop read
    simp only [Rule.steady, Bool.and_eq_true] at steady
    simp only [parseWith, Option.or_eq_some_iff] at read
    rcases read with one | ⟨_, two⟩
    · exact ihFirst steady.1 _ _ _ one
    · exact ihSecond steady.2 _ _ _ two
  | never =>
    intro start token stop read
    cases read
  | construct named => exact strict named

theorem Construct.steady_body (construct : Construct) : construct.body.steady = true := by
  cases construct <;> decide

theorem Construct.parse_strict (levels : Nat) (construct : Construct) :
    (construct.parse levels).Strict := by
  induction levels generalizing construct with
  | zero =>
    intro start token stop read
    cases read
  | succ levels ih => exact Rule.parseWith_strict ih _ construct.steady_body

theorem Rule.parse_strict (levels : Nat) {rule : Rule} (steady : rule.steady = true) :
    (rule.parse levels).Strict :=
  Rule.parseWith_strict (Construct.parse_strict levels) rule steady

namespace Parser

/-- Two parsers that read the same wherever no more text is left than at a place. -/
def SameFrom (start : Place) (one two : Parser) : Prop :=
  ∀ place : Place, place.rest.length ≤ start.rest.length → one place = two place

variable {start next : Place} {item item' first first' second second' : Parser}
  {opening between separator closing : Pattern} {text : Text}

theorem SameFrom.mono (same : SameFrom start item item') (fewer : next.rest.length ≤ start.rest.length) :
    SameFrom next item item' :=
  fun place shorter => same place (Nat.le_trans shorter fewer)

theorem SameFrom.onward (same : SameFrom start item item') (on : start.Advances text next) :
    SameFrom next item item' :=
  same.mono on.length_le

theorem SameFrom.behind (same : SameFrom start item item') (read : between.parse start = some (text, next)) :
    SameFrom next item item' :=
  same.onward (Pattern.parse_advances read)

theorem SameFrom.here (same : SameFrom start item item') : item start = item' start :=
  same start (Nat.le_refl _)

theorem enclosed_congr (same : SameFrom start item item') (kind : Kind) :
    enclosed kind opening item closing start = enclosed kind opening item' closing start := by
  unfold enclosed
  apply Option.bind_congr
  rintro ⟨_, left⟩ opened
  dsimp only
  rw [(same.behind opened).here]

theorem pair_congr (forward : first.Forward) (same : SameFrom start first first')
    (sameToo : SameFrom start second second') (pairing : Pairing) :
    pair pairing opening first between second start = pair pairing opening first' between second' start := by
  unfold pair
  apply Option.bind_congr
  rintro ⟨_, left⟩ opened
  dsimp only
  rw [← (same.behind opened).here]
  apply Option.bind_congr
  rintro ⟨one, after⟩ read
  apply Option.bind_congr
  rintro ⟨_, right⟩ parted
  obtain ⟨_, on⟩ := forward _ _ _ read
  dsimp only
  rw [(((sameToo.behind opened).onward on).behind parted).here]

theorem itemsWithin_congr (forward : item.Forward) (same : SameFrom start item item') (budget : Text) :
    itemsWithin item separator closing budget start = itemsWithin item' separator closing budget start := by
  induction budget generalizing start with
  | nil => rfl
  | cons _ budget ih =>
    unfold itemsWithin
    rw [← same.here]
    apply Option.bind_congr
    rintro ⟨token, after⟩ read
    obtain ⟨_, on⟩ := forward _ _ _ read
    dsimp only
    cases closing.parse after with
    | some closed => rfl
    | none =>
      apply Option.bind_congr
      rintro ⟨_, next⟩ parted
      dsimp only
      rw [ih ((same.onward on).behind parted)]

theorem list_congr (forward : item.Forward) {kind : Kind} {mayBeEmpty : Bool}
    (same : ∀ before first, opening.parse start = some (before, first) → SameFrom first item item') :
    list kind opening item separator closing mayBeEmpty start =
      list kind opening item' separator closing mayBeEmpty start := by
  unfold list
  apply Option.bind_congr
  rintro ⟨_, first⟩ opened
  dsimp only [items]
  rw [itemsWithin_congr forward (same _ _ opened)]

theorem enumeration_congr {typeName : Pattern} (forward : item.Forward) (same : SameFrom start item item') :
    enumeration typeName opening item separator closing start =
      enumeration typeName opening item' separator closing start := by
  unfold enumeration
  apply Option.bind_congr
  rintro ⟨_, after⟩ named
  apply Option.bind_congr
  rintro ⟨_, first⟩ opened
  dsimp only [items]
  rw [itemsWithin_congr forward ((same.behind named).behind opened)]

end Parser

/-- A rule depends on the constructs only at the places that it gets to. -/
theorem Rule.parseWith_congr {first second : Construct → Parser}
    (forward : ∀ named, (first named).Forward) (rule : Rule) {start : Place}
    (same : ∀ named, Parser.SameFrom start (first named) (second named)) :
    Parser.SameFrom start (rule.parseWith first) (rule.parseWith second) := by
  intro place shorter
  induction rule generalizing place with
  | lexeme kind meaning pattern => rfl
  | enclosed kind opening inner closing ih =>
    exact Parser.enclosed_congr (Parser.SameFrom.mono ih shorter) kind
  | pair pairing opening left between right ihLeft ihRight =>
    exact Parser.pair_congr (Rule.parseWith_forward forward left) (Parser.SameFrom.mono ihLeft shorter)
      (Parser.SameFrom.mono ihRight shorter) pairing
  | list kind opening item separator closing mayBeEmpty ih =>
    apply Parser.list_congr (Rule.parseWith_forward forward item)
    intro before next opened
    exact (Parser.SameFrom.mono ih shorter).behind opened
  | enumeration typeName opening member separator closing ih =>
    exact Parser.enumeration_congr (Rule.parseWith_forward forward member) (Parser.SameFrom.mono ih shorter)
  | withType type rule ih => simp only [parseWith, Parser.mapToken, ih place shorter]
  | withKind kind rule ih => simp only [parseWith, Parser.mapToken, ih place shorter]
  | orElse one two ihOne ihTwo => simp only [parseWith, ihOne place shorter, ihTwo place shorter]
  | never => rfl
  | construct named => exact same named place shorter

/-- A construct is a list, and its opening delimiter takes a character. -/
theorem Construct.body_eq_list (construct : Construct) :
    ∃ kind opening item separator closing mayBeEmpty, opening.nullable = false ∧
      construct.body = .list kind opening item separator closing mayBeEmpty := by
  cases construct with
  | object => exact ⟨_, _, _, _, _, _, by decide, rfl⟩
  | collection => exact ⟨_, _, _, _, _, _, by decide, rfl⟩

theorem Construct.list_of_parse {levels : Nat} {construct : Construct} {start stop : Place} {token : Token}
    (read : construct.parse levels start = some (token, stop)) :
    ∃ kind opening item separator closing mayBeEmpty inner, opening.nullable = false ∧
      construct.body = .list kind opening item separator closing mayBeEmpty ∧
      (Rule.list kind opening item separator closing mayBeEmpty).parse inner start = some (token, stop) := by
  cases levels with
  | zero => cases read
  | succ inner =>
    obtain ⟨kind, opening, item, separator, closing, mayBeEmpty, filled, same⟩ := construct.body_eq_list
    have body : construct.body.parse inner start = some (token, stop) := read
    exact ⟨kind, opening, item, separator, closing, mayBeEmpty, inner, filled, same, same ▸ body⟩

/-- As many levels as there are characters are enough: each construct takes one before it opens another. -/
theorem Construct.parse_enough {fewer more : Nat} {start : Place} (construct : Construct)
    (enough : start.rest.length ≤ fewer) (enoughToo : start.rest.length ≤ more) :
    construct.parse fewer start = construct.parse more start := by
  induction fewer generalizing more start construct with
  | zero =>
    have empty : start.rest = [] := List.eq_nil_of_length_eq_zero (Nat.le_zero.mp enough)
    rw [(Construct.parse_strict _ _).eq_none empty, (Construct.parse_strict _ _).eq_none empty]
  | succ fewer ih =>
    cases more with
    | zero =>
      have empty : start.rest = [] := List.eq_nil_of_length_eq_zero (Nat.le_zero.mp enoughToo)
      rw [(Construct.parse_strict _ _).eq_none empty, (Construct.parse_strict _ _).eq_none empty]
    | succ more =>
      obtain ⟨kind, opening, item, separator, closing, mayBeEmpty, filled, same⟩ :=
        construct.body_eq_list
      simp only [Construct.parse, same, Rule.parseWith]
      apply Parser.list_congr (Rule.parse_forward fewer item)
      intro before first opened
      have taken := (Pattern.parse_advances opened).length_lt (Pattern.ne_nil_of_parse filled opened)
      apply Rule.parseWith_congr (Construct.parse_forward fewer) item
      intro named place shorter
      exact ih named (by omega) (by omega)

theorem Rule.parse_enough {fewer more : Nat} {start : Place} (rule : Rule)
    (enough : start.rest.length ≤ fewer) (enoughToo : start.rest.length ≤ more) :
    rule.parse fewer start = rule.parse more start := by
  have constructs (named : Construct) : Parser.SameFrom start (named.parse fewer) (named.parse more) :=
    fun _ shorter => named.parse_enough (Nat.le_trans shorter enough) (Nat.le_trans shorter enoughToo)
  exact (Rule.parseWith_congr (Construct.parse_forward fewer) rule constructs).here

end ODataLiteral
