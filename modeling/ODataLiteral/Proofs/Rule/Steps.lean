import ODataLiteral.Proofs.Rule.Parse

/-! What a successful reading says of its parts, rule by rule, and that reading goes forward. -/
namespace ODataLiteral

namespace Place

theorem Advances.refl (place : Place) : place.Advances [] place :=
  ⟨rfl, rfl⟩

theorem Advances.trans {start middle stop : Place} {first second : Text}
    (one : start.Advances first middle) (two : middle.Advances second stop) :
    start.Advances (first ++ second) stop where
  rest := by rw [one.rest, two.rest, List.append_assoc]
  offset := by rw [two.offset, one.offset, Text.width_append, Nat.add_assoc]

theorem Advances.length_le {start stop : Place} {text : Text} (on : start.Advances text stop) :
    stop.rest.length ≤ start.rest.length := by
  rw [on.rest, List.length_append]
  exact Nat.le_add_left _ _

theorem Advances.length_lt {start stop : Place} {text : Text} (on : start.Advances text stop)
    (filled : text ≠ []) : stop.rest.length < start.rest.length := by
  have long := List.length_pos_iff.mpr filled
  rw [on.rest, List.length_append]
  omega

end Place

theorem Pattern.parse_iff {pattern : Pattern} {start stop : Place} {text : Text} :
    pattern.parse start = some (text, stop) ↔
      pattern.split start.rest = some (text, stop.rest) ∧ stop.offset = start.offset + text.width := by
  simp only [Pattern.parse, Option.map_eq_some_iff]
  constructor
  · rintro ⟨⟨taken, rest⟩, read, same⟩
    cases same
    exact ⟨read, rfl⟩
  · rintro ⟨read, offset⟩
    refine ⟨(text, stop.rest), read, ?_⟩
    dsimp only
    rw [← offset]

theorem Pattern.parse_eq_none {pattern : Pattern} {start : Place} :
    pattern.parse start = none ↔ pattern.split start.rest = none := by
  simp only [Pattern.parse, Option.map_eq_none_iff]

theorem Pattern.parse_advances {pattern : Pattern} {start stop : Place} {text : Text}
    (read : pattern.parse start = some (text, stop)) : start.Advances text stop :=
  have parts := Pattern.parse_iff.mp read
  ⟨Pattern.split_append parts.1, parts.2⟩

theorem Pattern.ne_nil_of_parse {pattern : Pattern} {start stop : Place} {text : Text}
    (filled : pattern.nullable = false) (read : pattern.parse start = some (text, stop)) :
    text ≠ [] :=
  Pattern.ne_nil_of_split filled (Pattern.parse_iff.mp read).1

namespace Parser

variable {start stop : Place} {token : Token} {tokens : List Token}

/-- A parser that goes forward in its text. -/
def Forward (parser : Parser) : Prop :=
  ∀ start token stop, parser start = some (token, stop) → ∃ text, start.Advances text stop

theorem lexeme_iff {kind : Kind} {meaning : Meaning} {pattern : Pattern} :
    lexeme kind meaning pattern start = some (token, stop) ↔
      ∃ text value, pattern.parse start = some (text, stop) ∧ meaning.value? text = some value ∧
        token = { kind, span := { start := start.offset, stop := stop.offset }, value } := by
  simp only [lexeme, close, Option.bind_eq_bind, Option.bind_eq_some_iff, Option.some.injEq,
    Prod.mk.injEq, Prod.exists]
  constructor
  · rintro ⟨text, after, read, value, means, rfl, rfl⟩
    exact ⟨text, value, read, means, rfl⟩
  · rintro ⟨text, value, read, means, rfl⟩
    exact ⟨text, stop, read, value, means, rfl, rfl⟩

theorem enclosed_iff {kind : Kind} {opening closing : Pattern} {inner : Parser} :
    enclosed kind opening inner closing start = some (token, stop) ↔
      ∃ before first child after behind, opening.parse start = some (before, first) ∧
        inner first = some (child, after) ∧ closing.parse after = some (behind, stop) ∧
        token = { kind, span := { start := start.offset, stop := stop.offset },
                  value := .nested child } := by
  simp only [enclosed, close, Option.bind_eq_bind, Option.bind_eq_some_iff, Option.some.injEq,
    Prod.mk.injEq, Prod.exists]
  constructor
  · rintro ⟨before, first, opened, child, after, read, behind, last, closed, rfl, rfl⟩
    exact ⟨before, first, child, after, behind, opened, read, closed, rfl⟩
  · rintro ⟨before, first, child, after, behind, opened, read, closed, rfl⟩
    exact ⟨before, first, opened, child, after, read, behind, stop, closed, rfl, rfl⟩

theorem pair_iff {pairing : Pairing} {opening between : Pattern} {first second : Parser} :
    pair pairing opening first between second start = some (token, stop) ↔
      ∃ before left one middle gap right two, opening.parse start = some (before, left) ∧
        first left = some (one, middle) ∧ between.parse middle = some (gap, right) ∧
        second right = some (two, stop) ∧
        token = { kind := pairing.kind, span := { start := start.offset, stop := stop.offset },
                  value := pairing.value one two } := by
  simp only [pair, close, Option.bind_eq_bind, Option.bind_eq_some_iff, Option.some.injEq,
    Prod.mk.injEq, Prod.exists]
  constructor
  · rintro ⟨before, left, opened, one, middle, readOne, gap, right, between, two, last, readTwo,
      rfl, rfl⟩
    exact ⟨before, left, one, middle, gap, right, two, opened, readOne, between, readTwo, rfl⟩
  · rintro ⟨before, left, one, middle, gap, right, two, opened, readOne, between, readTwo, rfl⟩
    exact ⟨before, left, opened, one, middle, readOne, gap, right, between, two, stop, readTwo,
      rfl, rfl⟩

theorem mapToken_iff {change : Token → Token} {parser : Parser} :
    mapToken change parser start = some (token, stop) ↔
      ∃ child, parser start = some (child, stop) ∧ token = change child := by
  simp only [mapToken, Option.map_eq_some_iff, Prod.exists, Prod.mk.injEq]
  constructor
  · rintro ⟨child, last, read, rfl, rfl⟩
    exact ⟨child, read, rfl⟩
  · rintro ⟨child, read, rfl⟩
    exact ⟨child, stop, read, rfl, rfl⟩

/-- Items with a separator between two neighbours and a closing delimiter after the last one.
The closing delimiter wins over the separator, so it stands after no other item. -/
inductive Items (item : Parser) (separator closing : Pattern) : Place → List Token → Place → Prop
  | last {start after stop : Place} {token : Token} {text : Text}
      (read : item start = some (token, after)) (closed : closing.parse after = some (text, stop)) :
      Items item separator closing start [token] stop
  | more {start after next stop : Place} {token : Token} {tokens : List Token} {gap : Text}
      (read : item start = some (token, after)) (goesOn : closing.parse after = none)
      (between : separator.parse after = some (gap, next))
      (others : Items item separator closing next tokens stop) :
      Items item separator closing start (token :: tokens) stop

section Items

variable {item : Parser} {separator closing : Pattern}

theorem items_of_itemsWithin {budget : Text}
    (read : itemsWithin item separator closing budget start = some (tokens, stop)) :
    Items item separator closing start tokens stop := by
  induction budget generalizing start tokens with
  | nil => cases read
  | cons _ budget ih =>
    simp only [itemsWithin, Option.bind_eq_bind, Option.bind_eq_some_iff, Prod.exists] at read
    obtain ⟨token, after, one, read⟩ := read
    split at read
    · rename_i closed
      cases read
      exact .last one closed
    · rename_i goesOn
      simp only [Option.bind_eq_some_iff, Option.some.injEq, Prod.exists, Prod.mk.injEq] at read
      obtain ⟨gap, next, between, others, last, read, rfl, rfl⟩ := read
      exact .more one goesOn between (ih read)

theorem first_of_items (run : items item separator closing start = some (tokens, stop)) :
    ∃ token after, item start = some (token, after) := by
  cases items_of_itemsWithin run with
  | last read _ => exact ⟨_, _, read⟩
  | more read _ _ _ => exact ⟨_, _, read⟩

/-- Every round but the last takes the characters of a separator, and the last one those of the closing
delimiter, so the characters that are left are rounds enough. -/
theorem itemsWithin_of_items (forward : item.Forward) (separates : separator.nullable = false)
    (closes : closing.nullable = false) (budget : Text)
    (run : Items item separator closing start tokens stop)
    (enough : start.rest.length ≤ budget.length) :
    itemsWithin item separator closing budget start = some (tokens, stop) := by
  induction run generalizing budget with
  | @last start after stop token text read closed =>
    obtain ⟨taken, on⟩ := forward _ _ _ read
    have shorter := (Pattern.parse_advances closed).length_lt (Pattern.ne_nil_of_parse closes closed)
    have shorterToo := on.length_le
    cases budget with
    | nil => simp only [List.length_nil] at enough; omega
    | cons _ budget => simp [itemsWithin, read, closed]
  | @more start after next stop token tokens gap read goesOn between others ih =>
    obtain ⟨taken, on⟩ := forward _ _ _ read
    have shorter :=
      (Pattern.parse_advances between).length_lt (Pattern.ne_nil_of_parse separates between)
    have shorterToo := on.length_le
    cases budget with
    | nil => simp only [List.length_nil] at enough; omega
    | cons _ budget =>
      simp only [List.length_cons] at enough
      have rest := ih budget (by omega)
      simp [itemsWithin, read, goesOn, between, rest]

theorem items_iff (forward : item.Forward) (separates : separator.nullable = false)
    (closes : closing.nullable = false) :
    items item separator closing start = some (tokens, stop) ↔
      Items item separator closing start tokens stop :=
  ⟨items_of_itemsWithin, fun run =>
    itemsWithin_of_items forward separates closes _ run (Nat.le_refl _)⟩

theorem Items.advances (forward : item.Forward)
    (run : Items item separator closing start tokens stop) : ∃ text, start.Advances text stop := by
  induction run with
  | last read closed =>
    obtain ⟨taken, on⟩ := forward _ _ _ read
    exact ⟨_, on.trans (Pattern.parse_advances closed)⟩
  | more read _ between _ ih =>
    obtain ⟨taken, on⟩ := forward _ _ _ read
    obtain ⟨rest, onward⟩ := ih
    exact ⟨_, (on.trans (Pattern.parse_advances between)).trans onward⟩

theorem list_iff {kind : Kind} {opening : Pattern} {mayBeEmpty : Bool} :
    list kind opening item separator closing mayBeEmpty start = some (token, stop) ↔
      ∃ before first tokens, opening.parse start = some (before, first) ∧
        token = { kind, span := { start := start.offset, stop := stop.offset },
                  value := .items tokens } ∧
        ((mayBeEmpty = true ∧ tokens = [] ∧ ∃ behind, closing.parse first = some (behind, stop)) ∨
          ((mayBeEmpty = true → closing.parse first = none) ∧
            items item separator closing first = some (tokens, stop))) := by
  simp only [list, close, Option.bind_eq_bind, Option.bind_eq_some_iff, Prod.exists]
  constructor
  · rintro ⟨before, first, opened, read⟩
    refine ⟨before, first, ?_⟩
    cases mayBeEmpty with
    | false =>
      simp only [Bool.false_eq_true, if_false, Option.bind_eq_some_iff, Option.some.injEq,
        Prod.exists, Prod.mk.injEq] at read
      obtain ⟨tokens, last, run, rfl, rfl⟩ := read
      exact ⟨tokens, opened, rfl, .inr ⟨fun impossible => (by cases impossible), run⟩⟩
    | true =>
      simp only [if_true] at read
      split at read
      · rename_i closed
        cases read
        exact ⟨[], opened, rfl, .inl ⟨rfl, rfl, _, closed⟩⟩
      · rename_i goesOn
        simp only [Option.bind_eq_some_iff, Option.some.injEq, Prod.exists, Prod.mk.injEq] at read
        obtain ⟨tokens, last, run, rfl, rfl⟩ := read
        exact ⟨tokens, opened, rfl, .inr ⟨fun _ => goesOn, run⟩⟩
  · rintro ⟨before, first, tokens, opened, rfl, ⟨rfl, rfl, behind, closed⟩ | ⟨goesOn, run⟩⟩
    · refine ⟨before, first, opened, ?_⟩
      rw [if_pos rfl, closed]
    · refine ⟨before, first, opened, ?_⟩
      have skipped : (if mayBeEmpty = true then closing.parse first else none) = none := by
        split
        · exact goesOn ‹_›
        · rfl
      rw [skipped]
      simp [run]

theorem enumeration_iff {typeName opening : Pattern} :
    enumeration typeName opening item separator closing start = some (token, stop) ↔
      ∃ text after gap first tokens name, typeName.parse start = some (text, after) ∧
        opening.parse after = some (gap, first) ∧
        items item separator closing first = some (tokens, stop) ∧
        Utf8.decode? text.bytes = some name ∧
        token = { kind := .enumeration, span := { start := start.offset, stop := stop.offset },
                  value := .enumeration name tokens } := by
  simp only [enumeration, close, Option.bind_eq_bind, Option.bind_eq_some_iff, Option.some.injEq,
    Prod.mk.injEq, Prod.exists]
  constructor
  · rintro ⟨text, after, named, gap, first, opened, tokens, last, run, name, decoded, rfl, rfl⟩
    exact ⟨text, after, gap, first, tokens, name, named, opened, run, decoded, rfl⟩
  · rintro ⟨text, after, gap, first, tokens, name, named, opened, run, decoded, rfl⟩
    exact ⟨text, after, named, gap, first, opened, tokens, stop, run, name, decoded, rfl, rfl⟩

end Items

end Parser

namespace Rule

theorem parseWith_forward {construct : Construct → Parser}
    (forward : ∀ named, (construct named).Forward) (rule : Rule) :
    (rule.parseWith construct).Forward := by
  induction rule with
  | lexeme kind meaning pattern =>
    intro start token stop read
    obtain ⟨text, value, read, _, _⟩ := Parser.lexeme_iff.mp read
    exact ⟨text, Pattern.parse_advances read⟩
  | enclosed kind opening inner closing ih =>
    intro start token stop read
    obtain ⟨_, _, _, _, _, opened, read, closed, _⟩ := Parser.enclosed_iff.mp read
    obtain ⟨_, on⟩ := ih _ _ _ read
    exact ⟨_, ((Pattern.parse_advances opened).trans on).trans (Pattern.parse_advances closed)⟩
  | pair pairing opening first between second ihFirst ihSecond =>
    intro start token stop read
    obtain ⟨_, _, _, _, _, _, _, opened, one, middle, two, _⟩ := Parser.pair_iff.mp read
    obtain ⟨_, onFirst⟩ := ihFirst _ _ _ one
    obtain ⟨_, onSecond⟩ := ihSecond _ _ _ two
    exact ⟨_, (((Pattern.parse_advances opened).trans onFirst).trans
      (Pattern.parse_advances middle)).trans onSecond⟩
  | list kind opening item separator closing mayBeEmpty ih =>
    intro start token stop read
    obtain ⟨_, _, _, opened, _, ⟨_, _, _, closed⟩ | ⟨_, run⟩⟩ := Parser.list_iff.mp read
    · exact ⟨_, (Pattern.parse_advances opened).trans (Pattern.parse_advances closed)⟩
    · obtain ⟨_, on⟩ := (Parser.items_of_itemsWithin run).advances ih
      exact ⟨_, (Pattern.parse_advances opened).trans on⟩
  | enumeration typeName opening member separator closing ih =>
    intro start token stop read
    obtain ⟨_, _, _, _, _, _, named, opened, run, _, _⟩ := Parser.enumeration_iff.mp read
    obtain ⟨_, on⟩ := (Parser.items_of_itemsWithin run).advances ih
    exact ⟨_, ((Pattern.parse_advances named).trans (Pattern.parse_advances opened)).trans on⟩
  | withType _ rule ih | withKind _ rule ih =>
    intro start token stop read
    obtain ⟨_, read, _⟩ := Parser.mapToken_iff.mp read
    exact ih _ _ _ read
  | orElse first second ihFirst ihSecond =>
    intro start token stop read
    simp only [parseWith, Option.or_eq_some_iff] at read
    rcases read with one | ⟨_, two⟩
    · exact ihFirst _ _ _ one
    · exact ihSecond _ _ _ two
  | never =>
    intro start token stop read
    cases read
  | construct named => exact forward named

end Rule

theorem Construct.parse_forward (levels : Nat) (construct : Construct) :
    (construct.parse levels).Forward := by
  induction levels generalizing construct with
  | zero =>
    intro start token stop read
    cases read
  | succ levels ih => exact Rule.parseWith_forward ih construct.body

theorem Rule.parse_forward (levels : Nat) (rule : Rule) : (rule.parse levels).Forward :=
  Rule.parseWith_forward (Construct.parse_forward levels) rule

theorem Rule.parse_withType_iff {levels : Nat} {type : EdmType} {rule : Rule} {start stop : Place}
    {token : Token} :
    (withType type rule).parse levels start = some (token, stop) ↔
      ∃ child, rule.parse levels start = some (child, stop) ∧ token = child.withType type := by
  rw [Rule.parse, parseWith]
  exact Parser.mapToken_iff

theorem Rule.parse_withKind_iff {levels : Nat} {kind : Kind} {rule : Rule} {start stop : Place}
    {token : Token} :
    (withKind kind rule).parse levels start = some (token, stop) ↔
      ∃ child, rule.parse levels start = some (child, stop) ∧ token = child.withKind kind := by
  rw [Rule.parse, parseWith]
  exact Parser.mapToken_iff

theorem Table.parse_rule (table : Table) (levels : Nat) (start : Place) :
    table.rule.parse levels start = table.findSome? fun alternative => alternative.rule.parse levels start := by
  induction table with
  | nil => rfl
  | cons alternative table ih =>
    show (alternative.rule.parse levels start).or (Rule.parse levels (Table.rule table) start) = _
    rw [ih, List.findSome?_cons]
    cases alternative.rule.parse levels start <;> rfl

/-- A parser whose tokens reach from the place where it starts to the one where it stops. -/
def Parser.Spans (parser : Parser) : Prop :=
  ∀ start token stop, parser start = some (token, stop) →
    token.span = { start := start.offset, stop := stop.offset }

theorem Rule.parseWith_spans {construct : Construct → Parser}
    (spans : ∀ named, (construct named).Spans) (rule : Rule) : (rule.parseWith construct).Spans := by
  induction rule with
  | lexeme kind meaning pattern =>
    intro start token stop read
    obtain ⟨_, _, _, _, rfl⟩ := Parser.lexeme_iff.mp read
    rfl
  | enclosed kind opening inner closing _ =>
    intro start token stop read
    obtain ⟨_, _, _, _, _, _, _, _, rfl⟩ := Parser.enclosed_iff.mp read
    rfl
  | pair pairing opening first between second _ _ =>
    intro start token stop read
    obtain ⟨_, _, _, _, _, _, _, _, _, _, _, rfl⟩ := Parser.pair_iff.mp read
    rfl
  | list kind opening item separator closing mayBeEmpty _ =>
    intro start token stop read
    obtain ⟨_, _, _, _, rfl, _⟩ := Parser.list_iff.mp read
    rfl
  | enumeration typeName opening member separator closing _ =>
    intro start token stop read
    obtain ⟨_, _, _, _, _, _, _, _, _, _, rfl⟩ := Parser.enumeration_iff.mp read
    rfl
  | withType _ rule ih | withKind _ rule ih =>
    intro start token stop read
    obtain ⟨child, found, rfl⟩ := Parser.mapToken_iff.mp read
    exact ih start child stop found
  | orElse first second ihFirst ihSecond =>
    intro start token stop read
    simp only [parseWith, Option.or_eq_some_iff] at read
    rcases read with one | ⟨_, two⟩
    · exact ihFirst _ _ _ one
    · exact ihSecond _ _ _ two
  | never =>
    intro start token stop read
    cases read
  | construct named => exact spans named

theorem Construct.parse_spans (levels : Nat) (construct : Construct) :
    (construct.parse levels).Spans := by
  induction levels generalizing construct with
  | zero =>
    intro start token stop read
    cases read
  | succ levels ih => exact Rule.parseWith_spans ih construct.body

theorem Rule.parse_spans (levels : Nat) (rule : Rule) : (rule.parse levels).Spans :=
  Rule.parseWith_spans (Construct.parse_spans levels) rule

end ODataLiteral
