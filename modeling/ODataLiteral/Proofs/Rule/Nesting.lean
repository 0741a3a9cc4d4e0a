import ODataLiteral.Proofs.Levels
import ODataLiteral.Proofs.Rule.Lead
import ODataLiteral.Proofs.Rule.Reading

/-! A rule that has fewer levels to open reads what it reads with more of them, as long as the token has few enough,
and nothing else. What could go wrong is a choice: where the first alternative fails for want of levels, a later one
must not read instead. So a choice needs a first alternative that opens none, or one that leaves nothing to the other
where it opens some. -/
namespace ODataLiteral

/-- A place of a source. -/
def Place.In (source : Bytes) (place : Place) : Prop :=
  place.rest = Text.ofBytes (source.drop place.offset)

theorem Place.In.ofSource (source : Bytes) (offset : Nat) : (Place.ofSource source offset).In source :=
  rfl

theorem Place.In.advances {source : Bytes} {start stop : Place} {text : Text} (inside : start.In source)
    (on : start.Advances text stop) : stop.In source := by
  have whole : Text.ofBytes (source.drop start.offset) = text ++ stop.rest := by
    rw [← inside, on.rest]
  obtain ⟨after, rest, split⟩ := Text.exists_rest_of_append whole
  rw [Place.In, on.offset, ← List.drop_drop, split, ← Text.length_bytes, List.drop_left, rest]

theorem Place.In.slice {source : Bytes} {start stop : Place} {text : Text} (inside : start.In source)
    (on : start.Advances text stop) : source.slice start.offset stop.offset = text.bytes := by
  obtain ⟨offset, rest⟩ := start
  obtain rfl : rest = Text.ofBytes (source.drop offset) := inside
  exact Place.slice_of_advances on

namespace Parser

variable {opens : Token → Bool} {source : Bytes} {levels : Nat} {fewer more : Parser}

/-- A parser that reads what another one reads, as long as the token has few enough levels. -/
def Limits (opens : Token → Bool) (source : Bytes) (levels : Nat) (fewer more : Parser) : Prop :=
  ∀ start token stop, start.In source →
    (fewer start = some (token, stop) ↔
      more start = some (token, stop) ∧ token.levels opens ≤ levels)

theorem Limits.items {separator closing : Pattern} (limits : Limits opens source levels fewer more)
    (forward : more.Forward) {start stop : Place} {tokens : List Token} (inside : start.In source) :
    Items fewer separator closing start tokens stop ↔
      Items more separator closing start tokens stop ∧
        Token.mostLevels opens tokens ≤ levels := by
  constructor
  · intro run
    induction run with
    | last read closed =>
      obtain ⟨read, few⟩ := (limits _ _ _ inside).mp read
      exact ⟨.last read closed, by simpa [Token.mostLevels] using few⟩
    | more read goesOn between _ ih =>
      obtain ⟨read, few⟩ := (limits _ _ _ inside).mp read
      obtain ⟨_, on⟩ := forward _ _ _ read
      obtain ⟨others, fewOthers⟩ :=
        ih (inside.advances (on.trans (Pattern.parse_advances between)))
      exact ⟨.more read goesOn between others, Nat.max_le.mpr ⟨few, fewOthers⟩⟩
  · rintro ⟨run, few⟩
    induction run with
    | last read closed =>
      rw [Token.mostLevels, Token.mostLevels, Nat.max_zero] at few
      exact .last ((limits _ _ _ inside).mpr ⟨read, few⟩) closed
    | more read goesOn between _ ih =>
      obtain ⟨one, others⟩ := Nat.max_le.mp few
      obtain ⟨_, on⟩ := forward _ _ _ read
      exact .more ((limits _ _ _ inside).mpr ⟨read, one⟩) goesOn between
        (ih (inside.advances (on.trans (Pattern.parse_advances between))) others)

/-- A list reads within a limit where its items do. Whether the list is a level itself is left open. -/
theorem Limits.list (kind : Kind) (opening : Pattern) {separator closing : Pattern}
    (mayBeEmpty : Bool) (limits : Limits opens source levels fewer more) (forward : fewer.Forward)
    (forward' : more.Forward) (separates : separator.nullable = false)
    (closes : closing.nullable = false) {start : Place} (inside : start.In source) (token : Token)
    (stop : Place) :
    Parser.list kind opening fewer separator closing mayBeEmpty start = some (token, stop) ↔
      Parser.list kind opening more separator closing mayBeEmpty start = some (token, stop) ∧
        Token.mostLevels opens token.children ≤ levels := by
  simp only [list_iff, items_iff forward separates closes, items_iff forward' separates closes]
  constructor
  · rintro ⟨before, first, tokens, opened, rfl, ⟨may, rfl, closed⟩ | ⟨goesOn, run⟩⟩
    · exact ⟨⟨before, first, [], opened, rfl, .inl ⟨may, rfl, closed⟩⟩, Nat.zero_le _⟩
    · have inner := inside.advances (Pattern.parse_advances opened)
      obtain ⟨run, few⟩ := (limits.items forward' inner).mp run
      exact ⟨⟨before, first, tokens, opened, rfl, .inr ⟨goesOn, run⟩⟩, few⟩
  · rintro ⟨⟨before, first, tokens, opened, rfl, ⟨may, rfl, closed⟩ | ⟨goesOn, run⟩⟩, few⟩
    · exact ⟨before, first, [], opened, rfl, .inl ⟨may, rfl, closed⟩⟩
    · have inner := inside.advances (Pattern.parse_advances opened)
      exact ⟨before, first, tokens, opened, rfl,
        .inr ⟨goesOn, (limits.items forward' inner).mpr ⟨run, few⟩⟩⟩

theorem Limits.enumeration (typeName opening : Pattern) {separator closing : Pattern}
    (limits : Limits opens source levels fewer more) (forward : fewer.Forward)
    (forward' : more.Forward) (separates : separator.nullable = false)
    (closes : closing.nullable = false) {start : Place} (inside : start.In source) (token : Token)
    (stop : Place) :
    Parser.enumeration typeName opening fewer separator closing start = some (token, stop) ↔
      Parser.enumeration typeName opening more separator closing start = some (token, stop) ∧
        Token.mostLevels opens token.children ≤ levels := by
  simp only [enumeration_iff, items_iff forward separates closes, items_iff forward' separates closes]
  constructor
  · rintro ⟨text, after, gap, first, tokens, name, named, opened, run, decoded, rfl⟩
    have inner := (inside.advances (Pattern.parse_advances named)).advances
      (Pattern.parse_advances opened)
    obtain ⟨run, few⟩ := (limits.items forward' inner).mp run
    exact ⟨⟨text, after, gap, first, tokens, name, named, opened, run, decoded, rfl⟩, few⟩
  · rintro ⟨⟨text, after, gap, first, tokens, name, named, opened, run, decoded, rfl⟩, few⟩
    have inner := (inside.advances (Pattern.parse_advances named)).advances
      (Pattern.parse_advances opened)
    have run := (limits.items forward' inner).mpr ⟨run, few⟩
    exact ⟨text, after, gap, first, tokens, name, named, opened, run, decoded, rfl⟩

theorem Limits.enclosed (kind : Kind) (opening closing : Pattern)
    (limits : Limits opens source levels fewer more) {start : Place} (inside : start.In source)
    (token : Token) (stop : Place) :
    Parser.enclosed kind opening fewer closing start = some (token, stop) ↔
      Parser.enclosed kind opening more closing start = some (token, stop) ∧
        Token.mostLevels opens token.children ≤ levels := by
  simp only [enclosed_iff]
  constructor
  · rintro ⟨before, first, child, after, behind, opened, read, closed, rfl⟩
    obtain ⟨read, few⟩ := (limits _ _ _ (inside.advances (Pattern.parse_advances opened))).mp read
    exact ⟨⟨before, first, child, after, behind, opened, read, closed, rfl⟩,
      Nat.max_le.mpr ⟨few, Nat.zero_le _⟩⟩
  · rintro ⟨⟨before, first, child, after, behind, opened, read, closed, rfl⟩, few⟩
    have few := (Nat.max_le.mp few).1
    have read := (limits _ _ _ (inside.advances (Pattern.parse_advances opened))).mpr ⟨read, few⟩
    exact ⟨before, first, child, after, behind, opened, read, closed, rfl⟩

theorem Limits.pair {fewerToo moreToo : Parser} (pairing : Pairing) (opening between : Pattern)
    (limits : Limits opens source levels fewer more)
    (limitsToo : Limits opens source levels fewerToo moreToo) (forward : more.Forward) {start : Place}
    (inside : start.In source) (token : Token) (stop : Place) :
    Parser.pair pairing opening fewer between fewerToo start = some (token, stop) ↔
      Parser.pair pairing opening more between moreToo start = some (token, stop) ∧
        Token.mostLevels opens token.children ≤ levels := by
  have both (one two : Token) : Token.mostLevels opens (pairing.value one two).children =
      max (one.levels opens) (two.levels opens) := by
    cases pairing <;> simp only [Pairing.value, Value.children, Token.mostLevels, Nat.max_zero]
  simp only [pair_iff]
  constructor
  · rintro ⟨before, left, one, middle, gap, right, two, opened, read, parted, readToo, rfl⟩
    have inner := inside.advances (Pattern.parse_advances opened)
    obtain ⟨read, few⟩ := (limits _ _ _ inner).mp read
    obtain ⟨_, on⟩ := forward _ _ _ read
    have further := (inner.advances on).advances (Pattern.parse_advances parted)
    obtain ⟨readToo, fewToo⟩ := (limitsToo _ _ _ further).mp readToo
    refine ⟨⟨before, left, one, middle, gap, right, two, opened, read, parted, readToo, rfl⟩, ?_⟩
    exact (both one two).symm ▸ Nat.max_le.mpr ⟨few, fewToo⟩
  · rintro ⟨⟨before, left, one, middle, gap, right, two, opened, read, parted, readToo, rfl⟩, few⟩
    obtain ⟨few, fewToo⟩ := Nat.max_le.mp (both one two ▸ few)
    have inner := inside.advances (Pattern.parse_advances opened)
    obtain ⟨_, on⟩ := forward _ _ _ read
    have further := (inner.advances on).advances (Pattern.parse_advances parted)
    have read := (limits _ _ _ inner).mpr ⟨read, few⟩
    have readToo := (limitsToo _ _ _ further).mpr ⟨readToo, fewToo⟩
    exact ⟨before, left, one, middle, gap, right, two, opened, read, parted, readToo, rfl⟩

theorem Limits.eq_none (limits : Limits opens source levels fewer more) {start : Place}
    (inside : start.In source) (refused : more start = none) : fewer start = none := by
  cases early : fewer start with
  | none => rfl
  | some found =>
    cases refused.symm.trans ((limits _ _ _ inside).mp early).1

theorem Limits.eq_none_of_many (limits : Limits opens source levels fewer more) {start stop : Place}
    (inside : start.In source) {token : Token} (read : more start = some (token, stop))
    (many : levels < token.levels opens) : fewer start = none := by
  cases early : fewer start with
  | none => rfl
  | some found =>
    obtain ⟨late, few⟩ := (limits _ _ _ inside).mp early
    cases read.symm.trans late
    exact absurd few (Nat.not_le.mpr many)

/-- Where the first alternative has too few levels, the second one must not read instead. -/
theorem Limits.or {fewerToo moreToo : Parser} (limits : Limits opens source levels fewer more)
    (limitsToo : Limits opens source levels fewerToo moreToo)
    (left : ∀ start token stop, start.In source → more start = some (token, stop) →
      levels < token.levels opens → fewerToo start = none) :
    Limits opens source levels (fun start => (fewer start).or (fewerToo start))
      (fun start => (more start).or (moreToo start)) := by
  intro start token stop inside
  dsimp only
  cases one : more start with
  | none =>
    rw [limits.eq_none inside one, Option.none_or, Option.none_or]
    exact limitsToo _ _ _ inside
  | some found =>
    obtain ⟨child, after⟩ := found
    rw [Option.some_or]
    rcases Nat.lt_or_ge levels (child.levels opens) with many | few
    · rw [limits.eq_none_of_many inside one many, left _ _ _ inside one many]
      constructor
      · intro read
        cases read
      · rintro ⟨same, few⟩
        cases same
        exact absurd few (Nat.not_le.mpr many)
    · rw [(limits _ _ _ inside).mpr ⟨one, few⟩, Option.some_or]
      constructor
      · intro same
        cases same
        exact ⟨rfl, few⟩
      · exact And.left

end Parser

theorem Meaning.children_of_value? {meaning : Meaning} {text : Text} {value : Value}
    (means : meaning.value? text = some value) : value.children = [] := by
  cases meaning with
  | null | typed _ | srid | jsonNumber | jsonBoolean _ | jsonNull => cases means; rfl
  | integer type range =>
    simp only [value?] at means
    split at means
    · cases means; rfl
    · cases means
  | name | term | jsonString =>
    obtain ⟨_, _, rfl⟩ := Option.map_eq_some_iff.mp means
    rfl

namespace Rule

/-- Rules that name no construct. -/
def flat : Rule → Bool
  | lexeme _ _ _ | never => true
  | enclosed _ _ inner _ => inner.flat
  | pair _ _ first _ second => first.flat && second.flat
  | list _ _ item _ _ _ => item.flat
  | enumeration _ _ member _ _ => member.flat
  | withType _ rule | withKind _ rule => rule.flat
  | orElse first second => first.flat && second.flat
  | .construct _ => false

theorem parseWith_of_flat {rule : Rule} (flat : rule.flat = true) (one two : Construct → Parser) :
    rule.parseWith one = rule.parseWith two := by
  induction rule with
  | lexeme | never => rfl
  | enclosed kind opening inner closing ih => simp only [parseWith, ih flat]
  | pair pairing opening first between second ihFirst ihSecond =>
    simp only [Rule.flat, Bool.and_eq_true] at flat
    simp only [parseWith, ihFirst flat.1, ihSecond flat.2]
  | list kind opening item separator closing mayBeEmpty ih => simp only [parseWith, ih flat]
  | enumeration typeName opening member separator closing ih => simp only [parseWith, ih flat]
  | withType type rule ih => simp only [parseWith, ih flat]
  | withKind kind rule ih => simp only [parseWith, ih flat]
  | orElse first second ihFirst ihSecond =>
    simp only [Rule.flat, Bool.and_eq_true] at flat
    simp only [parseWith, ihFirst flat.1, ihSecond flat.2]
  | construct named => cases flat

theorem parse_of_flat {rule : Rule} (flat : rule.flat = true) (levels levels' : Nat) :
    rule.parse levels = rule.parse levels' :=
  parseWith_of_flat flat _ _

section Counted

variable (opens : Token → Bool) (source : Bytes)

/-- A rule whose own tokens are no levels. -/
def Silent (rule : Rule) : Prop :=
  ∀ levels start token stop, start.In source → rule.parse levels start = some (token, stop) →
    opens token = false

/-- A rule that leaves nothing to another one where it opens levels. -/
def Supersedes (first second : Rule) : Prop :=
  ∀ levels levels' start token stop, first.parse levels start = some (token, stop) →
    0 < token.levels opens → second.parse levels' start = none

/-- A rule in which a construct alone opens levels, and no choice falls back on another alternative
when there are too few. -/
def Counted (named : Construct) : Rule → Prop
  | lexeme kind meaning pattern => Silent opens source (lexeme kind meaning pattern)
  | enclosed kind opening inner closing =>
    Silent opens source (enclosed kind opening inner closing) ∧ inner.Counted named
  | pair pairing opening first between second =>
    Silent opens source (pair pairing opening first between second) ∧
      first.Counted named ∧ second.Counted named
  | list kind opening item separator closing mayBeEmpty =>
    Silent opens source (list kind opening item separator closing mayBeEmpty) ∧ item.Counted named
  | enumeration typeName opening member separator closing =>
    Silent opens source (enumeration typeName opening member separator closing) ∧
      member.Counted named
  -- A type takes the place of the tokens inside, so their levels cannot be told any more.
  | withType type rule => Silent opens source (withType type rule) ∧ rule.flat = true
  | withKind kind rule =>
    Silent opens source (withKind kind rule) ∧ Silent opens source rule ∧ rule.Counted named
  | orElse first second =>
    (first.flat = true ∨ Supersedes opens first second) ∧ first.Counted named ∧ second.Counted named
  | never => True
  | .construct other => other = named

variable {opens source}

theorem levels_of_silent {token : Token} (silent : opens token = false) :
    token.levels opens = Token.mostLevels opens token.children := by
  rw [Token.levels_eq, silent]
  exact Nat.zero_add _

theorem limits_of_children {rule : Rule} {fewer more : Nat} (silent : rule.Silent opens source)
    (children : ∀ start token stop, start.In source →
      (rule.parse fewer start = some (token, stop) ↔ rule.parse more start = some (token, stop) ∧
        Token.mostLevels opens token.children ≤ fewer)) :
    Parser.Limits opens source fewer (rule.parse fewer) (rule.parse more) := by
  intro start token stop inside
  rw [children _ _ _ inside]
  refine and_congr_right fun read => ?_
  rw [levels_of_silent (silent _ _ _ _ inside read)]

theorem limits_of_leaf {rule : Rule} {fewer more : Nat} (silent : rule.Silent opens source)
    (same : rule.parse fewer = rule.parse more)
    (leaf : ∀ start token stop, rule.parse more start = some (token, stop) → token.children = []) :
    Parser.Limits opens source fewer (rule.parse fewer) (rule.parse more) := by
  intro start token stop inside
  rw [same]
  refine ⟨fun read => ⟨read, ?_⟩, And.left⟩
  rw [levels_of_silent (silent _ _ _ _ inside read), leaf _ _ _ read]
  exact Nat.zero_le _

/-- Neither token of the two is a level, so the category does not count. -/
theorem limits_of_withKind {kind : Kind} {rule : Rule} {fewer more : Nat}
    (silent : Silent opens source (withKind kind rule)) (silentInside : rule.Silent opens source)
    (limits : Parser.Limits opens source fewer (rule.parse fewer) (rule.parse more)) :
    Parser.Limits opens source fewer ((withKind kind rule).parse fewer) ((withKind kind rule).parse more) := by
  intro start token stop inside
  have same {levels : Nat} {child : Token} (read : rule.parse levels start = some (child, stop)) :
      (child.withKind kind).levels opens = child.levels opens := by
    have own := silent levels start (child.withKind kind) stop inside
      (parse_withKind_iff.mpr ⟨child, read, rfl⟩)
    rw [levels_of_silent own, levels_of_silent (silentInside _ _ _ _ inside read)]
    rfl
  constructor
  · intro whole
    obtain ⟨child, read, rfl⟩ := parse_withKind_iff.mp whole
    obtain ⟨found, few⟩ := (limits _ _ _ inside).mp read
    exact ⟨parse_withKind_iff.mpr ⟨child, found, rfl⟩, by rwa [same read]⟩
  · rintro ⟨whole, few⟩
    obtain ⟨child, read, rfl⟩ := parse_withKind_iff.mp whole
    rw [same read] at few
    exact parse_withKind_iff.mpr ⟨child, (limits _ _ _ inside).mpr ⟨read, few⟩, rfl⟩

theorem limits_of_counted {named : Construct} {fewer more : Nat}
    (constructs : Parser.Limits opens source fewer (named.parse fewer) (named.parse more))
    {rule : Rule} (steady : rule.steady = true) (counted : rule.Counted opens source named) :
    Parser.Limits opens source fewer (rule.parse fewer) (rule.parse more) := by
  induction rule with
  | lexeme kind meaning pattern =>
    refine limits_of_leaf counted rfl fun start token stop read => ?_
    obtain ⟨text, value, _, means, rfl⟩ := Parser.lexeme_iff.mp read
    exact Meaning.children_of_value? means
  | enclosed kind opening inner closing ih =>
    simp only [Rule.steady, Bool.and_eq_true] at steady
    refine limits_of_children counted.1 fun start token stop inside => ?_
    exact (ih steady.1.2 counted.2).enclosed kind opening closing inside token stop
  | pair pairing opening first between second ihFirst ihSecond =>
    simp only [Rule.steady, Bool.and_eq_true] at steady
    refine limits_of_children counted.1 fun start token stop inside => ?_
    exact (ihFirst steady.1.1.2 counted.2.1).pair pairing opening between (ihSecond steady.2 counted.2.2)
      (Rule.parse_forward more first) inside token stop
  | list kind opening item separator closing mayBeEmpty ih =>
    have steady := steadyItems_of_list steady
    refine limits_of_children counted.1 fun start token stop inside => ?_
    exact (ih steady.inside counted.2).list kind opening mayBeEmpty (Rule.parse_forward fewer item)
      (Rule.parse_forward more item) steady.separates steady.closes inside token stop
  | enumeration typeName opening member separator closing ih =>
    obtain ⟨_, steady⟩ := steadyItems_of_enumeration steady
    refine limits_of_children counted.1 fun start token stop inside => ?_
    exact (ih steady.inside counted.2).enumeration typeName opening (Rule.parse_forward fewer member)
      (Rule.parse_forward more member) steady.separates steady.closes inside token stop
  | withType type rule _ =>
    refine limits_of_leaf counted.1 ?_ fun start token stop read => ?_
    · have flat : (withType type rule).flat = true := counted.2
      exact parse_of_flat flat fewer more
    · obtain ⟨child, _, rfl⟩ := parse_withType_iff.mp read
      rfl
  | withKind kind rule ih => exact limits_of_withKind counted.1 counted.2.1 (ih steady counted.2.2)
  | orElse first second ihFirst ihSecond =>
    simp only [Rule.steady, Bool.and_eq_true] at steady
    have limits := ihFirst steady.1 counted.2.1
    refine limits.or (ihSecond steady.2 counted.2.2) fun start token stop inside read many => ?_
    -- A first alternative that opens no level reads the same with fewer, so this one opens some.
    rcases counted.1 with flat | excludes
    · have again := read
      rw [← parse_of_flat flat fewer more] at again
      exact absurd ((limits _ _ _ inside).mp again).2 (Nat.not_le.mpr many)
    · exact excludes _ _ _ _ _ read (Nat.zero_lt_of_lt many)
  | never =>
    intro start token stop _
    constructor
    · intro read
      cases read
    · rintro ⟨read, _⟩
      cases read
  | construct other =>
    cases counted
    exact constructs

/-- A construct opens one level, and its items are read with the others. -/
theorem Construct.limits {named : Construct}
    (loud : ∀ levels start token stop, start.In source →
      named.parse levels start = some (token, stop) → opens token = true)
    (counted : ∀ kind opening item separator closing mayBeEmpty,
      named.body = .list kind opening item separator closing mayBeEmpty →
        item.Counted opens source named)
    {fewer more : Nat} (enough : fewer ≤ more) :
    Parser.Limits opens source fewer (named.parse fewer) (named.parse more) := by
  have own {levels : Nat} {start stop : Place} {token : Token} (inside : start.In source)
      (read : named.parse levels start = some (token, stop)) :
      token.levels opens = 1 + Token.mostLevels opens token.children := by
    rw [Token.levels_eq, loud _ _ _ _ inside read, if_pos rfl]
  induction fewer generalizing more with
  | zero =>
    intro start token stop inside
    constructor
    · intro read
      cases read
    · rintro ⟨read, few⟩
      rw [own inside read] at few
      omega
  | succ fewer ih =>
    cases more with
    | zero => omega
    | succ more =>
      obtain ⟨kind, opening, item, separator, closing, mayBeEmpty, _, same⟩ := named.body_eq_list
      have steady := named.steady_body
      rw [same] at steady
      have steady := steadyItems_of_list steady
      have shorter : fewer ≤ more := Nat.le_of_succ_le_succ enough
      have limits := limits_of_counted (ih shorter) steady.inside
        (counted _ _ _ _ _ _ same)
      intro start token stop inside
      have both := limits.list kind opening mayBeEmpty (Rule.parse_forward fewer item)
        (Rule.parse_forward more item) steady.separates steady.closes inside token stop
      have body (levels : Nat) : named.parse (levels + 1) =
          Parser.list kind opening (item.parse levels) separator closing mayBeEmpty := by
        simp only [Construct.parse, same]
        rfl
      constructor
      · intro read
        have levels := own inside read
        rw [body] at read ⊢
        obtain ⟨found, few⟩ := both.mp read
        exact ⟨found, by omega⟩
      · rintro ⟨read, few⟩
        have levels := own inside read
        rw [body] at read ⊢
        exact both.mpr ⟨read, by omega⟩

/-- Rules without constructs, all of whose parts pass a check. -/
def every (check : Rule → Bool) : Rule → Bool
  | lexeme kind meaning pattern => check (lexeme kind meaning pattern)
  | enclosed kind opening inner closing =>
    check (enclosed kind opening inner closing) && inner.every check
  | pair pairing opening first between second =>
    check (pair pairing opening first between second) && first.every check && second.every check
  | list kind opening item separator closing mayBeEmpty =>
    check (list kind opening item separator closing mayBeEmpty) && item.every check
  | enumeration typeName opening member separator closing =>
    check (enumeration typeName opening member separator closing) && member.every check
  | withType type rule => check (withType type rule) && rule.every check
  | withKind kind rule => check (withKind kind rule) && check rule && rule.every check
  | orElse first second => first.every check && second.every check
  | never => true
  | .construct _ => false

theorem flat_of_every {check : Rule → Bool} {rule : Rule} (every : rule.every check = true) :
    rule.flat = true := by
  induction rule with
  | lexeme | never => rfl
  | construct => cases every
  | enclosed _ _ _ _ ih | list _ _ _ _ _ _ ih | enumeration _ _ _ _ _ ih | withType _ _ ih
  | withKind _ _ ih =>
    simp only [Rule.every, Bool.and_eq_true] at every
    exact ih every.2
  | pair _ _ _ _ _ ihFirst ihSecond =>
    simp only [Rule.every, Bool.and_eq_true] at every
    simp only [Rule.flat, ihFirst every.1.2, ihSecond every.2, Bool.and_self]
  | orElse _ _ ihFirst ihSecond =>
    simp only [Rule.every, Bool.and_eq_true] at every
    simp only [Rule.flat, ihFirst every.1, ihSecond every.2, Bool.and_self]

/-- A rule without constructs opens no levels when none of its parts does. -/
theorem counted_of_every {check : Rule → Bool} {named : Construct}
    (silent : ∀ rule, check rule = true → Silent opens source rule) {rule : Rule}
    (every : rule.every check = true) : rule.Counted opens source named := by
  induction rule with
  | lexeme kind meaning pattern => exact silent _ every
  | enclosed kind opening inner closing ih | list kind opening inner separator closing mayBeEmpty ih
  | enumeration typeName opening inner separator closing ih =>
    simp only [Rule.every, Bool.and_eq_true] at every
    exact ⟨silent _ every.1, ih every.2⟩
  | pair pairing opening first between second ihFirst ihSecond =>
    simp only [Rule.every, Bool.and_eq_true] at every
    exact ⟨silent _ every.1.1, ihFirst every.1.2, ihSecond every.2⟩
  | withType type rule _ =>
    simp only [Rule.every, Bool.and_eq_true] at every
    exact ⟨silent _ every.1, flat_of_every every.2⟩
  | withKind kind rule ih =>
    simp only [Rule.every, Bool.and_eq_true] at every
    exact ⟨silent _ every.1.1, silent _ every.1.2, ih every.2⟩
  | orElse first second ihFirst ihSecond =>
    simp only [Rule.every, Bool.and_eq_true] at every
    exact ⟨.inl (flat_of_every every.1), ihFirst every.1, ihSecond every.2⟩
  | never => trivial
  | construct named => cases every

/-- With some levels open already, a rule reads what it reads without a limit, as long as there are levels
enough for its token. -/
theorem attempt_iff_unbounded {named : Construct}
    (loud : ∀ levels start token stop, start.In source →
      named.parse levels start = some (token, stop) → opens token = true)
    (items : ∀ kind opening item separator closing mayBeEmpty,
      named.body = .list kind opening item separator closing mayBeEmpty →
        item.Counted opens source named)
    {rule : Rule} (steady : rule.steady = true) (fits : rule.Fits)
    (counted : rule.Counted opens source named) {depth : Nat} (free : depth ≤ maxDepth)
    (offset : Nat) (token : Token) :
    (rule.attempt source offset depth).1 = .done token ↔
      (rule.read Nesting.unbounded source offset ()).1 = .done token ∧
        depth + token.levels opens ≤ maxDepth := by
  have done (found : Option Token) : Ending.ofOption found = .done token ↔ found = some token := by
    cases found <;> simp [Ending.ofOption]
  rw [attempt_eq steady fits, read_unbounded_eq steady fits, done, done]
  have inside := Place.In.ofSource source offset
  -- As many levels as characters are no fewer than any larger number of them.
  have room := Nat.le_max_left (maxDepth - depth) (Place.ofSource source offset).rest.length
  have most := rule.parse_enough (Nat.le_refl (Place.ofSource source offset).rest.length)
    (Nat.le_max_right (maxDepth - depth) _)
  have limits := limits_of_counted (Construct.limits loud items room) steady counted
  simp only [find?, most, Option.map_eq_some_iff, Prod.exists]
  constructor
  · rintro ⟨_, stop, read, rfl⟩
    obtain ⟨found, few⟩ := (limits _ _ _ inside).mp read
    exact ⟨⟨_, stop, found, rfl⟩, by omega⟩
  · rintro ⟨⟨_, stop, found, rfl⟩, few⟩
    exact ⟨_, stop, (limits _ _ _ inside).mpr ⟨found, by omega⟩, rfl⟩

end Counted

end Rule

end ODataLiteral
