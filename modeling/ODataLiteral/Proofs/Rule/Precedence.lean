import ODataLiteral.Proofs.Literal.Exclusion
import ODataLiteral.Proofs.Rule.Lead

/-! Two rules at one place: when the second one does not read where the first one does, and when it does not end
later. A rule starts with a pattern, so patterns that exclude each other are a reason for both. -/
namespace ODataLiteral

namespace Place.Advances

variable {start stop stop' : Place} {text text' : Text}

theorem prefix_of_length_le (on : start.Advances text stop) (on' : start.Advances text' stop')
    (less : stop.rest.length ≤ stop'.rest.length) : text' <+: text := by
  have whole : text ++ stop.rest = text' ++ stop'.rest := by rw [← on.rest, on'.rest]
  have lengths := congrArg List.length whole
  simp only [List.length_append] at lengths
  exact List.prefix_of_prefix_length_le ⟨stop'.rest, whole.symm⟩ (List.prefix_append _ _) (by omega)

theorem offset_le_iff (on : start.Advances text stop) (on' : start.Advances text' stop') :
    stop'.offset ≤ stop.offset ↔ stop.rest.length ≤ stop'.rest.length := by
  have lengths : text.length + stop.rest.length = text'.length + stop'.rest.length := by
    rw [← List.length_append, ← List.length_append, ← on.rest, on'.rest]
  rw [on.offset, on'.offset]
  rcases Nat.le_total stop.rest.length stop'.rest.length with less | more
  · obtain ⟨further, rfl⟩ := on.prefix_of_length_le on' less
    rw [Text.width_append]
    omega
  · obtain ⟨further, rfl⟩ := on'.prefix_of_length_le on more
    have long := Text.length_le_width further
    rw [List.length_append] at lengths
    rw [Text.width_append]
    constructor
    · intro short
      omega
    · intro less
      have none : further = [] := List.eq_nil_of_length_eq_zero (by omega)
      rw [none]
      exact Nat.le_refl _

end Place.Advances

namespace Rule

variable {levels : Nat} {start stop : Place} {token : Token} {first second : Rule}

/-- Where the first rule reads, the second one does not. -/
def Excludes (first second : Rule) : Prop :=
  ∀ levels start found, first.parse levels start = some found → second.parse levels start = none

/-- Where both rules read, the second one does not end later. -/
def Outlasts (first second : Rule) : Prop :=
  ∀ levels start token stop token' stop', first.parse levels start = some (token, stop) →
    second.parse levels start = some (token', stop') → stop'.offset ≤ stop.offset

theorem Excludes.intro (never : ∀ levels start found found', first.parse levels start = some found →
    second.parse levels start = some found' → False) : first.Excludes second := by
  intro levels start found read
  cases other : second.parse levels start with
  | none => rfl
  | some found' => exact (never _ _ _ _ read other).elim

theorem Excludes.symm (excludes : first.Excludes second) : second.Excludes first := by
  refine Excludes.intro fun levels start found found' read other => ?_
  rw [excludes _ _ _ other] at read
  cases read

theorem Excludes.outlasts (excludes : first.Excludes second) : first.Outlasts second := by
  intro levels start token stop token' stop' read other
  rw [excludes _ _ _ read] at other
  cases other

theorem Excludes.orElse {rule : Rule} (one : first.Excludes rule) (two : second.Excludes rule) :
    (Rule.orElse first second).Excludes rule := by
  intro levels start found read
  rcases Option.or_eq_some_iff.mp read with read | ⟨_, read⟩
  · exact one levels start found read
  · exact two levels start found read

theorem never_excludes (rule : Rule) : never.Excludes rule :=
  nofun

theorem Outlasts.withType {type : EdmType} (outlasts : first.Outlasts second) :
    first.Outlasts (withType type second) := by
  intro levels start token stop token' stop' read other
  obtain ⟨_, other, _⟩ := parse_withType_iff.mp other
  exact outlasts _ _ _ _ _ _ read other

theorem Outlasts.ofWithType {type : EdmType} (outlasts : first.Outlasts second) :
    (Rule.withType type first).Outlasts second := by
  intro levels start token stop token' stop' read other
  obtain ⟨_, read, _⟩ := parse_withType_iff.mp read
  exact outlasts _ _ _ _ _ _ read other

theorem outlasts_refl (rule : Rule) : rule.Outlasts rule := by
  intro levels start token stop token' stop' read other
  rw [read] at other
  cases other
  exact Nat.le_refl _

section Lexeme

variable {kind kind' : Kind} {meaning meaning' : Meaning} {pattern pattern' : Pattern}

theorem parse_lexeme_iff :
    (lexeme kind meaning pattern).parse levels start = some (token, stop) ↔
      ∃ text value, pattern.parse start = some (text, stop) ∧ meaning.value? text = some value ∧
        token = { kind, span := { start := start.offset, stop := stop.offset }, value } := by
  rw [Rule.parse, parseWith]
  exact Parser.lexeme_iff

theorem outlasts_of_patterns (outlasts : pattern.Outlasts pattern') :
    (lexeme kind meaning pattern).Outlasts (lexeme kind' meaning' pattern') := by
  intro levels start token stop token' stop' read other
  obtain ⟨_, _, one, _, _⟩ := parse_lexeme_iff.mp read
  obtain ⟨_, _, two, _, _⟩ := parse_lexeme_iff.mp other
  exact (Place.Advances.offset_le_iff (Pattern.parse_advances one) (Pattern.parse_advances two)).mpr
    (outlasts _ _ _ _ _ (Pattern.parse_iff.mp one).1 (Pattern.parse_iff.mp two).1)

end Lexeme

end Rule

/-- The pattern that a rule starts with, given those of the constructs. -/
def Rule.headWith (construct : Construct → Pattern) : Rule → Pattern
  | lexeme _ _ pattern => pattern
  | enclosed _ opening _ _ | pair _ opening _ _ _ | list _ opening _ _ _ _ => opening
  | enumeration typeName _ _ _ _ => typeName
  | withType _ rule | withKind _ rule => rule.headWith construct
  | orElse first second => (first.headWith construct).alt (second.headWith construct)
  | never => .empty
  | .construct named => construct named

/-- A construct starts with its opening delimiter. -/
def Construct.head (construct : Construct) : Pattern :=
  construct.body.headWith fun _ => .empty

/-- The pattern that a rule starts with. -/
def Rule.head (rule : Rule) : Pattern :=
  rule.headWith Construct.head

/-- A parser that reads only where a pattern does. -/
def Parser.Heads (parser : Parser) (pattern : Pattern) : Prop :=
  ∀ start found, parser start = some found → (pattern.split start.rest).isSome = true

namespace Rule

variable {first second : Rule}

theorem parseWith_heads {construct : Construct → Parser} {head : Construct → Pattern}
    (heads : ∀ named, (construct named).Heads (head named)) (rule : Rule) :
    (rule.parseWith construct).Heads (rule.headWith head) := by
  have starts {pattern : Pattern} {start stop : Place} {text : Text}
      (read : pattern.parse start = some (text, stop)) :
      (pattern.split start.rest).isSome = true := by
    rw [(Pattern.parse_iff.mp read).1, Option.isSome_some]
  induction rule with
  | lexeme kind meaning pattern =>
    intro start found read
    obtain ⟨_, _, read, _, _⟩ := Parser.lexeme_iff.mp read
    exact starts read
  | enclosed kind opening inner closing _ =>
    intro start found read
    obtain ⟨_, _, _, _, _, opened, _, _, _⟩ := Parser.enclosed_iff.mp read
    exact starts opened
  | pair pairing opening first between second _ _ =>
    intro start found read
    obtain ⟨_, _, _, _, _, _, _, opened, _, _, _, _⟩ := Parser.pair_iff.mp read
    exact starts opened
  | list kind opening item separator closing mayBeEmpty _ =>
    intro start found read
    obtain ⟨_, _, _, opened, _, _⟩ := Parser.list_iff.mp read
    exact starts opened
  | enumeration typeName opening member separator closing _ =>
    intro start found read
    obtain ⟨_, _, _, _, _, _, named, _, _, _, _⟩ := Parser.enumeration_iff.mp read
    exact starts named
  | withType type rule ih | withKind kind rule ih =>
    intro start found read
    obtain ⟨_, read, _⟩ := Parser.mapToken_iff.mp read
    exact ih _ _ read
  | orElse first second ihFirst ihSecond =>
    intro start found read
    simp only [parseWith, Option.or_eq_some_iff] at read
    simp only [headWith, Pattern.isSome_split_alt, Bool.or_eq_true]
    rcases read with one | ⟨_, two⟩
    · exact .inl (ihFirst _ _ one)
    · exact .inr (ihSecond _ _ two)
  | never =>
    intro start found read
    cases read
  | construct named => exact heads named

end Rule

theorem Construct.parse_heads (levels : Nat) (construct : Construct) :
    (construct.parse levels).Heads construct.head := by
  intro start found read
  obtain ⟨_, _, _, _, _, _, _, _, same, read⟩ := Construct.list_of_parse read
  obtain ⟨_, _, _, opened, _, _⟩ := Parser.list_iff.mp read
  rw [Construct.head, same, Rule.headWith, (Pattern.parse_iff.mp opened).1, Option.isSome_some]

namespace Rule

variable {first second : Rule}

theorem parse_heads (levels : Nat) (rule : Rule) : (rule.parse levels).Heads rule.head :=
  parseWith_heads (Construct.parse_heads levels) rule

theorem excludes_of_heads (excludes : first.head.Excludes second.head) : first.Excludes second := by
  refine Excludes.intro fun levels start found found' read other => ?_
  obtain ⟨⟨_, _⟩, one⟩ := Option.isSome_iff_exists.mp (first.parse_heads levels _ _ read)
  obtain ⟨⟨_, _⟩, two⟩ := Option.isSome_iff_exists.mp (second.parse_heads levels _ _ other)
  rw [excludes _ _ _ one] at two
  cases two

/-- A rule that begins with characters of a class. -/
structure LeadsIn (rule : Rule) (accepts : UriChar → Bool) : Prop where
  steady : rule.steady = true
  leads : ∀ character, rule.leads character = true → accepts character = true

theorem LeadsIn.mono {rule : Rule} {accepts other : UriChar → Bool} (leads : rule.LeadsIn accepts)
    (wider : ∀ character, accepts character = true → other character = true) : rule.LeadsIn other :=
  ⟨leads.steady, fun character lead => wider character (leads.leads character lead)⟩

theorem LeadsIn.excludes {accepts other : UriChar → Bool} (leads : first.LeadsIn accepts)
    (leadsToo : second.LeadsIn other) (apart : UriChar.Apart accepts other) :
    first.Excludes second := by
  have apart : UriChar.Apart first.leads second.leads := by
    intro character lead
    cases leadToo : second.leads character with
    | false => rfl
    | true => rw [← apart character (leads.leads _ lead), leadsToo.leads _ leadToo]
  rintro levels start ⟨token, stop⟩ read
  exact parse_eq_none_of_apart leads.steady leadsToo.steady apart read levels

end Rule

end ODataLiteral
