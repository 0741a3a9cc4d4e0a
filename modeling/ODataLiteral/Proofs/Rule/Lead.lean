import ODataLiteral.Grammar
import ODataLiteral.Proofs.Pattern.Structure
import ODataLiteral.Proofs.Rule.Steady

/-! With which character a pattern or a rule can begin. Two rules that cannot begin with the same character
never both read at one place. -/
namespace ODataLiteral

namespace Pattern

/-- The characters that may be the first one that a pattern takes. -/
def leads : Pattern → UriChar → Bool
  | empty, _ | notBefore _, _ => false
  | char accepts, character => accepts character
  | seq first second, character =>
    first.leads character || first.nullable && second.leads character
  | alt first second, character => first.leads character || second.leads character
  | times _ _ body, character => body.leads character

theorem nullable_of_split_nil {pattern : Pattern} {text rest : Text}
    (read : pattern.split text = some ([], rest)) : pattern.nullable = true := by
  cases filled : pattern.nullable with
  | true => rfl
  | false => exact absurd rfl (ne_nil_of_split filled read)

theorem leads_of_split {pattern : Pattern} (steady : pattern.steady = true) {text taken rest : Text}
    {character : UriChar} (read : pattern.split text = some (character :: taken, rest)) :
    pattern.leads character = true := by
  induction pattern generalizing text taken rest with
  | empty => cases read
  | char accepts =>
    obtain ⟨other, accepted, same, _⟩ := split_char_iff.mp read
    cases same
    exact accepted
  | seq first second ihFirst ihSecond =>
    simp only [Pattern.steady, Bool.and_eq_true] at steady
    obtain ⟨before, middle, after, one, two, same⟩ := split_seq_iff.mp read
    simp only [leads, Bool.or_eq_true, Bool.and_eq_true]
    cases before with
    | cons head tail =>
      cases same
      exact .inl (ihFirst steady.1 one)
    | nil =>
      rw [List.nil_append] at same
      subst same
      exact .inr ⟨nullable_of_split_nil one, ihSecond steady.2 two⟩
  | alt first second ihFirst ihSecond =>
    simp only [Pattern.steady, Bool.and_eq_true] at steady
    simp only [leads, Bool.or_eq_true]
    rcases split_alt_iff.mp read with one | ⟨_, two⟩
    · exact .inl (ihFirst steady.1 one)
    · exact .inr (ihSecond steady.2 two)
  | times least most body ih =>
    simp only [Pattern.steady, Bool.and_eq_true, Bool.not_eq_true'] at steady
    obtain ⟨pieces, run, _, same⟩ := (split_times_iff steady.1).mp read
    cases run with
    | stop _ => cases same
    | more _ one _ =>
      obtain ⟨head, tail, rfl⟩ := List.exists_cons_of_ne_nil (ne_nil_of_split steady.1 one)
      cases same
      exact ih steady.2 one
  | notBefore ahead =>
    obtain ⟨_, same, _⟩ := split_notBefore_iff.mp read
    cases same

theorem leads_of_filled {first second : Pattern} (filled : first.nullable = false) :
    (first ++ second).leads = first.leads := by
  funext character
  simp [append_eq_seq, leads, filled]

theorem leads_of_text (first : UriChar) (others : Text) :
    (text (first :: others)).leads = (· == first) := by
  cases others with
  | nil => rfl
  | cons next others => exact leads_of_filled rfl

theorem accepts_of_word {keyword : String} {accepts : UriChar → Bool}
    (first : (Text.ofWord keyword).head?.all accepts = true) {character : UriChar}
    (lead : (word keyword).leads character = true) : accepts character = true := by
  unfold word at lead
  cases same : Text.ofWord keyword with
  | nil =>
    rw [same] at lead
    cases lead
  | cons head others =>
    rw [same, leads_of_text, beq_iff_eq] at lead
    rw [same] at first
    exact lead ▸ first

theorem apart_word {accepts : UriChar → Bool} {keyword : String}
    (other : (Text.ofWord keyword).head?.all (!accepts ·) = true) :
    UriChar.Apart accepts (word keyword).leads :=
  UriChar.Apart.symm fun _ lead => by simpa using accepts_of_word other lead

theorem Spells.leads {good : UriChar → Prop} {pattern : Pattern} (spells : pattern.Spells good)
    {character : UriChar} (lead : pattern.leads character = true) : good character := by
  induction pattern with
  | empty | notBefore _ => cases lead
  | char accepts => exact spells character lead
  | seq first second ihFirst ihSecond =>
    simp only [Pattern.leads, Bool.or_eq_true, Bool.and_eq_true] at lead
    rcases lead with lead | ⟨_, lead⟩
    · exact ihFirst spells.1 lead
    · exact ihSecond spells.2 lead
  | alt first second ihFirst ihSecond =>
    simp only [Pattern.leads, Bool.or_eq_true] at lead
    rcases lead with lead | lead
    · exact ihFirst spells.1 lead
    · exact ihSecond spells.2 lead
  | times _ _ body ih => exact ih spells lead

end Pattern

/-- The characters that may be the first one of a rule, given those of the constructs. -/
def Rule.leadsWith (construct : Construct → UriChar → Bool) : Rule → UriChar → Bool
  | lexeme _ _ pattern, character => pattern.leads character
  | enclosed _ opening inner _, character =>
    opening.leads character || opening.nullable && inner.leadsWith construct character
  | pair _ opening first _ _, character =>
    opening.leads character || opening.nullable && first.leadsWith construct character
  | list _ opening item _ closing _, character =>
    opening.leads character ||
      opening.nullable && (item.leadsWith construct character || closing.leads character)
  | enumeration typeName opening member _ _, character =>
    typeName.leads character || typeName.nullable &&
      (opening.leads character || opening.nullable && member.leadsWith construct character)
  | withType _ rule, character | withKind _ rule, character => rule.leadsWith construct character
  | orElse first second, character =>
    first.leadsWith construct character || second.leadsWith construct character
  | never, _ => false
  | .construct named, character => construct named character

/-- A construct begins with its opening delimiter. -/
def Construct.leads (construct : Construct) (character : UriChar) : Bool :=
  construct.body.leadsWith (fun _ _ => false) character

/-- The characters that may be the first one of a rule. -/
def Rule.leads (rule : Rule) : UriChar → Bool :=
  rule.leadsWith Construct.leads

/-- The text at a place begins with a character of a class. -/
def Place.LedBy (accepts : UriChar → Bool) (place : Place) : Prop :=
  ∃ character rest, place.rest = character :: rest ∧ accepts character = true

theorem Place.LedBy.mono {accepts other : UriChar → Bool} {place : Place} (led : place.LedBy accepts)
    (wider : ∀ character, accepts character = true → other character = true) :
    place.LedBy other := by
  obtain ⟨character, rest, same, accepted⟩ := led
  exact ⟨character, rest, same, wider character accepted⟩

theorem Pattern.ledBy_of_parse {pattern : Pattern} (steady : pattern.steady = true)
    {start stop : Place} {text : Text} (read : pattern.parse start = some (text, stop)) :
    start.LedBy pattern.leads ∨ pattern.nullable = true ∧ start.rest = stop.rest := by
  have on := Pattern.parse_advances read
  cases text with
  | cons character taken =>
    exact .inl ⟨character, taken ++ stop.rest, on.rest,
      leads_of_split steady (Pattern.parse_iff.mp read).1⟩
  | nil => exact .inr ⟨nullable_of_split_nil (Pattern.parse_iff.mp read).1, on.rest⟩

theorem Pattern.ledBy_of_filled {pattern : Pattern} (steady : pattern.steady = true)
    (filled : pattern.nullable = false) {start stop : Place} {text : Text}
    (read : pattern.parse start = some (text, stop)) : start.LedBy pattern.leads := by
  rcases Pattern.ledBy_of_parse steady read with first | ⟨empty, _⟩
  · exact first
  · rw [filled] at empty
    cases empty

/-- What follows a pattern begins it only where the pattern may take nothing. -/
theorem Pattern.ledBy_before {pattern : Pattern} (steady : pattern.steady = true)
    {start stop : Place} {text : Text} {accepts : UriChar → Bool}
    (read : pattern.parse start = some (text, stop)) (led : stop.LedBy accepts) :
    start.LedBy fun character =>
      pattern.leads character || pattern.nullable && accepts character := by
  rcases Pattern.ledBy_of_parse steady read with first | ⟨empty, same⟩
  · exact first.mono fun character accepted => by simp [accepted]
  · obtain ⟨character, rest, here, accepted⟩ := led
    exact ⟨character, rest, same.trans here, by simp [empty, accepted]⟩

/-- A parser that reads only where a character of a class stands. -/
def Parser.Begins (parser : Parser) (accepts : UriChar → Bool) : Prop :=
  ∀ start token stop, parser start = some (token, stop) → start.LedBy accepts

theorem Parser.Items.ledBy {item : Parser} {separator closing : Pattern} {accepts : UriChar → Bool}
    (begins : item.Begins accepts) {start stop : Place} {tokens : List Token}
    (run : Items item separator closing start tokens stop) : start.LedBy accepts := by
  cases run with
  | last read _ => exact begins _ _ _ read
  | more read _ _ _ => exact begins _ _ _ read

theorem Rule.parseWith_begins {construct : Construct → Parser} {leads : Construct → UriChar → Bool}
    (begins : ∀ named, (construct named).Begins (leads named)) (rule : Rule)
    (steady : rule.steady = true) : (rule.parseWith construct).Begins (rule.leadsWith leads) := by
  induction rule with
  | lexeme kind meaning pattern =>
    intro start token stop read
    simp only [Rule.steady, Bool.and_eq_true, Bool.not_eq_true'] at steady
    obtain ⟨text, value, read, _, _⟩ := Parser.lexeme_iff.mp read
    exact Pattern.ledBy_of_filled steady.1 steady.2 read
  | enclosed kind opening inner closing ih =>
    intro start token stop read
    simp only [Rule.steady, Bool.and_eq_true] at steady
    obtain ⟨_, _, _, _, _, opened, read, _, _⟩ := Parser.enclosed_iff.mp read
    exact Pattern.ledBy_before steady.1.1 opened (ih steady.1.2 _ _ _ read)
  | pair pairing opening first between second ihFirst _ =>
    intro start token stop read
    simp only [Rule.steady, Bool.and_eq_true] at steady
    obtain ⟨_, _, _, _, _, _, _, opened, one, _, _, _⟩ := Parser.pair_iff.mp read
    exact Pattern.ledBy_before steady.1.1.1 opened (ihFirst steady.1.1.2 _ _ _ one)
  | list kind opening item separator closing mayBeEmpty ih =>
    intro start token stop read
    have steady := steadyItems_of_list steady
    obtain ⟨_, _, _, opened, _, ⟨_, _, _, closed⟩ | ⟨_, run⟩⟩ := Parser.list_iff.mp read
    · have last := Pattern.ledBy_of_filled steady.ends steady.closes closed
      exact Pattern.ledBy_before steady.opens opened (last.mono fun _ accepted => by simp [accepted])
    · have first := (Parser.items_of_itemsWithin run).ledBy (ih steady.inside)
      exact Pattern.ledBy_before steady.opens opened (first.mono fun _ accepted => by simp [accepted])
  | enumeration typeName opening member separator closing ih =>
    intro start token stop read
    obtain ⟨named, steady⟩ := steadyItems_of_enumeration steady
    obtain ⟨_, _, _, _, _, _, name, opened, run, _, _⟩ := Parser.enumeration_iff.mp read
    have first := (Parser.items_of_itemsWithin run).ledBy (ih steady.inside)
    exact Pattern.ledBy_before named name (Pattern.ledBy_before steady.opens opened first)
  | withType _ rule ih | withKind _ rule ih =>
    intro start token stop read
    obtain ⟨_, read, _⟩ := Parser.mapToken_iff.mp read
    exact ih steady _ _ _ read
  | orElse first second ihFirst ihSecond =>
    intro start token stop read
    simp only [Rule.steady, Bool.and_eq_true] at steady
    simp only [parseWith, Option.or_eq_some_iff] at read
    rcases read with one | ⟨_, two⟩
    · exact (ihFirst steady.1 _ _ _ one).mono fun _ accepted => by simp [leadsWith, accepted]
    · exact (ihSecond steady.2 _ _ _ two).mono fun _ accepted => by simp [leadsWith, accepted]
  | never =>
    intro start token stop read
    cases read
  | construct named => exact begins named

theorem Construct.parse_begins (levels : Nat) (construct : Construct) :
    (construct.parse levels).Begins construct.leads := by
  intro start token stop read
  obtain ⟨_, _, _, _, _, _, _, filled, same, read⟩ := list_of_parse read
  have steady := construct.steady_body
  rw [same] at steady
  obtain ⟨_, _, _, opened, _, _⟩ := Parser.list_iff.mp read
  have first := Pattern.ledBy_of_filled (Rule.steadyItems_of_list steady).opens filled opened
  refine first.mono fun character accepted => ?_
  simp only [leads, same, Rule.leadsWith, accepted, Bool.true_or]

theorem Rule.parse_begins (levels : Nat) {rule : Rule} (steady : rule.steady = true) :
    (rule.parse levels).Begins rule.leads :=
  Rule.parseWith_begins (Construct.parse_begins levels) rule steady

theorem Rule.parse_eq_none_of_apart {first second : Rule} (steady : first.steady = true)
    (steadyToo : second.steady = true) (apart : UriChar.Apart first.leads second.leads)
    {levels : Nat} {start stop : Place} {token : Token}
    (read : first.parse levels start = some (token, stop)) (levels' : Nat) :
    second.parse levels' start = none := by
  cases other : second.parse levels' start with
  | none => rfl
  | some found =>
    obtain ⟨character, rest, same, accepted⟩ := Rule.parse_begins levels steady _ _ _ read
    obtain ⟨_, _, same', accepted'⟩ := Rule.parse_begins levels' steadyToo _ _ _ other
    rw [same] at same'
    cases same'
    rw [apart character accepted] at accepted'
    cases accepted'

end ODataLiteral
