import ODataLiteral.Proofs.Pattern.Firm
import ODataLiteral.Proofs.Rule.Completeness
import ODataLiteral.Proofs.Rule.Precedence

/-! Rules that read the same token when the text is cut off behind it. Their patterns are firm, a list does not end
sooner, and an alternative that was refused stays refused. -/
namespace ODataLiteral

open Pattern (HeadIn)

/-- The same place with more text behind it. -/
def Place.extend (gone : Text) (place : Place) : Place :=
  { place with rest := place.rest ++ gone }

section Extend

variable {start stop : Place} {text gone : Text} {pattern : Pattern} {follow : UriChar → Bool}

theorem Place.Advances.exists_extend (on : start.Advances text (stop.extend gone)) :
    ∃ shorter : Place, shorter.extend gone = start := by
  refine ⟨⟨start.offset, text ++ stop.rest⟩, ?_⟩
  have whole := on.rest
  simp only [Place.extend] at whole ⊢
  rw [List.append_assoc, ← whole]

theorem Pattern.parse_cut (steady : pattern.steady = true) (firm : pattern.Firm follow)
    (read : pattern.parse (start.extend gone) = some (text, stop.extend gone))
    (here : HeadIn follow stop.rest) : pattern.parse start = some (text, stop) := by
  obtain ⟨taken, offset⟩ := Pattern.parse_iff.mp read
  exact Pattern.parse_iff.mpr ⟨Pattern.split_cut steady firm taken here, offset⟩

theorem Pattern.Grows.parse_eq_none (grows : pattern.Grows)
    (refused : pattern.parse (start.extend gone) = none) : pattern.parse start = none :=
  Pattern.parse_eq_none.mpr (grows.eq_none (Pattern.parse_eq_none.mp refused))

theorem Pattern.headIn_of_parse (steady : pattern.steady = true)
    (read : pattern.parse start = some (text, stop)) (here : HeadIn follow stop.rest) :
    HeadIn (fun character => pattern.leads character || pattern.nullable && follow character) start.rest := by
  rw [(Pattern.parse_advances read).rest]
  exact here.append (Pattern.mem_language_of_split steady (Pattern.parse_iff.mp read).1)

end Extend

/-- A parser that reads the same when the text is cut off somewhere behind its token, if a character of a class or
nothing follows there. -/
def Parser.Firm (follow : UriChar → Bool) (parser : Parser) : Prop :=
  ∀ gone start token stop, parser (start.extend gone) = some (token, stop.extend gone) →
    HeadIn follow stop.rest → parser start = some (token, stop)

/-- Where the second rule reads the same in a text that is cut off, the first one is still refused. -/
def Rule.Yields (follow : UriChar → Bool) (first second : Rule) : Prop :=
  ∀ levels gone start token stop, second.parse levels (start.extend gone) = some (token, stop.extend gone) →
    second.parse levels start = some (token, stop) → HeadIn follow stop.rest →
      first.parse levels (start.extend gone) = none → first.parse levels start = none

/-- Rules that read the same when the text is cut off behind them. -/
def Rule.Firm : Rule → (UriChar → Bool) → Prop
  | lexeme _ _ pattern, follow => pattern.Firm follow
  | enclosed _ opening inner closing, follow =>
    opening.Firm Grammar.anything ∧
      inner.Firm (fun character => closing.leads character || closing.nullable && follow character) ∧
      closing.Firm follow
  | pair _ opening first between second, follow =>
    opening.Firm Grammar.anything ∧
      first.Firm (fun character => between.leads character || between.nullable) ∧
      between.Firm Grammar.anything ∧ second.Firm follow
  | list _ opening item separator closing _, follow =>
    opening.Firm Grammar.anything ∧
      item.Firm (fun character => separator.leads character || closing.leads character) ∧
      separator.Firm Grammar.anything ∧ closing.Firm follow ∧ closing.Grows
  | enumeration typeName opening member separator closing, follow =>
    typeName.Firm (fun character => opening.leads character || opening.nullable) ∧
      opening.Firm Grammar.anything ∧
      member.Firm (fun character => separator.leads character || closing.leads character) ∧
      separator.Firm Grammar.anything ∧ closing.Firm follow ∧ closing.Grows
  | withType _ rule, follow | withKind _ rule, follow => rule.Firm follow
  | orElse first second, follow => first.Firm follow ∧ second.Firm follow ∧ first.Yields follow second
  | never, _ | .construct _, _ => True

namespace Parser

variable {item first second : Parser} {opening between separator closing : Pattern}
  {follow inner : UriChar → Bool}

theorem headIn_anything (text : Text) : HeadIn Grammar.anything text :=
  fun _ _ => rfl

theorem lexeme_firm {pattern : Pattern} (steady : pattern.steady = true) (firm : pattern.Firm follow)
    (kind : Kind) (meaning : Meaning) : (lexeme kind meaning pattern).Firm follow := by
  intro gone start token stop read here
  obtain ⟨text, value, taken, known, rfl⟩ := lexeme_iff.mp read
  exact lexeme_iff.mpr ⟨text, value, Pattern.parse_cut steady firm taken here, known, rfl⟩

theorem enclosed_firm (steady : opening.steady = true) (steadyToo : closing.steady = true)
    (forward : item.Forward) (opens : opening.Firm Grammar.anything)
    (firm : item.Firm fun character => closing.leads character || closing.nullable && follow character)
    (closes : closing.Firm follow) (kind : Kind) : (enclosed kind opening item closing).Firm follow := by
  intro gone start token stop read here
  obtain ⟨before, left, child, after, behind, opened, read, closed, rfl⟩ := enclosed_iff.mp read
  -- What is cut off stands behind every place up to the end. Each part is read again, the last one first, for it
  -- shows what follows the part before it.
  obtain ⟨after, rfl⟩ := (Pattern.parse_advances closed).exists_extend
  obtain ⟨_, on⟩ := forward _ _ _ read
  obtain ⟨left, rfl⟩ := on.exists_extend
  have closed := Pattern.parse_cut steadyToo closes closed here
  have read := firm _ _ _ _ read (Pattern.headIn_of_parse steadyToo closed here)
  have opened := Pattern.parse_cut steady opens opened (headIn_anything _)
  exact enclosed_iff.mpr ⟨before, left, child, after, behind, opened, read, closed, rfl⟩

theorem pair_firm (steady : opening.steady = true) (steadyToo : between.steady = true)
    (forward : first.Forward) (forwardToo : second.Forward) (opens : opening.Firm Grammar.anything)
    (firm : first.Firm fun character => between.leads character || between.nullable)
    (separates : between.Firm Grammar.anything) (firmToo : second.Firm follow) (pairing : Pairing) :
    (pair pairing opening first between second).Firm follow := by
  intro gone start token stop read here
  obtain ⟨before, left, one, middle, gap, right, two, opened, read, parted, readToo, rfl⟩ :=
    pair_iff.mp read
  obtain ⟨_, on⟩ := forwardToo _ _ _ readToo
  obtain ⟨right, rfl⟩ := on.exists_extend
  obtain ⟨middle, rfl⟩ := (Pattern.parse_advances parted).exists_extend
  obtain ⟨_, on⟩ := forward _ _ _ read
  obtain ⟨left, rfl⟩ := on.exists_extend
  have readToo := firmToo _ _ _ _ readToo here
  have parted := Pattern.parse_cut steadyToo separates parted (headIn_anything _)
  have next := Pattern.headIn_of_parse steadyToo parted (headIn_anything _)
  simp only [Bool.and_true] at next
  have read := firm _ _ _ _ read next
  have opened := Pattern.parse_cut steady opens opened (headIn_anything _)
  exact pair_iff.mpr ⟨before, left, one, middle, gap, right, two, opened, read, parted, readToo, rfl⟩

/-- The items of a list, their separator and what closes it, none of which depends on the text behind the list. -/
structure FirmItems (item : Parser) (separator closing : Pattern) (follow : UriChar → Bool) : Prop where
  forward : item.Forward
  firm : item.Firm fun character => separator.leads character || closing.leads character
  separates : separator.steady = true ∧ separator.nullable = false ∧ separator.Firm Grammar.anything
  closes : closing.steady = true ∧ closing.nullable = false ∧ closing.Firm follow
  grows : closing.Grows

section Items

variable {gone : Text} {start stop : Place} {tokens : List Token}

theorem Items.cut (list : FirmItems item separator closing follow)
    (run : Items item separator closing (start.extend gone) tokens (stop.extend gone))
    (here : HeadIn follow stop.rest) : Items item separator closing start tokens stop := by
  obtain ⟨forward, firm, ⟨steady, filled, separates⟩, ⟨steadyToo, filledToo, closes⟩, grows⟩ := list
  -- The induction is on the run in the longer text, whose two ends are kept as equations.
  generalize whole : start.extend gone = long at run
  generalize ends : stop.extend gone = last at run
  induction run generalizing start with
  | last read closed =>
    subst whole ends
    obtain ⟨after, rfl⟩ := (Pattern.parse_advances closed).exists_extend
    have closed := Pattern.parse_cut steadyToo closes closed here
    refine .last (firm _ _ _ _ read ?_) closed
    refine (Pattern.headIn_of_parse steadyToo closed here).mono fun character next => ?_
    simp only [filledToo, Bool.false_and, Bool.or_false] at next
    rw [next, Bool.or_true]
  | more read goesOn parted others ih =>
    subst whole ends
    obtain ⟨_, on⟩ := others.advances forward
    obtain ⟨next, rfl⟩ := on.exists_extend
    obtain ⟨after, rfl⟩ := (Pattern.parse_advances parted).exists_extend
    have parted := Pattern.parse_cut steady separates parted (headIn_anything _)
    refine .more (firm _ _ _ _ read ?_) (grows.parse_eq_none goesOn) parted (ih rfl rfl)
    refine (Pattern.headIn_of_parse steady parted (headIn_anything _)).mono fun character next => ?_
    simp only [filled, Bool.false_and, Bool.or_false] at next
    rw [next, Bool.true_or]

theorem items_cut (list : FirmItems item separator closing follow)
    (run : items item separator closing (start.extend gone) = some (tokens, stop.extend gone))
    (here : HeadIn follow stop.rest) : items item separator closing start = some (tokens, stop) :=
  (items_iff list.forward list.separates.2.1 list.closes.2.1).mpr ((items_of_itemsWithin run).cut list here)

end Items

theorem list_firm (list : FirmItems item separator closing follow) (steady : opening.steady = true)
    (opens : opening.Firm Grammar.anything) (kind : Kind) (mayBeEmpty : Bool) :
    (Parser.list kind opening item separator closing mayBeEmpty).Firm follow := by
  intro gone start token stop read here
  obtain ⟨before, first, tokens, opened, rfl, inner⟩ := list_iff.mp read
  obtain ⟨_, on⟩ : ∃ text, first.Advances text (stop.extend gone) := by
    rcases inner with ⟨_, _, _, closed⟩ | ⟨_, run⟩
    · exact ⟨_, Pattern.parse_advances closed⟩
    · exact (items_of_itemsWithin run).advances list.forward
  obtain ⟨first, rfl⟩ := on.exists_extend
  have opened := Pattern.parse_cut steady opens opened (headIn_anything _)
  refine list_iff.mpr ⟨before, first, tokens, opened, rfl, ?_⟩
  rcases inner with ⟨mayBe, none, behind, closed⟩ | ⟨goesOn, run⟩
  · exact .inl ⟨mayBe, none, behind, Pattern.parse_cut list.closes.1 list.closes.2.2 closed here⟩
  · exact .inr ⟨fun mayBe => list.grows.parse_eq_none (goesOn mayBe), items_cut list run here⟩

theorem enumeration_firm (list : FirmItems item separator closing follow) {typeName : Pattern}
    (steady : typeName.steady = true) (steadyToo : opening.steady = true)
    (named : typeName.Firm fun character => opening.leads character || opening.nullable)
    (opens : opening.Firm Grammar.anything) :
    (enumeration typeName opening item separator closing).Firm follow := by
  intro gone start token stop read here
  obtain ⟨text, after, gap, first, tokens, name, spelled, opened, run, decoded, rfl⟩ :=
    enumeration_iff.mp read
  obtain ⟨_, on⟩ := (items_of_itemsWithin run).advances list.forward
  obtain ⟨first, rfl⟩ := on.exists_extend
  obtain ⟨after, rfl⟩ := (Pattern.parse_advances opened).exists_extend
  have opened := Pattern.parse_cut steadyToo opens opened (headIn_anything _)
  have next := Pattern.headIn_of_parse steadyToo opened (headIn_anything _)
  simp only [Bool.and_true] at next
  have spelled := Pattern.parse_cut steady named spelled next
  exact enumeration_iff.mpr
    ⟨text, after, gap, first, tokens, name, spelled, opened, items_cut list run here, decoded, rfl⟩

theorem mapToken_firm (firm : item.Firm follow) (change : Token → Token) :
    (mapToken change item).Firm follow := by
  intro gone start token stop read here
  obtain ⟨child, inner, rfl⟩ := mapToken_iff.mp read
  exact mapToken_iff.mpr ⟨child, firm _ _ _ _ inner here, rfl⟩

end Parser

namespace Rule

variable {levels : Nat} {rule first second : Rule} {follow : UriChar → Bool}

theorem Excludes.yields (excludes : second.Excludes first) (follow : UriChar → Bool) :
    first.Yields follow second :=
  fun levels _ start _ _ _ again _ _ => excludes levels start _ again

theorem Yields.withType (yields : first.Yields follow second) (type : EdmType) :
    (Rule.withType type first).Yields follow second := by
  intro levels gone start token stop read again here refused
  have refused : first.parse levels (start.extend gone) = none := Option.map_eq_none_iff.mp refused
  have none := yields levels gone start token stop read again here refused
  exact Option.map_eq_none_iff.mpr none

theorem yields_of_apart (steady : first.steady = true) (steadyToo : second.steady = true)
    (apart : UriChar.Apart second.leads first.leads) (follow : UriChar → Bool) : first.Yields follow second :=
  Excludes.yields (fun levels _ _ read => parse_eq_none_of_apart steadyToo steady apart read levels) follow

theorem parse_firm_of_constructs
    (firm : ∀ construct follow, (Construct.parse levels construct).Firm follow)
    (steady : rule.steady = true) (parts : rule.Firm follow) : (rule.parse levels).Firm follow := by
  induction rule generalizing follow with
  | lexeme kind meaning pattern =>
    simp only [Rule.steady, Bool.and_eq_true] at steady
    exact Parser.lexeme_firm steady.1 parts kind meaning
  | enclosed kind opening inner closing ih =>
    simp only [Rule.steady, Bool.and_eq_true] at steady
    obtain ⟨opens, inside, closes⟩ := parts
    exact Parser.enclosed_firm steady.1.1 steady.2 (parse_forward levels inner) opens
      (ih steady.1.2 inside) closes kind
  | pair pairing opening first between second ihFirst ihSecond =>
    simp only [Rule.steady, Bool.and_eq_true] at steady
    obtain ⟨opens, one, separates, two⟩ := parts
    exact Parser.pair_firm steady.1.1.1 steady.1.2 (parse_forward levels first)
      (parse_forward levels second) opens (ihFirst steady.1.1.2 one) separates (ihSecond steady.2 two) pairing
  | list kind opening item separator closing mayBeEmpty ih =>
    have steady := steadyItems_of_list steady
    obtain ⟨opens, one, firmSeparator, firmClosing, grows⟩ := parts
    exact Parser.list_firm ⟨parse_forward levels item, ih steady.inside one,
      ⟨steady.parts, steady.separates, firmSeparator⟩, ⟨steady.ends, steady.closes, firmClosing⟩, grows⟩
      steady.opens opens kind mayBeEmpty
  | enumeration typeName opening member separator closing ih =>
    obtain ⟨steadyName, steady⟩ := steadyItems_of_enumeration steady
    obtain ⟨named, opens, one, firmSeparator, firmClosing, grows⟩ := parts
    exact Parser.enumeration_firm ⟨parse_forward levels member, ih steady.inside one,
      ⟨steady.parts, steady.separates, firmSeparator⟩, ⟨steady.ends, steady.closes, firmClosing⟩, grows⟩
      steadyName steady.opens named opens
  | withType type rule ih => exact Parser.mapToken_firm (ih steady parts) (·.withType type)
  | withKind kind rule ih => exact Parser.mapToken_firm (ih steady parts) (·.withKind kind)
  | orElse first second ihFirst ihSecond =>
    simp only [Rule.steady, Bool.and_eq_true] at steady
    obtain ⟨one, two, yields⟩ := parts
    intro gone start token stop read here
    refine Option.or_eq_some_iff.mpr ?_
    rcases Option.or_eq_some_iff.mp read with read | ⟨refused, read⟩
    · exact .inl (ihFirst steady.1 one _ _ _ _ read here)
    · have again := ihSecond steady.2 two _ _ _ _ read here
      exact .inr ⟨yields _ _ _ _ _ read again here refused, again⟩
  | never =>
    intro gone start token stop read
    cases read
  | construct named => exact firm named follow

end Rule

end ODataLiteral
