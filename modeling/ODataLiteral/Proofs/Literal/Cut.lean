import ODataLiteral.Proofs.Literal.Yields

/-! What the primitive literals find where the text is cut off behind a token. They find it again, unless it is a
fraction that was read as a floating point numeral: that one is a decimal when nothing follows. -/
namespace ODataLiteral

open Pattern (HeadIn)

namespace Pattern

variable {text gone : Text}

theorem split_of_fraction (member : text ∈ fraction.language) : fraction.split text = some (text, []) := by
  have alone := split_of_mem rfl Grammar.fraction_deterministic.1 member (HeadIn.nil _)
  rwa [List.append_nil] at alone

/-- A fraction is a decimal when nothing follows it, for then no exponent does. -/
theorem decimal_of_fraction (member : text ∈ fraction.language) : decimal.split text = some (text, []) :=
  split_seq_iff.mpr ⟨text, [], [], split_of_fraction member, rfl, (List.append_nil text).symm⟩

theorem fraction_of_decimal {taken rest : Text} (read : decimal.split text = some (taken, rest)) :
    taken ∈ fraction.language := by
  obtain ⟨before, _, _, one, ahead, rfl⟩ := split_seq_iff.mp read
  obtain ⟨_, rfl, _⟩ := split_notBefore_iff.mp ahead
  rw [List.append_nil]
  exact mem_language_of_split rfl one

/-- Where a fraction is found as a floating point numeral and is no decimal, an `e` follows it. -/
theorem head_of_double (member : text ∈ fraction.language)
    (read : double.split (text ++ gone) = some (text, gone)) (refused : decimal.split (text ++ gone) = none) :
    gone.head? = some (.plain 'e'.toUInt8) := by
  have alone := split_of_fraction member
  rcases split_alt_iff.mp read with word | ⟨_, numeral⟩
  · have firm : notANumberOrInfinity.Firm Grammar.nothing := firm_of_firm rfl rfl _
    have again : notANumberOrInfinity.split text = some (text, []) := split_cut rfl firm word (HeadIn.nil _)
    cases (fraction_excludes_notANumberOrInfinity _ _ _ alone).symm.trans again
  · obtain ⟨before, middle, after, one, two, rfl⟩ := split_seq_iff.mp numeral
    obtain rfl := split_append two
    have firm : fraction.Firm Grammar.anything := firm_of_firm rfl rfl _
    have front : fraction.split (before ++ after) = some (before, after) :=
      split_cut rfl firm one fun _ _ => rfl
    obtain ⟨-, rfl⟩ := Prod.mk.inj (Option.some.inj (front.symm.trans alone))
    simp only [List.append_nil, List.nil_append] at one refused
    cases mark : (plain 'e').split gone with
    | none =>
      have read : decimal.split (before ++ gone) = some (before ++ [], gone) :=
        split_seq_iff.mpr ⟨before, gone, [], one, split_notBefore_iff.mpr ⟨mark, rfl, rfl⟩, rfl⟩
      cases refused.symm.trans read
    | some found =>
      obtain ⟨character, accepted, _, rfl⟩ := split_char_iff.mp mark
      rw [UriChar.eq_plain accepted]
      rfl

end Pattern

theorem Meaning.typed_of_value? {meaning : Meaning} {text : Text} {type : EdmType}
    (known : meaning.value? text = some (.typed type)) :
    meaning = .typed type ∨ ∃ range, meaning = .integer type range := by
  cases meaning with
  | typed other =>
    cases known
    exact .inl rfl
  | integer other range =>
    simp only [value?] at known
    split at known <;> cases known
    exact .inr ⟨range, rfl⟩
  | null | srid | jsonNumber | jsonBoolean _ | jsonNull => cases known
  | name | term | jsonString =>
    obtain ⟨_, _, other⟩ := Option.map_eq_some_iff.mp known
    cases other

/-- Whether a type is all the meaning of what a rule reads. -/
def Rule.typedAs (type : EdmType) : Rule → Bool
  | lexeme _ (.typed other) _ | lexeme _ (.integer other _) _ | withType other _ => other == type
  | withKind _ rule => rule.typedAs type
  | orElse first second => first.typedAs type || second.typedAs type
  | lexeme _ _ _ | enclosed _ _ _ _ | pair _ _ _ _ _ | list _ _ _ _ _ _ | enumeration _ _ _ _ _ | never
  | .construct _ => false

theorem Rule.typedAs_of_parse {levels : Nat} {type : EdmType} {rule : Rule} {start stop : Place} {token : Token}
    (read : rule.parse levels start = some (token, stop)) (typed : token.value = .typed type) :
    rule.typedAs type = true := by
  induction rule generalizing token with
  | lexeme kind meaning pattern =>
    obtain ⟨text, value, _, known, rfl⟩ := parse_lexeme_iff.mp read
    obtain rfl : value = .typed type := typed
    rcases Meaning.typed_of_value? known with rfl | ⟨range, rfl⟩
    · exact beq_self_eq_true _
    · exact beq_self_eq_true _
  | enclosed kind opening inner closing _ =>
    obtain ⟨_, _, _, _, _, _, _, _, rfl⟩ := Parser.enclosed_iff.mp read
    cases typed
  | pair pairing opening first between second _ _ =>
    obtain ⟨_, _, _, _, _, _, _, _, _, _, _, rfl⟩ := Parser.pair_iff.mp read
    cases pairing <;> cases typed
  | list kind opening item separator closing mayBeEmpty _ =>
    obtain ⟨_, _, _, _, rfl, _⟩ := Parser.list_iff.mp read
    cases typed
  | enumeration typeName opening member separator closing _ =>
    obtain ⟨_, _, _, _, _, _, _, _, _, _, rfl⟩ := Parser.enumeration_iff.mp read
    cases typed
  | withType other rule _ =>
    obtain ⟨_, _, rfl⟩ := parse_withType_iff.mp read
    cases typed
    exact beq_self_eq_true _
  | withKind kind rule ih =>
    obtain ⟨_, inner, rfl⟩ := parse_withKind_iff.mp read
    exact ih inner typed
  | orElse first second ihFirst ihSecond =>
    rw [Rule.typedAs, Bool.or_eq_true]
    rcases Option.or_eq_some_iff.mp read with read | ⟨_, read⟩
    · exact .inl (ihFirst read typed)
    · exact .inr (ihSecond read typed)
  | never => cases read
  | construct named =>
    obtain ⟨_, _, _, _, _, _, _, _, _, read⟩ := Construct.list_of_parse read
    obtain ⟨_, _, _, _, rfl, _⟩ := Parser.list_iff.mp read
    cases typed

namespace Grammar

variable {before after : Table} {winner alternative : Alternative} {levels : Nat} {start stop : Place}
  {token : Token} {gone : Text}

theorem literals_cede_names : primitiveTable.Pairwise fun first second => Cedes first.rule second.rule :=
  List.pairwise_map.mp (show (primitiveTable.map (·.rule)).Pairwise Cedes from literals_cede)

theorem mem_before (parts : primitiveTable = before ++ winner :: after) (member : alternative ∈ primitiveTable)
    (order : primitiveTable.Pairwise fun first second =>
      ¬ (first.name = winner.name ∧ second.name = alternative.name))
    (other : alternative ≠ winner) : alternative ∈ before := by
  rw [parts] at order member
  rcases List.mem_append.mp member with earlier | later
  · exact earlier
  · rcases List.mem_cons.mp later with same | later
    · exact absurd same other
    · have pairs := (List.pairwise_cons.mp (List.pairwise_append.mp order).2.1).1
      exact absurd ⟨rfl, rfl⟩ (pairs alternative later)

theorem eq_double (member : winner ∈ primitiveTable)
    (read : winner.rule.parse levels start = some (token, stop)) (typed : token.value = .typed .double) :
    winner = ⟨"doubleValue", double⟩ := by
  have names : ∀ alternative ∈ primitiveTable, alternative.rule.typedAs .double = true →
      alternative.name = "doubleValue" := by decide
  exact eq_of_name member (by simp [primitiveTable]) (names winner member (Rule.typedAs_of_parse read typed))

theorem decimal_before_double (parts : primitiveTable = before ++ ⟨"doubleValue", double⟩ :: after) :
    ⟨"decimalValue", decimal⟩ ∈ before :=
  mem_before parts (by simp [primitiveTable]) (by decide) fun same =>
    absurd (congrArg Alternative.name same) (by decide)

/-- A single is never found, for the double before it is written alike. -/
theorem ne_single (parts : primitiveTable = before ++ winner :: after)
    (won : winner.rule.parse levels start = some (token, stop))
    (lost : ∀ earlier ∈ before, earlier.rule.parse levels start = none) : winner.rule ≠ single := by
  intro isSingle
  rw [isSingle] at won
  obtain ⟨child, read, _⟩ := Rule.parse_withType_iff.mp won
  have names : ∀ alternative ∈ primitiveTable, alternative.rule.typedAs .single = true →
      alternative.name = "singleValue" := by decide
  have member : winner ∈ primitiveTable := by simp [parts]
  have named := names winner member (by rw [isSingle]; rfl)
  have order : primitiveTable.Pairwise fun first second =>
      ¬ (first.name = "singleValue" ∧ second.name = "doubleValue") := by decide
  rw [← named] at order
  have other : ⟨"doubleValue", double⟩ ≠ winner := fun same => by
    rw [← same] at named
    exact absurd named (by decide)
  have earlier := mem_before parts (by simp [primitiveTable]) order other
  cases (lost _ earlier).symm.trans read

/-- What comes back where the text is cut off is a decimal, and a floating point numeral was found there. -/
theorem double_of_back (parts : primitiveTable = before ++ winner :: after)
    (won : winner.rule.parse levels (start.extend gone) = some (token, stop.extend gone))
    (lost : ∀ earlier ∈ before, earlier.rule.parse levels (start.extend gone) = none)
    (again : winner.rule.parse levels start = some (token, stop)) (ends : stop.rest = [])
    (earlier : alternative ∈ before) {found : Token × Place}
    (back : alternative.rule.parse levels start = some found) :
    alternative.rule = decimal ∧ winner.rule = double := by
  have cedes := literals_cede_names
  rw [parts] at cedes
  have cedes := (List.pairwise_append.mp cedes).2.2 alternative earlier winner List.mem_cons_self
  rcases cedes with yields | ⟨same, either⟩
  · have none := yields levels gone start token stop won again (headIn_nothing_iff.mpr ends)
      (lost alternative earlier)
    cases none.symm.trans back
  · exact ⟨same, either.resolve_right (ne_single parts won lost)⟩

theorem split_of_refused (refused : decimal.parse levels start = none) :
    Pattern.decimal.split start.rest = none := by
  cases split : Pattern.decimal.split start.rest with
  | none => rfl
  | some _ =>
    obtain ⟨_, read⟩ : ∃ found, decimal.parse levels start = some found :=
      Rule.reads_of_split (fun _ => rfl) (by rw [split]; rfl)
    cases refused.symm.trans read

/-- A decimal and a floating point numeral that is all of the text are one fraction. -/
theorem decimal_of_double {found : Token × Place} (back : decimal.parse levels start = some found)
    (again : double.parse levels start = some (token, stop)) (ends : stop.rest = []) :
    start.rest ∈ Pattern.fraction.language ∧ found = (token.withType .decimal, stop) := by
  obtain ⟨tokenToo, last⟩ := found
  obtain ⟨text, _, taken, known, rfl⟩ := Rule.parse_lexeme_iff.mp back
  obtain ⟨_, _, whole, _, rfl⟩ := Rule.parse_lexeme_iff.mp again
  have short := Pattern.decimal_outlasts_double _ _ _ _ _ (Pattern.parse_iff.mp taken).1
    (Pattern.parse_iff.mp whole).1
  rw [ends, List.length_nil, Nat.le_zero, List.length_eq_zero_iff] at short
  have on := Pattern.parse_advances taken
  have onToo := Pattern.parse_advances whole
  have all : start.rest = text := by rw [on.rest, short, List.append_nil]
  have allToo := onToo.rest
  rw [ends, List.append_nil, all] at allToo
  have same : last = stop := by
    cases last
    cases stop
    rw [Place.mk.injEq]
    exact ⟨on.offset.trans (allToo ▸ onToo.offset.symm), short.trans ends.symm⟩
  cases known
  rw [same, all]
  exact ⟨Pattern.fraction_of_decimal (Pattern.parse_iff.mp taken).1, rfl⟩

theorem primitiveLiteral_cut
    (read : primitiveLiteral.parse levels (start.extend gone) = some (token, stop.extend gone))
    (ends : stop.rest = []) :
    (token.value = .typed .double ∧ start.rest ∈ Pattern.fraction.language →
      primitiveLiteral.parse levels start = some (token.withType .decimal, stop) ∧
        gone.head? = some (.plain 'e'.toUInt8)) ∧
    (¬ (token.value = .typed .double ∧ start.rest ∈ Pattern.fraction.language) →
      primitiveLiteral.parse levels start = some (token, stop)) := by
  rw [primitiveLiteral, Table.parse_rule] at read ⊢
  obtain ⟨before, winner, after, parts, won, lost⟩ := List.findSome?_eq_some_iff.mp read
  have member : winner ∈ primitiveTable := by simp [parts]
  have again := Rule.parse_firm levels (primitiveTable_steady winner member) (primitiveTable_firm winner member)
    _ _ _ _ won (headIn_nothing_iff.mpr ends)
  have first : primitiveTable.findSome? (fun alternative => alternative.rule.parse levels start) =
      (before.findSome? fun alternative => alternative.rule.parse levels start).or (some (token, stop)) := by
    rw [parts, List.findSome?_append, List.findSome?_cons, again]
  rw [first]
  -- The winner reads again. The alternatives before it were refused, and all depends on whether one comes back.
  cases back : before.findSome? fun alternative => alternative.rule.parse levels start with
  | none =>
    refine ⟨?_, fun _ => rfl⟩
    rintro ⟨typed, fraction⟩
    obtain rfl := eq_double member won typed
    have refused := List.findSome?_eq_none_iff.mp back _ (decimal_before_double parts)
    have reads : (Pattern.decimal.split start.rest).isSome = true := by
      rw [Pattern.decimal_of_fraction fraction]
      rfl
    rw [split_of_refused refused] at reads
    cases reads
  | some found =>
    -- Only a decimal comes back, where a floating point numeral won.
    obtain ⟨alternative, earlier, back⟩ := List.exists_of_findSome?_eq_some back
    obtain ⟨isDecimal, isDouble⟩ := double_of_back parts won lost again ends earlier back
    have refused := lost alternative earlier
    rw [isDecimal] at back refused
    rw [isDouble] at again won
    obtain ⟨fraction, rfl⟩ := decimal_of_double back again ends
    obtain ⟨text, _, taken, known, rfl⟩ := Rule.parse_lexeme_iff.mp won
    cases known
    refine ⟨fun _ => ⟨rfl, Pattern.head_of_double fraction ?_ (split_of_refused refused)⟩,
      fun other => absurd ⟨rfl, fraction⟩ other⟩
    have split := (Pattern.parse_iff.mp taken).1
    have all := Pattern.split_append split
    simp only [Place.extend, ends, List.nil_append] at split all
    rwa [← List.append_cancel_right all] at split

end Grammar

end ODataLiteral
