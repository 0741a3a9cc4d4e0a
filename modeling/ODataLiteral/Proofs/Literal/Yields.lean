import ODataLiteral.Proofs.Grammar.Firm
import ODataLiteral.Proofs.LongestMatch

/-! Which primitive literals stay refused where a later one is cut off behind its end. A literal that would read there
read before, or it has another mark than the later one. Only a decimal comes back: it is refused before the `e` of an
exponent that has no digits, and a floating point numeral ends there. -/
namespace ODataLiteral.Grammar

open Rule Pattern

variable {first second : Rule} {kind : Kind} {meaning : Meaning} {pattern : Pattern}

theorem headIn_nothing_iff {text : Text} : HeadIn nothing text ↔ text = [] := by
  constructor
  · intro here
    cases text with
    | nil => rfl
    | cons character _ => cases here character rfl
  · rintro rfl
    exact HeadIn.nil _

/-- A literal whose pattern grows would have read before the text was cut off. -/
theorem yields_of_grows (means : ∀ text, (meaning.value? text).isSome = true) (grows : pattern.Grows)
    (second : Rule) : (lexeme kind meaning pattern).Yields nothing second := by
  intro levels gone start token stop _ _ _ refused
  cases read : (lexeme kind meaning pattern).parse levels start with
  | none => rfl
  | some found =>
    have reads : (pattern.split start.rest).isSome = true := parse_heads levels _ _ _ read
    have longer : (pattern.split (start.extend gone).rest).isSome = true := grows _ gone reads
    obtain ⟨_, again⟩ : ∃ found, (lexeme kind meaning pattern).parse levels (start.extend gone) = some found :=
      reads_of_split means longer
    cases refused.symm.trans again

/-- The mark of a literal is not there where an integer ends the text. -/
theorem marks_yield {mark : UriChar → Bool} (marks : pattern.Marks mark) :
    ∀ second ∈ integers, (lexeme kind meaning pattern).Yields nothing second := by
  intro second member levels gone start token stop _ again here _
  obtain ⟨_, range, _, rfl, either⟩ := integers_form second member
  cases read : (lexeme kind meaning pattern).parse levels start with
  | none => rfl
  | some found =>
    obtain ⟨_, _, taken, _, _⟩ := parse_lexeme_iff.mp read
    obtain ⟨_, _, counted, _, _⟩ := parse_lexeme_iff.mp again
    obtain ⟨_, _, marked, _, _⟩ := marks _ _ _ (Pattern.parse_iff.mp taken).1
    rw [integer_counts either range _ _ _ (Pattern.parse_iff.mp counted).1, headIn_nothing_iff.mp here] at marked
    cases marked

/-- A literal that is all of a text is read before any character that may follow it. -/
theorem longer_of_takes {follow : UriChar → Bool} {levels : Nat} {start stop : Place} {token : Token}
    {gone : Text} (steady : pattern.steady = true) (takes : pattern.Takes follow)
    (read : (lexeme kind meaning pattern).parse levels start = some (token, stop)) (ends : stop.rest = [])
    (next : HeadIn follow gone) :
    ∃ found, (lexeme kind meaning pattern).parse levels (start.extend gone) = some found := by
  obtain ⟨text, value, taken, known, _⟩ := parse_lexeme_iff.mp read
  have all := (Pattern.parse_advances taken).rest
  rw [ends, List.append_nil] at all
  have spelled := mem_language_of_split steady (Pattern.parse_iff.mp taken).1
  have split : pattern.split (start.extend gone).rest = some (text, gone) := by
    rw [Place.extend, all]
    exact takes text spelled gone next
  obtain ⟨_, longer, _⟩ := parse_of_split split
  exact ⟨_, parse_lexeme_iff.mpr ⟨text, value, longer, known, rfl⟩⟩

section Integers

theorem integer_takes {leading : Pattern} (either : leading = optional sign ∨ leading = .empty)
    (range : IntegerRange) : (Pattern.integer leading range).Takes fun character => !character.isDigit := by
  have other : UriChar.Apart (fun character => !character.isDigit) UriChar.isDigit :=
    fun character accepted => by simpa using accepted
  have signs : UriChar.Apart digit.leads sign.leads := UriChar.apart_sign rfl rfl fun _ _ => rfl
  rcases either with rfl | rfl
  · refine takes_of_deterministic rfl ⟨⟨⟨sign_deterministic, rfl, .inr ?_⟩, trivial, rfl, .inr ?_⟩, rfl, other⟩
    · exact UriChar.Apart.or signs (UriChar.false_apart _)
    · exact UriChar.Apart.or (UriChar.false_apart _) other
  · refine takes_of_deterministic rfl ⟨⟨trivial, trivial, rfl, .inr ?_⟩, rfl, other⟩
    exact UriChar.Apart.or (UriChar.false_apart _) other

theorem head_of_integer {leading : Pattern} {range : IntegerRange} {text taken rest : Text}
    (read : (Pattern.integer leading range).split text = some (taken, rest)) :
    HeadIn (fun character => !character.isDigit) rest := by
  obtain ⟨_, _, _, _, ahead, _⟩ := split_seq_iff.mp read
  obtain ⟨none, _, rfl⟩ := split_notBefore_iff.mp ahead
  intro character first
  obtain ⟨tail, rfl⟩ := List.head?_eq_some_iff.mp first
  cases digits : character.isDigit with
  | false => simp only [digits, Bool.not_false]
  | true =>
    have reads : digit.split (character :: tail) = some ([character], tail) := if_pos digits
    cases none.symm.trans reads

/-- The same digits are read before any character that is no digit, so an integer does not come back. -/
theorem integers_yield : ∀ first ∈ integers, ∀ second ∈ integers, first.Yields nothing second := by
  intro first member second memberToo levels gone start token stop read again here refused
  obtain ⟨type, range, leading, rfl, either⟩ := integers_form first member
  obtain ⟨_, rangeToo, _, rfl, eitherToo⟩ := integers_form second memberToo
  cases back : (lexeme .literal (.integer type range) (Pattern.integer leading range)).parse levels start with
  | none => rfl
  | some found =>
    obtain ⟨_, _, taken, _, _⟩ := parse_lexeme_iff.mp back
    obtain ⟨_, _, whole, _, _⟩ := parse_lexeme_iff.mp again
    obtain ⟨_, _, front, _, _⟩ := parse_lexeme_iff.mp read
    -- Both integers end with the digits of the text, and that is where it was cut off.
    have ends : found.2.rest = [] := by
      rw [← integer_counts either range _ _ _ (Pattern.parse_iff.mp taken).1,
        integer_counts eitherToo rangeToo _ _ _ (Pattern.parse_iff.mp whole).1, headIn_nothing_iff.mp here]
    have next := head_of_integer (Pattern.parse_iff.mp front).1
    rw [Place.extend, headIn_nothing_iff.mp here, List.nil_append] at next
    have steady : (Pattern.integer leading range).steady = true := by rcases either with rfl | rfl <;> rfl
    obtain ⟨_, longer⟩ := longer_of_takes steady (integer_takes either range) back ends next
    cases refused.symm.trans longer

end Integers

section Order

theorem keyword_yields : ∀ first ∈ keywords, ∀ second, first.Yields nothing second := by
  simp only [keywords, List.forall_mem_cons]
  exact ⟨yields_of_grows (fun _ => rfl) (grows_of_grows rfl rfl),
    yields_of_grows (fun _ => rfl) (grows_of_grows rfl rfl), List.forall_mem_nil _⟩

theorem guid_yields (second : Rule) : guid.Yields nothing second :=
  yields_of_grows (fun _ => rfl) (grows_of_grows rfl rfl) second

theorem double_yields (second : Rule) : double.Yields nothing second :=
  yields_of_grows (fun _ => rfl) (grows_of_grows rfl rfl) second

theorem numeral_yields (leads : first.LeadsIn UriChar.isFloatingLead) (excludes : first.Excludes enumeration) :
    ∀ second ∈ string :: (prefixed ++ enumeration :: spatials), first.Yields nothing second := by
  have exclude := numerals_exclude leads
  simp only [List.forall_mem_cons, List.forall_mem_append] at exclude ⊢
  exact ⟨exclude.1.symm.yields _, fun second member => (exclude.2.1 second member).symm.yields _,
    excludes.symm.yields _, fun second member => (exclude.2.2 second member).symm.yields _⟩

theorem calendar_yields : ∀ first ∈ calendar,
    ∀ second ∈ floating ++ (integers ++ string :: (prefixed ++ enumeration :: spatials)),
      first.Yields nothing second := by
  have marks : ∀ first ∈ calendar, ∀ second ∈ integers, first.Yields nothing second := by
    simp only [calendar, List.forall_mem_cons]
    exact ⟨marks_yield date_marks, marks_yield dateTimeOffset_marks, marks_yield timeOfDay_marks,
      List.forall_mem_nil _⟩
  intro first member
  have named := excludes_enumeration first (by simp [member])
  rw [List.forall_mem_append, List.forall_mem_append]
  exact ⟨fun second memberToo => (calendar_excludes_floating first member second memberToo).symm.yields _,
    marks first member, numeral_yields (calendar_lead_floating first member) named⟩

theorem floating_yields : ∀ first ∈ floating,
    ∀ second ∈ integers ++ string :: (prefixed ++ enumeration :: spatials), first.Yields nothing second := by
  have named := excludes_enumeration decimal (by simp)
  have decimals := List.forall_mem_append.mpr
    ⟨marks_yield decimal_marks, numeral_yields (floating_of_numeral decimal_leads) named⟩
  simp only [floating, List.forall_mem_cons]
  exact ⟨decimals, fun second _ => double_yields second, fun second _ => (double_yields second).withType _,
    List.forall_mem_nil _⟩

/-- After the integers every literal excludes the ones behind it. -/
theorem string_pairwise : (string :: (prefixed ++ enumeration :: spatials)).Pairwise Rule.Excludes := by
  have named (rule : Rule) (member : rule ∈ string :: (prefixed ++ spatials)) : rule.Excludes enumeration :=
    excludes_enumeration rule (List.mem_cons_of_mem _ (List.mem_append_right _
      (List.mem_cons_of_mem _ (List.mem_append_right _ member))))
  have pairs := List.pairwise_cons.mpr ⟨string_excludes, prefixed_exclude⟩
  simp only [List.pairwise_cons, List.pairwise_append, List.forall_mem_append, List.forall_mem_cons]
    at named pairs ⊢
  obtain ⟨⟨prefixes, shapes⟩, pairs, shapePairs, cross⟩ := pairs
  exact ⟨⟨prefixes, named.1, shapes⟩, pairs, ⟨fun second member => (named.2.2 second member).symm, shapePairs⟩,
    fun first member => ⟨named.2.1 first member, cross first member⟩⟩

/-- A literal stays refused where a later one is cut off, unless it is a decimal before a floating point numeral. -/
def Cedes (first second : Rule) : Prop :=
  first.Yields nothing second ∨ first = decimal ∧ (second = double ∨ second = single)

theorem literals_cede :
    (keywords ++ guid :: (calendar ++ (floating ++ (integers ++ string ::
      (prefixed ++ enumeration :: spatials))))).Pairwise Cedes := by
  have afterString : (string :: (prefixed ++ enumeration :: spatials)).Pairwise Cedes :=
    string_pairwise.imp fun excludes => .inl (excludes.symm.yields nothing)
  have numbers : integers.Pairwise Cedes := List.pairwise_of_forall_mem_list fun first member second memberToo =>
    .inl (integers_yield first member second memberToo)
  have afterIntegers := List.pairwise_append.mpr ⟨numbers, afterString, fun first member second memberToo =>
    .inl (numeral_yields (integers_lead_floating first member)
      (excludes_enumeration first (by simp [member])) second memberToo)⟩
  have floats : floating.Pairwise Cedes := by
    simp only [floating, List.pairwise_cons, List.forall_mem_cons]
    exact ⟨⟨.inr ⟨rfl, .inl rfl⟩, .inr ⟨rfl, .inr rfl⟩, List.forall_mem_nil _⟩,
      ⟨.inl (double_yields _), List.forall_mem_nil _⟩, List.forall_mem_nil _, .nil⟩
  have afterFloating := List.pairwise_append.mpr ⟨floats, afterIntegers, fun first member second memberToo =>
    .inl (floating_yields first member second memberToo)⟩
  have dates : calendar.Pairwise Cedes := calendar_exclude.imp fun excludes => .inl (excludes.symm.yields nothing)
  have afterCalendar := List.pairwise_append.mpr ⟨dates, afterFloating, fun first member second memberToo =>
    .inl (calendar_yields first member second memberToo)⟩
  have afterGuid : (guid :: _).Pairwise Cedes :=
    List.pairwise_cons.mpr ⟨fun second _ => .inl (guid_yields second), afterCalendar⟩
  have words : keywords.Pairwise Cedes := List.pairwise_of_forall_mem_list fun first member second _ =>
    .inl (keyword_yields first member second)
  exact List.pairwise_append.mpr ⟨words, afterGuid, fun first member second _ =>
    .inl (keyword_yields first member second)⟩

end Order

end ODataLiteral.Grammar
