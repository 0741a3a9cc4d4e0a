import ODataLiteral.Grammar.Primitive
import ODataLiteral.Proofs.Rule.Precedence

/-! The order of the primitive literals. The literals fall into groups that mostly begin with different characters.
Where they do not, a literal excludes the later ones or does not end before them; only enumerations, whose type
name may go on where a keyword ends, are different. -/
namespace ODataLiteral

namespace UriChar

/-- The first characters of null and of the booleans. -/
def isKeywordLead : UriChar → Bool :=
  isPlain (Octet.oneOf "ntf")

/-- A sign or a digit. -/
def isNumeralLead (character : UriChar) : Bool :=
  character.isSign || character.isDigit

/-- A sign, a digit, or the first character of a number that is a word. -/
def isFloatingLead (character : UriChar) : Bool :=
  character.isNumeralLead || character.isPlain (Octet.oneOf "NI")

/-- The first characters of durations and binary data. -/
def isPrefixLead : UriChar → Bool :=
  isPlain (Octet.oneOf "db")

end UriChar

namespace Grammar

open Rule

def keywords : List Rule := [null, boolean]
def calendar : List Rule := [date, dateTimeOffset, timeOfDay]
def floating : List Rule := [decimal, double, single]
def integers : List Rule := [sbyte, byte, int16, int32, int64]
def prefixed : List Rule := [duration, binary]
def spatials : List Rule :=
  Shape.all.map (spatial .geography) ++ Shape.all.map (spatial .geometry)

section Leads

theorem keywords_lead : ∀ rule ∈ keywords, rule.LeadsIn UriChar.isKeywordLead := by
  simp only [keywords, List.forall_mem_cons]
  refine ⟨⟨rfl, fun _ => Pattern.accepts_of_word rfl⟩, ⟨rfl, fun character lead => ?_⟩, nofun⟩
  have lead : ((Pattern.word "true").leads character || (Pattern.word "false").leads character) = true := lead
  rcases Bool.or_eq_true_iff.mp lead with lead | lead
  · exact Pattern.accepts_of_word rfl lead
  · exact Pattern.accepts_of_word rfl lead

theorem guid_leads : guid.LeadsIn UriChar.isHexDigit := by
  refine ⟨rfl, fun character lead => ?_⟩
  have lead : Pattern.guid.leads character = true := lead
  rw [Pattern.guid] at lead
  iterate 8 rw [Pattern.leads_of_filled rfl] at lead
  exact lead

theorem floating_of_numeral {rule : Rule} (leads : rule.LeadsIn UriChar.isNumeralLead) :
    rule.LeadsIn UriChar.isFloatingLead :=
  leads.mono fun _ lead => by rw [UriChar.isFloatingLead, lead, Bool.true_or]

theorem numeralLead_of_digit {character : UriChar} (digit : character.isDigit = true) :
    character.isNumeralLead = true := by
  rw [UriChar.isNumeralLead, digit, Bool.or_true]

theorem year_leads {character : UriChar} (lead : Pattern.year.leads character = true) :
    character.isNumeralLead = true := by
  rcases Bool.or_eq_true_iff.mp lead with minus | digits
  · rw [UriChar.eq_plain minus]
    rfl
  · exact numeralLead_of_digit (Pattern.year_spells.leads (Bool.and_eq_true_iff.mp digits).2)

theorem calendar_leads : ∀ rule ∈ calendar, rule.LeadsIn UriChar.isNumeralLead := by
  simp only [calendar, List.forall_mem_cons]
  refine ⟨⟨rfl, fun character lead => ?_⟩, ⟨rfl, fun character lead => ?_⟩,
    ⟨rfl, fun character lead => ?_⟩, nofun⟩
  · have lead : Pattern.date.leads character = true := lead
    rw [Pattern.date, Pattern.leads_of_filled rfl, Pattern.yearMonthDay] at lead
    iterate 4 rw [Pattern.leads_of_filled rfl] at lead
    exact year_leads lead
  · have lead : Pattern.dateTimeOffset.leads character = true := lead
    rw [Pattern.dateTimeOffset] at lead
    iterate 3 rw [Pattern.leads_of_filled rfl] at lead
    rw [Pattern.yearMonthDay] at lead
    iterate 4 rw [Pattern.leads_of_filled rfl] at lead
    exact year_leads lead
  · have lead : Pattern.timeOfDay.leads character = true := lead
    rw [Pattern.timeOfDay] at lead
    iterate 3 rw [Pattern.leads_of_filled rfl] at lead
    exact numeralLead_of_digit (Pattern.hour_spells.leads lead)

theorem fraction_leads : Pattern.fraction.leads = UriChar.isNumeralLead := by
  rw [Pattern.fraction, Pattern.leads_of_filled rfl, Pattern.leads_of_filled rfl]
  rfl

theorem decimal_leads : decimal.LeadsIn UriChar.isNumeralLead := by
  refine ⟨rfl, fun character lead => ?_⟩
  have lead : Pattern.decimal.leads character = true := lead
  rwa [Pattern.decimal, Pattern.leads_of_filled rfl, fraction_leads] at lead

theorem double_leads : double.LeadsIn UriChar.isFloatingLead := by
  refine ⟨rfl, fun character lead => ?_⟩
  have lead : (Pattern.notANumberOrInfinity.leads character ||
      (Pattern.fraction ++ Pattern.optional Pattern.exponent).leads character) = true := lead
  rw [Pattern.leads_of_filled rfl, fraction_leads] at lead
  rcases Bool.or_eq_true_iff.mp lead with word | numeral
  · rcases Bool.or_eq_true_iff.mp word with first | others
    · exact Pattern.accepts_of_word rfl first
    · rcases Bool.or_eq_true_iff.mp others with second | third
      · exact Pattern.accepts_of_word rfl second
      · exact Pattern.accepts_of_word rfl third
  · rw [UriChar.isFloatingLead, numeral, Bool.true_or]

theorem floating_leads : ∀ rule ∈ floating, rule.LeadsIn UriChar.isFloatingLead := by
  simp only [floating, List.forall_mem_cons]
  exact ⟨floating_of_numeral decimal_leads, double_leads, ⟨rfl, double_leads.leads⟩, nofun⟩

theorem integers_lead : ∀ rule ∈ integers, rule.LeadsIn UriChar.isNumeralLead := by
  have signed (type : EdmType) (digits bits : Nat) :
      (signed type digits bits).LeadsIn UriChar.isNumeralLead := by
    refine ⟨rfl, fun character lead => ?_⟩
    have lead : (Pattern.signedInteger (.signed digits bits)).leads character = true := lead
    rwa [Pattern.signedInteger, Pattern.integer, Pattern.leads_of_filled rfl] at lead
  have byte : byte.LeadsIn UriChar.isNumeralLead := by
    refine ⟨rfl, fun character lead => ?_⟩
    have lead : (Pattern.unsignedInteger .octet).leads character = true := lead
    rw [Pattern.unsignedInteger, Pattern.integer, Pattern.leads_of_filled rfl] at lead
    exact numeralLead_of_digit lead
  simp only [integers, List.forall_mem_cons]
  exact ⟨signed _ _ _, byte, signed _ _ _, signed _ _ _, signed _ _ _, nofun⟩

theorem string_leads : string.LeadsIn (UriChar.isDelimiter '\'') := by
  refine ⟨rfl, fun character lead => ?_⟩
  have lead : Pattern.string.leads character = true := lead
  rwa [Pattern.string, Pattern.leads_of_filled rfl, Pattern.leads_of_filled rfl, Pattern.leads_of_filled rfl,
    Pattern.leads_of_filled rfl] at lead

theorem prefixed_lead : ∀ rule ∈ prefixed, rule.LeadsIn UriChar.isPrefixLead := by
  simp only [prefixed, List.forall_mem_cons]
  refine ⟨⟨rfl, fun character lead => ?_⟩, ⟨rfl, fun character lead => ?_⟩, nofun⟩
  · have lead : Pattern.duration.leads character = true := lead
    rw [Pattern.duration] at lead
    iterate 5 rw [Pattern.leads_of_filled rfl] at lead
    exact Pattern.accepts_of_word rfl lead
  · have lead : Pattern.binary.leads character = true := lead
    rw [Pattern.binary] at lead
    iterate 4 rw [Pattern.leads_of_filled rfl] at lead
    exact Pattern.accepts_of_word rfl lead

theorem enumeration_leads : enumeration.LeadsIn (UriChar.isPlain Octet.isNameStart) := by
  refine ⟨rfl, fun character lead => ?_⟩
  have lead : (Pattern.qualifiedName.leads character || false) = true := lead
  rwa [Bool.or_false, Pattern.qualifiedName, Pattern.leads_of_filled rfl, Pattern.identifier,
    Pattern.leads_of_filled rfl, Pattern.leads_of_filled rfl] at lead

theorem spatials_lead : ∀ rule ∈ spatials, rule.LeadsIn (UriChar.isPlain (· == 'g'.toUInt8)) := by
  have first (surface : Surface) (character : UriChar)
      (lead : ((surfacePrefix surface ++ Pattern.quote).leads character || false) = true) :
      character.isPlain (· == 'g'.toUInt8) = true := by
    cases surface with
    | geography | geometry =>
      rw [Bool.or_false, surfacePrefix, Pattern.leads_of_filled rfl] at lead
      have same := (congrFun (Pattern.leads_of_text _ _) character).symm.trans lead
      rw [beq_iff_eq.mp same]
      decide
  have steady (kind : Shape) :
      (spatial .geography kind).steady = true ∧ (spatial .geometry kind).steady = true := by
    cases kind <;> exact ⟨rfl, rfl⟩
  intro rule member
  simp only [spatials, List.mem_append, List.mem_map] at member
  rcases member with ⟨kind, _, rfl⟩ | ⟨kind, _, rfl⟩
  · exact ⟨(steady kind).1, first .geography⟩
  · exact ⟨(steady kind).2, first .geometry⟩

theorem calendar_lead_floating : ∀ rule ∈ calendar, rule.LeadsIn UriChar.isFloatingLead :=
  fun rule member => floating_of_numeral (calendar_leads rule member)

theorem integers_lead_floating : ∀ rule ∈ integers, rule.LeadsIn UriChar.isFloatingLead :=
  fun rule member => floating_of_numeral (integers_lead rule member)

end Leads

variable {kind : Kind} {meaning : Meaning} {pattern : Pattern}

section Numerals

/-- Integers differ in their type, their range and whether they may have a sign. -/
theorem integers_form : ∀ rule ∈ integers, ∃ type range leading,
    rule = lexeme .literal (.integer type range) (Pattern.integer leading range) ∧
      (leading = Pattern.optional Pattern.sign ∨ leading = .empty) := by
  simp only [integers, List.forall_mem_cons]
  exact ⟨⟨_, _, _, rfl, .inl rfl⟩, ⟨_, _, _, rfl, .inr rfl⟩, ⟨_, _, _, rfl, .inl rfl⟩,
    ⟨_, _, _, rfl, .inl rfl⟩, ⟨_, _, _, rfl, .inl rfl⟩, nofun⟩

theorem integer_counts {leading : Pattern} (either : leading = Pattern.optional Pattern.sign ∨ leading = .empty)
    (range : Pattern.IntegerRange) : (Pattern.integer leading range).Counts := by
  rcases either with rfl | rfl
  · exact Pattern.signedInteger_counts range
  · exact Pattern.unsignedInteger_counts range

/-- A literal with a mark after its digits ends after an integer. -/
theorem outlasts_integers {mark : UriChar → Bool} (marks : pattern.Marks mark) :
    ∀ second ∈ integers, (lexeme kind meaning pattern).Outlasts second := by
  intro second member
  obtain ⟨_, range, _, rfl, either⟩ := integers_form second member
  exact outlasts_of_patterns (marks.outlasts (integer_counts either range))

theorem integers_outlast : integers.Pairwise Outlasts := by
  refine List.pairwise_of_forall_mem_list ?_
  intro first member second memberToo
  obtain ⟨_, range, _, rfl, either⟩ := integers_form first member
  obtain ⟨_, rangeToo, _, rfl, eitherToo⟩ := integers_form second memberToo
  exact outlasts_of_patterns ((integer_counts either range).outlasts (integer_counts eitherToo rangeToo))

theorem floating_outlast : floating.Pairwise Outlasts := by
  have decimal_first : decimal.Outlasts double := outlasts_of_patterns Pattern.decimal_outlasts_double
  simp only [floating, List.pairwise_cons, List.forall_mem_cons]
  exact ⟨⟨decimal_first, decimal_first.withType, nofun⟩, ⟨(outlasts_refl double).withType, nofun⟩, nofun,
    .nil⟩

end Numerals

section Keywords

theorem null_excludes_boolean : null.Excludes boolean :=
  excludes_of_heads ((Pattern.words_exclude (by decide) (by decide)).alt
    (Pattern.words_exclude (by decide) (by decide)))

theorem keywords_exclude_guid : ∀ first ∈ keywords, first.Excludes guid := by
  simp only [keywords, List.forall_mem_cons]
  refine ⟨Excludes.symm (excludes_of_heads ?_), Excludes.symm (excludes_of_heads ?_), nofun⟩
  · exact Pattern.guid_excludes_word (Nat.zero_lt_succ 7) rfl rfl
  · refine Pattern.Excludes.alt ?_ ?_
    · exact Pattern.guid_excludes_word (Nat.zero_lt_succ 7) rfl rfl
    · exact Pattern.guid_excludes_word (show 2 < 8 by decide) rfl rfl

theorem guid_excludes_prefixed : ∀ second ∈ prefixed, guid.Excludes second := by
  have second {keyword : String} {character : UriChar}
      (here : (Text.ofWord keyword)[1]? = some character) (other : character.isHexDigit = false) :
      Pattern.guid.Excludes (Pattern.word keyword) :=
    Pattern.guid_excludes_word (by decide) here other
  simp only [prefixed, List.forall_mem_cons]
  refine ⟨excludes_of_heads ?_, excludes_of_heads ?_, nofun⟩
  · exact (second rfl rfl).front.front.front.front.front
  · exact (second rfl rfl).front.front.front.front

end Keywords

section Calendar

theorem date_marks : Pattern.date.Marks (UriChar.isPlain (· == '-'.toUInt8)) :=
  Pattern.yearMonthDay_marks.seq

theorem dateTimeOffset_marks :
    Pattern.dateTimeOffset.Marks (UriChar.isPlain (· == '-'.toUInt8)) :=
  Pattern.yearMonthDay_marks.seq.seq.seq

theorem decimal_marks : Pattern.decimal.Marks Pattern.isFloatingMark := by
  refine Pattern.Marks.seq (Pattern.fraction_marks.mono fun character point => ?_)
  rw [UriChar.eq_plain point]
  decide

/-- A date is followed by no `T`. -/
theorem date_excludes_dateTimeOffset : date.Excludes dateTimeOffset := by
  refine excludes_of_heads (Pattern.Excludes.front (Pattern.Excludes.front ?_))
  refine Pattern.Excludes.intro fun text _ _ _ _ read readToo => ?_
  obtain ⟨_, _, _, day, ahead, _⟩ := Pattern.split_seq_iff.mp read
  obtain ⟨_, _, _, dayToo, time, _⟩ := Pattern.split_seq_iff.mp readToo
  rw [day] at dayToo
  cases dayToo
  rw [(Pattern.split_notBefore_iff.mp ahead).1] at time
  cases time

theorem guid_excludes_calendar : ∀ second ∈ calendar, guid.Excludes second := by
  have apart : UriChar.Apart Pattern.isGuidMark (UriChar.isDelimiter ':') :=
    UriChar.apart_delimiter rfl fun _ _ => rfl
  simp only [calendar, List.forall_mem_cons]
  refine ⟨excludes_of_heads ?_, excludes_of_heads ?_, excludes_of_heads ?_, nofun⟩
  · exact Pattern.guid_excludes_yearMonthDay.front
  · exact Pattern.guid_excludes_yearMonthDay.front.front.front
  · exact Pattern.guid_marks.excludes Pattern.timeOfDay_marks apart

theorem calendar_exclude : calendar.Pairwise Excludes := by
  have apart : UriChar.Apart (UriChar.isPlain (· == '-'.toUInt8)) (UriChar.isDelimiter ':') :=
    UriChar.apart_delimiter rfl fun _ _ => rfl
  have date_timeOfDay : date.Excludes timeOfDay :=
    excludes_of_heads (date_marks.excludes Pattern.timeOfDay_marks apart)
  have dateTimeOffset_timeOfDay : dateTimeOffset.Excludes timeOfDay :=
    excludes_of_heads (dateTimeOffset_marks.excludes Pattern.timeOfDay_marks apart)
  simp only [calendar, List.pairwise_cons, List.forall_mem_cons]
  exact ⟨⟨date_excludes_dateTimeOffset, date_timeOfDay, nofun⟩, ⟨dateTimeOffset_timeOfDay, nofun⟩, nofun, .nil⟩

theorem excludes_floating {mark : UriChar → Bool} (marks : pattern.Marks mark)
    (apart : UriChar.Apart mark Pattern.isFloatingMark) :
    ∀ second ∈ floating, (lexeme kind meaning pattern).Excludes second := by
  have double : (lexeme kind meaning pattern).Excludes double :=
    excludes_of_heads (marks.excludes Pattern.double_marks apart)
  simp only [floating, List.forall_mem_cons]
  exact ⟨excludes_of_heads (marks.excludes decimal_marks apart), double,
    excludes_of_heads (marks.excludes Pattern.double_marks apart), nofun⟩

theorem guid_excludes_floating : ∀ second ∈ floating, guid.Excludes second :=
  excludes_floating Pattern.guid_marks (UriChar.apart_oneOf rfl)

theorem calendar_excludes_floating :
    ∀ first ∈ calendar, ∀ second ∈ floating, first.Excludes second := by
  have hyphen : UriChar.Apart (UriChar.isPlain (· == '-'.toUInt8)) Pattern.isFloatingMark :=
    UriChar.apart_oneOf rfl
  have colon : UriChar.Apart (UriChar.isDelimiter ':') Pattern.isFloatingMark :=
    UriChar.apart_oneOf rfl
  simp only [calendar, List.forall_mem_cons]
  exact ⟨excludes_floating date_marks hyphen, excludes_floating dateTimeOffset_marks hyphen,
    excludes_floating Pattern.timeOfDay_marks colon, nofun⟩

theorem calendar_outlast_integers :
    ∀ first ∈ calendar, ∀ second ∈ integers, first.Outlasts second := by
  simp only [calendar, List.forall_mem_cons]
  exact ⟨outlasts_integers date_marks, outlasts_integers dateTimeOffset_marks,
    outlasts_integers Pattern.timeOfDay_marks, nofun⟩

theorem floating_outlast_integers :
    ∀ first ∈ floating, ∀ second ∈ integers, first.Outlasts second := by
  have double : ∀ second ∈ integers, double.Outlasts second := outlasts_integers Pattern.double_marks
  simp only [floating, List.forall_mem_cons]
  exact ⟨outlasts_integers decimal_marks, double,
    fun second member => (double second member).ofWithType, nofun⟩

end Calendar

section Spatial

theorem name_injective (kind other : Shape)
    (front : Text.ofWord kind.name <+: Text.ofWord other.name) : kind = other := by
  revert front
  cases kind <;> cases other <;> decide

theorem name_of_shape {kind : Shape} {levels : Nat} {start : Place} {found : Token × Place}
    (read : (shape kind).parse levels start = some found) : Text.ofWord kind.name <+: start.rest := by
  obtain ⟨⟨_, rest⟩, one⟩ := Option.isSome_iff_exists.mp (parse_heads levels (shape kind) _ _ read)
  have list {text taken rest : Text} {keyword : Text}
      (read : (Pattern.text keyword ++ Pattern.plain '(').split text = some (taken, rest)) :
      keyword <+: text := by
    obtain ⟨_, middle, named, _⟩ := Pattern.front_of_seq read
    exact ⟨middle, (Pattern.split_text_iff.mp named).2.symm⟩
  cases kind with
  | lineString | point | polygon => exact ⟨rest, (Pattern.split_word_iff.mp one).2.symm⟩
  | collection | multiLineString | multiPoint | multiPolygon => exact list one

theorem shape_of_spatial {surface : Surface} {kind : Shape} {levels : Nat} {start : Place}
    {found : Token × Place} (read : (spatial surface kind).parse levels start = some found) :
    ∃ opening inner reference middle, (surfacePrefix surface ++ Pattern.quote).parse start =
        some (opening, inner) ∧ srid.parse levels inner = some (reference, middle) ∧
      Text.ofWord kind.name <+: middle.rest := by
  obtain ⟨_, _⟩ := found
  obtain ⟨_, read, _⟩ := parse_withType_iff.mp read
  obtain ⟨opening, inner, _, _, _, opened, read, _, _⟩ := Parser.enclosed_iff.mp read
  obtain ⟨_, left, reference, middle, _, right, _, before, referenced, between, drawn, _⟩ :=
    Parser.pair_iff.mp read
  cases before
  cases between
  exact ⟨opening, inner, reference, middle, opened, referenced, name_of_shape drawn⟩

/-- Literals of different shapes have different names after the same reference system. -/
theorem shapes_exclude (surface : Surface) {kind other : Shape} (different : kind ≠ other) :
    (spatial surface kind).Excludes (spatial surface other) := by
  refine Excludes.intro fun levels start found found' read readToo => ?_
  obtain ⟨_, _, _, _, opened, referenced, named⟩ := shape_of_spatial read
  obtain ⟨_, _, _, _, openedToo, referencedToo, namedToo⟩ := shape_of_spatial readToo
  rw [opened] at openedToo
  cases openedToo
  rw [referenced] at referencedToo
  cases referencedToo
  rcases List.prefix_or_prefix_of_prefix named namedToo with front | front
  · exact different (name_injective _ _ front)
  · exact different (name_injective _ _ front).symm

theorem surfaces_exclude (kind other : Shape) :
    (spatial .geography kind).Excludes (spatial .geometry other) := by
  refine excludes_of_heads (Pattern.Excludes.front (Pattern.Excludes.symm (Pattern.Excludes.front ?_)))
  exact Pattern.words_exclude (by decide) (by decide)

theorem spatials_exclude : spatials.Pairwise Excludes := by
  have different : Shape.all.Pairwise (· ≠ ·) := by decide
  have surface (surface : Surface) : (Shape.all.map (spatial surface)).Pairwise Excludes :=
    List.pairwise_map.mpr (different.imp (shapes_exclude surface))
  refine List.pairwise_append.mpr ⟨surface .geography, surface .geometry, ?_⟩
  intro first member second memberToo
  obtain ⟨kind, _, rfl⟩ := List.mem_map.mp member
  obtain ⟨other, _, rfl⟩ := List.mem_map.mp memberToo
  exact surfaces_exclude kind other

end Spatial

section Order

theorem numeral_apart_name : UriChar.Apart UriChar.isNumeralLead (UriChar.isPlain Octet.isNameStart) :=
  UriChar.apart_of_octets (by decide +kernel) fun _ _ => Bool.and_false _

/-- A name goes on with a dot, and no literal before the enumerations has one there. -/
theorem excludes_enumeration :
    ∀ rule ∈ guid :: (calendar ++ decimal :: (integers ++ string :: (prefixed ++ spatials))),
      rule.Excludes enumeration := by
  have quote : UriChar.Apart (UriChar.isPlain Octet.isNameStart) (UriChar.isDelimiter '\'') :=
    UriChar.apart_delimiter rfl fun _ _ => rfl
  simp only [List.forall_mem_cons, List.forall_mem_append]
  refine ⟨excludes_of_heads Pattern.guid_excludes_qualifiedName, ?_, ?_, ?_, ?_, ?_, ?_⟩
  · exact fun rule member => (calendar_leads rule member).excludes enumeration_leads numeral_apart_name
  · exact decimal_leads.excludes enumeration_leads numeral_apart_name
  · exact fun rule member => (integers_lead rule member).excludes enumeration_leads numeral_apart_name
  · exact string_leads.excludes enumeration_leads quote.symm
  · have quoted {keyword : String}
        (names : ∀ character ∈ Text.ofWord keyword, character.isNameChar = true) :=
      (Pattern.quoted_excludes_qualifiedName names).symm
    simp only [prefixed, List.forall_mem_cons]
    refine ⟨excludes_of_heads (Pattern.Excludes.symm ?_), excludes_of_heads (Pattern.Excludes.symm ?_),
      nofun⟩
    · exact (quoted (by decide)).front.front.front.front
    · exact (quoted (by decide)).front.front.front
  · have surface (surface : Surface) (kind : Shape) : (spatial surface kind).Excludes enumeration := by
      cases surface <;> exact excludes_of_heads (Pattern.quoted_excludes_qualifiedName (by decide))
    intro rule member
    rcases List.mem_append.mp member with member | member
    · obtain ⟨kind, _, rfl⟩ := List.mem_map.mp member
      exact surface .geography kind
    · obtain ⟨kind, _, rfl⟩ := List.mem_map.mp member
      exact surface .geometry kind

theorem outlast_of_leads {group later : List Rule} {accepts other : UriChar → Bool}
    (leads : ∀ rule ∈ group, rule.LeadsIn accepts) (leadsToo : ∀ rule ∈ later, rule.LeadsIn other)
    (apart : UriChar.Apart accepts other) : ∀ first ∈ group, ∀ second ∈ later, first.Outlasts second :=
  fun first member second memberToo =>
    ((leads first member).excludes (leadsToo second memberToo) apart).outlasts

theorem floating_apart_keyword : UriChar.Apart UriChar.isFloatingLead UriChar.isKeywordLead :=
  UriChar.apart_oneOf rfl

theorem keywords_outlast :
    ∀ first ∈ keywords, ∀ second ∈ calendar ++ (floating ++ (integers ++ string :: (prefixed ++ spatials))),
      first.Outlasts second := by
  have quote : UriChar.Apart UriChar.isKeywordLead (UriChar.isDelimiter '\'') :=
    UriChar.apart_delimiter rfl fun _ _ => rfl
  have prefixes : UriChar.Apart UriChar.isKeywordLead UriChar.isPrefixLead := UriChar.apart_oneOf rfl
  have spatial : UriChar.Apart UriChar.isKeywordLead (UriChar.isPlain (· == 'g'.toUInt8)) :=
    UriChar.apart_plain rfl
  intro first member
  simp only [List.forall_mem_append, List.forall_mem_cons]
  exact ⟨outlast_of_leads keywords_lead calendar_lead_floating floating_apart_keyword.symm first member,
    outlast_of_leads keywords_lead floating_leads floating_apart_keyword.symm first member,
    outlast_of_leads keywords_lead integers_lead_floating floating_apart_keyword.symm first member,
    ((keywords_lead first member).excludes string_leads quote).outlasts,
    outlast_of_leads keywords_lead prefixed_lead prefixes first member,
    outlast_of_leads keywords_lead spatials_lead spatial first member⟩

theorem floating_apart_quote : UriChar.Apart UriChar.isFloatingLead (UriChar.isDelimiter '\'') := by
  refine UriChar.apart_delimiter rfl fun high low => ?_
  have plus := UriChar.encoded_apart (show '+'.toUInt8 ≠ '\''.toUInt8 by decide) high low
  simpa [UriChar.isFloatingLead, UriChar.isNumeralLead, UriChar.isSign, UriChar.isDelimiter,
    UriChar.isPlain, UriChar.isDigit] using plus

theorem floating_apart_prefix : UriChar.Apart UriChar.isFloatingLead UriChar.isPrefixLead :=
  UriChar.apart_oneOf rfl

theorem floating_apart_spatial : UriChar.Apart UriChar.isFloatingLead (UriChar.isPlain (· == 'g'.toUInt8)) :=
  UriChar.apart_plain rfl

theorem numerals_exclude {rule : Rule} (leads : rule.LeadsIn UriChar.isFloatingLead) :
    ∀ second ∈ string :: (prefixed ++ spatials), rule.Excludes second := by
  simp only [List.forall_mem_append, List.forall_mem_cons]
  exact ⟨leads.excludes string_leads floating_apart_quote,
    fun second member => leads.excludes (prefixed_lead second member) floating_apart_prefix,
    fun second member => leads.excludes (spatials_lead second member) floating_apart_spatial⟩

theorem guid_outlasts :
    ∀ second ∈ calendar ++ (floating ++ (integers ++ string :: (prefixed ++ spatials))),
      guid.Outlasts second := by
  have quote : UriChar.Apart UriChar.isHexDigit (UriChar.isDelimiter '\'') :=
    UriChar.apart_delimiter rfl fun _ _ => rfl
  have spatial : UriChar.Apart UriChar.isHexDigit (UriChar.isPlain (· == 'g'.toUInt8)) :=
    UriChar.apart_plain rfl
  simp only [List.forall_mem_append, List.forall_mem_cons]
  exact ⟨fun second member => (guid_excludes_calendar second member).outlasts,
    fun second member => (guid_excludes_floating second member).outlasts,
    outlasts_integers Pattern.guid_marks,
    (guid_leads.excludes string_leads quote).outlasts,
    fun second member => (guid_excludes_prefixed second member).outlasts,
    fun second member => (guid_leads.excludes (spatials_lead second member) spatial).outlasts⟩

theorem string_excludes : ∀ second ∈ prefixed ++ spatials, string.Excludes second := by
  have prefixes : UriChar.Apart (UriChar.isDelimiter '\'') UriChar.isPrefixLead :=
    UriChar.apart_oneOf rfl
  have spatial : UriChar.Apart (UriChar.isDelimiter '\'') (UriChar.isPlain (· == 'g'.toUInt8)) :=
    UriChar.apart_plain rfl
  simp only [List.forall_mem_append]
  exact ⟨fun second member => string_leads.excludes (prefixed_lead second member) prefixes,
    fun second member => string_leads.excludes (spatials_lead second member) spatial⟩

theorem prefixed_exclude : (prefixed ++ spatials).Pairwise Excludes := by
  have keyword : (Pattern.word "binary").Excludes (Pattern.word "duration") :=
    Pattern.words_exclude (by decide) (by decide)
  have words : duration.Excludes binary :=
    excludes_of_heads keyword.front.front.front.front.front.symm.front.front.front.front
  have spatial : UriChar.Apart UriChar.isPrefixLead (UriChar.isPlain (· == 'g'.toUInt8)) :=
    UriChar.apart_plain rfl
  have each : prefixed.Pairwise Excludes := by
    simp only [prefixed, List.pairwise_cons, List.forall_mem_cons]
    exact ⟨⟨words, nofun⟩, nofun, .nil⟩
  exact List.pairwise_append.mpr ⟨each, spatials_exclude, fun first member second memberToo =>
    (prefixed_lead first member).excludes (spatials_lead second memberToo) spatial⟩

theorem literals_outlast :
    (keywords ++ guid :: (calendar ++ (floating ++ (integers ++ string :: (prefixed ++ spatials))))).Pairwise
      Outlasts := by
  have words : keywords.Pairwise Outlasts := by
    simp only [keywords, List.pairwise_cons, List.forall_mem_cons]
    exact ⟨⟨null_excludes_boolean.outlasts, nofun⟩, nofun, .nil⟩
  have numerals {rule : Rule} (leads : rule.LeadsIn UriChar.isFloatingLead) :
      ∀ second ∈ string :: (prefixed ++ spatials), rule.Outlasts second :=
    fun second member => (numerals_exclude leads second member).outlasts
  have afterString := (List.pairwise_cons.mpr ⟨string_excludes, prefixed_exclude⟩).imp Excludes.outlasts
  have afterIntegers := List.pairwise_append.mpr ⟨integers_outlast, afterString,
    fun first member => numerals (integers_lead_floating first member)⟩
  have afterFloating := List.pairwise_append.mpr ⟨floating_outlast, afterIntegers, fun first member =>
    List.forall_mem_append.mpr ⟨floating_outlast_integers first member,
      numerals (floating_leads first member)⟩⟩
  have afterCalendar := List.pairwise_append.mpr ⟨calendar_exclude.imp Excludes.outlasts, afterFloating,
    fun first member => List.forall_mem_append.mpr
      ⟨fun second memberToo => (calendar_excludes_floating first member second memberToo).outlasts,
        List.forall_mem_append.mpr ⟨calendar_outlast_integers first member,
          numerals (calendar_lead_floating first member)⟩⟩⟩
  have afterGuid := List.pairwise_cons.mpr ⟨guid_outlasts, afterCalendar⟩
  exact List.pairwise_append.mpr ⟨words, afterGuid, fun first member =>
    List.forall_mem_cons.mpr
      ⟨(keywords_exclude_guid first member).outlasts, keywords_outlast first member⟩⟩

end Order

section Overtaken

variable {levels : Nat} {start stop stop' : Place} {token token' : Token}

/-- The type name of an enumeration ends after a keyword that it begins with, and so does the enumeration. -/
theorem enumeration_overtakes {keyword : String}
    (names : ∀ character ∈ Text.ofWord keyword, character.isNameChar = true)
    (on : start.Advances (Text.ofWord keyword) stop)
    (read : enumeration.parse levels start = some (token, stop')) : stop.offset < stop'.offset := by
  obtain ⟨_, after, _, _, _, _, named, opened, run, _, _⟩ := Parser.enumeration_iff.mp read
  obtain ⟨_, further⟩ := (Parser.items_of_itemsWithin run).advances (parse_forward levels enumMember)
  have onward := (Pattern.parse_advances opened).trans further
  obtain ⟨tail, dot, short⟩ := Pattern.dropWhile_of_qualifiedName (Pattern.parse_iff.mp named).1
  rw [on.rest, List.dropWhile_append_of_pos names] at dot
  have long := (List.dropWhile_sublist (l := stop.rest) UriChar.isNameChar).length_le
  rw [dot, List.length_cons] at long
  have order := on.offset_le_iff (Pattern.parse_advances named)
  have further := onward.offset
  omega

theorem keyword_of_null (read : null.parse levels start = some (token, stop)) :
    start.Advances (Text.ofWord "null") stop := by
  obtain ⟨_, _, spelled, _, _⟩ := parse_lexeme_iff.mp read
  obtain ⟨rfl, _⟩ := Pattern.split_word_iff.mp (Pattern.parse_iff.mp spelled).1
  exact Pattern.parse_advances spelled

theorem keyword_of_boolean (read : boolean.parse levels start = some (token, stop)) :
    start.Advances (Text.ofWord "true") stop ∨ start.Advances (Text.ofWord "false") stop := by
  obtain ⟨_, _, spelled, _, _⟩ := parse_lexeme_iff.mp read
  have on := Pattern.parse_advances spelled
  rcases Pattern.split_alt_iff.mp (Pattern.parse_iff.mp spelled).1 with word | ⟨_, word⟩
  · obtain ⟨rfl, _⟩ := Pattern.split_word_iff.mp word
    exact .inl on
  · obtain ⟨rfl, _⟩ := Pattern.split_word_iff.mp word
    exact .inr on

theorem keyword_of_double (read : double.parse levels start = some (token, stop))
    (named : enumeration.parse levels start = some (token', stop')) :
    start.Advances (Text.ofWord "NaN") stop ∨ start.Advances (Text.ofWord "INF") stop := by
  obtain ⟨character, rest, same, name⟩ :=
    (parse_begins levels enumeration_leads.steady _ _ _ named).mono enumeration_leads.leads
  obtain ⟨text, _, spelled, _, _⟩ := parse_lexeme_iff.mp read
  have on := Pattern.parse_advances spelled
  rcases Pattern.split_alt_iff.mp (Pattern.parse_iff.mp spelled).1 with word | ⟨_, number⟩
  · rcases Pattern.split_alt_iff.mp word with word | ⟨_, word⟩
    · obtain ⟨rfl, _⟩ := Pattern.split_word_iff.mp word
      exact .inl on
    · rcases Pattern.split_alt_iff.mp word with word | ⟨_, word⟩
      · obtain ⟨_, spelledSo⟩ := Pattern.split_word_iff.mp word
        rw [same] at spelledSo
        cases spelledSo
        exact absurd name (by decide)
      · obtain ⟨rfl, _⟩ := Pattern.split_word_iff.mp word
        exact .inr on
  · obtain ⟨_, _, fraction, _⟩ := Pattern.front_of_seq number
    obtain ⟨lead, taken, rfl⟩ := List.exists_cons_of_ne_nil (Pattern.ne_nil_of_split rfl fraction)
    have whole := Pattern.split_append fraction
    rw [same] at whole
    cases whole
    have numeral := Pattern.leads_of_split rfl fraction
    rw [fraction_leads, numeral_apart_name.symm _ name] at numeral
    cases numeral

end Overtaken

end Grammar

end ODataLiteral
