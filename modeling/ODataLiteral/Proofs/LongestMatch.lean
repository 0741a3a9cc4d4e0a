import Mathlib.Data.List.Nodup
import ODataLiteral.Proofs.Contract
import ODataLiteral.Proofs.Literal.Precedence

/-! The first primitive literal that reads is the longest one, except that an enumeration goes on where its type
name only begins with a keyword. So a literal that takes the source as a whole is found, unless a keyword
is in the way. -/
namespace ODataLiteral

section Table

variable {table : Table} {source : Bytes} {offset : Nat} {name : String} {token : Token}

theorem firstMatch?_iff :
    table.firstMatch? source offset = some (name, token) ↔
      ∃ before alternative after, table = before ++ alternative :: after ∧ alternative.name = name ∧
        alternative.rule.tokenAt? source offset = some token ∧
        ∀ earlier ∈ before, earlier.rule.tokenAt? source offset = none := by
  simp only [Table.firstMatch?, List.findSome?_eq_some_iff, Option.map_eq_some_iff,
    Option.map_eq_none_iff, Prod.mk.injEq]
  constructor
  · rintro ⟨before, alternative, after, same, ⟨_, found, rfl, rfl⟩, none⟩
    exact ⟨before, alternative, after, same, rfl, found, none⟩
  · rintro ⟨before, alternative, after, same, rfl, found, none⟩
    exact ⟨before, alternative, after, same, ⟨token, found, rfl, rfl⟩, none⟩

theorem tokenAt?_rule (steady : table.rule.steady = true) (fits : table.rule.Fits) :
    table.rule.tokenAt? source offset = (table.firstMatch? source offset).map (·.2) := by
  induction table with
  | nil => exact Rule.tokenAt?_eq steady fits
  | cons alternative table ih =>
    have both : alternative.rule.steady = true ∧ (Table.rule table).steady = true := by
      simpa [Table.rule, Rule.steady] using steady
    have either : (Table.rule (alternative :: table)).tokenAt? source offset =
        (alternative.rule.tokenAt? source offset).or ((Table.rule table).tokenAt? source offset) := by
      rw [Rule.tokenAt?_eq steady fits, Rule.tokenAt?_eq both.1 fits.1, Rule.tokenAt?_eq both.2 fits.2,
        Rule.find?, Rule.find?, Rule.find?, ← Option.map_or]
      rfl
    rw [either, ih both.2 fits.2, Table.firstMatch?, Table.firstMatch?, List.findSome?_cons]
    cases alternative.rule.tokenAt? source offset <;> rfl

theorem exists_firstMatch? {alternative : Alternative} (member : alternative ∈ table)
    (found : alternative.rule.tokenAt? source offset = some token) :
    ∃ name first, table.firstMatch? source offset = some (name, first) := by
  have reads : (table.firstMatch? source offset).isSome = true := by
    rw [Table.firstMatch?, List.findSome?_isSome_iff]
    exact ⟨alternative, member, by rw [found]; rfl⟩
  obtain ⟨⟨name, first⟩, same⟩ := Option.isSome_iff_exists.mp reads
  exact ⟨name, first, same⟩

end Table

namespace Rule

theorem complete_iff {rule : Rule} {source : Bytes} {token : Token} :
    rule.complete source = .ok token ↔
      rule.tokenAt? source 0 = some token ∧ token.span.stop = source.length := by
  rw [complete]
  cases rule.tokenAt? source 0 with
  | none => simp
  | some found =>
    by_cases ends : found.span.stop = source.length
    · simp only [if_pos ends, Except.ok.injEq, Option.some.injEq]
      exact ⟨fun same => ⟨same, same ▸ ends⟩, And.left⟩
    · simp only [if_neg ends, Option.some.injEq]
      exact ⟨nofun, fun both => absurd (both.1 ▸ both.2) ends⟩

theorem reads_of_split {levels : Nat} {start : Place} {kind : Kind} {meaning : Meaning}
    {pattern : Pattern} (means : ∀ text, (meaning.value? text).isSome = true)
    (reads : (pattern.split start.rest).isSome = true) :
    ∃ found, (lexeme kind meaning pattern).parse levels start = some found := by
  obtain ⟨⟨text, rest⟩, read⟩ := Option.isSome_iff_exists.mp reads
  obtain ⟨value, means⟩ := Option.isSome_iff_exists.mp (means text)
  have taken : pattern.parse start = some (text, { offset := start.offset + text.width, rest }) :=
    Pattern.parse_iff.mpr ⟨read, rfl⟩
  exact ⟨_, parse_lexeme_iff.mpr ⟨text, value, taken, means, rfl⟩⟩

end Rule

namespace Grammar

section Primitive

variable {source : Bytes} {offset : Nat} {name : String} {token : Token} {alternative : Alternative}

theorem primitiveTable_steady : ∀ alternative ∈ primitiveTable, alternative.rule.steady = true := by
  decide

theorem alternative_tokenAt?_iff (member : alternative ∈ primitiveTable) :
    alternative.rule.tokenAt? source offset = some token ↔
      ∃ stop, alternative.rule.parse maxDepth (Place.ofSource source offset) = some (token, stop) :=
  Rule.tokenAt?_iff (primitiveTable_steady _ member) (primitiveTable_fits _ member)

theorem primitiveLiteral_tokenAt? :
    primitiveLiteral.tokenAt? source offset =
      (primitiveTable.firstMatch? source offset).map (·.2) := by
  have member : primitiveLiteral ∈ catalogue := by simp [catalogue, primitiveCatalogue]
  exact tokenAt?_rule (catalogue_steady _ member) (catalogue_fits _ member)

theorem primitiveTable_outlast :
    primitiveTable.Pairwise fun first second =>
      second.name ≠ "enum" → first.rule.Outlasts second.rule := by
  have parts : primitiveTable =
      primitiveTable.take 17 ++ ⟨"enum", enumeration⟩ :: primitiveTable.drop 18 := rfl
  have rules : (primitiveTable.take 17 ++ primitiveTable.drop 18).map (·.rule) =
      keywords ++ guid :: (calendar ++ (floating ++ (integers ++ string :: (prefixed ++ spatials)))) :=
    rfl
  have last : (primitiveTable.drop 18).map (·.rule) = spatials := rfl
  have outlast := literals_outlast
  rw [← rules, List.pairwise_map, List.pairwise_append] at outlast
  obtain ⟨front, back, cross⟩ := outlast
  have weaken (first second : Alternative) (outlasts : first.rule.Outlasts second.rule)
      (_ : second.name ≠ "enum") : first.rule.Outlasts second.rule := outlasts
  rw [parts, List.pairwise_append, List.pairwise_cons]
  refine ⟨?_, ⟨?_, ?_⟩, ?_⟩
  · exact List.Pairwise.imp (weaken _ _) front
  · intro second member _
    have spatial : second.rule ∈ spatials := last ▸ List.mem_map_of_mem member
    exact (excludes_enumeration _ (by simp [spatial])).symm.outlasts
  · exact List.Pairwise.imp (weaken _ _) back
  · intro first member second memberToo other
    rcases List.mem_cons.mp memberToo with rfl | memberToo
    · exact absurd rfl other
    · exact cross first member second memberToo

theorem name_of_enumeration (member : alternative ∈ primitiveTable) {levels : Nat} {start : Place}
    {found found' : Token × Place} (read : alternative.rule.parse levels start = some found)
    (readToo : enumeration.parse levels start = some found') :
    alternative.name ∈ ["nullValue", "booleanValue", "doubleValue", "singleValue", "enum"] := by
  have rules : (primitiveTable.filter fun alternative => !alternative.name ∈
      ["nullValue", "booleanValue", "doubleValue", "singleValue", "enum"]).map (·.rule) =
      guid :: (calendar ++ decimal :: (integers ++ string :: (prefixed ++ spatials))) := rfl
  by_contra other
  have excluded := excludes_enumeration alternative.rule (by
    rw [← rules]
    exact List.mem_map_of_mem (List.mem_filter.mpr ⟨member, by simpa using other⟩))
  rw [excluded _ _ _ read] at readToo
  cases readToo

theorem eq_of_name {other : Alternative} (member : alternative ∈ primitiveTable)
    (memberToo : other ∈ primitiveTable) (same : alternative.name = other.name) : alternative = other :=
  List.inj_on_of_nodup_map (show (primitiveTable.map (·.name)).Nodup by decide) member memberToo same

theorem stop_le_of_firstMatch? {other : Token}
    (first : primitiveTable.firstMatch? source offset = some (name, token))
    (member : alternative ∈ primitiveTable)
    (found : alternative.rule.tokenAt? source offset = some other) (notEnum : alternative.name ≠ "enum") :
    other.span.stop ≤ token.span.stop := by
  obtain ⟨before, winner, after, parts, rfl, won, lost⟩ := firstMatch?_iff.mp first
  have outlast := primitiveTable_outlast
  rw [parts, List.pairwise_append, List.pairwise_cons] at outlast
  have winnerMember : winner ∈ primitiveTable := by simp [parts]
  obtain ⟨stop, read⟩ := (alternative_tokenAt?_iff winnerMember).mp won
  obtain ⟨stop', read'⟩ := (alternative_tokenAt?_iff member).mp found
  rw [Rule.parse_spans _ _ _ _ _ read, Rule.parse_spans _ _ _ _ _ read']
  rw [parts, List.mem_append, List.mem_cons] at member
  rcases member with earlier | rfl | later
  · rw [lost _ earlier] at found
    cases found
  · rw [read] at read'
    cases read'
    exact Nat.le_refl _
  · exact outlast.2.1.1 _ later notEnum _ _ _ _ _ _ read read'

theorem winner_of_front {front back : Table} {other : Token} (parts : primitiveTable = front ++ back)
    (member : alternative ∈ front) (found : alternative.rule.tokenAt? source offset = some other)
    (first : primitiveTable.firstMatch? source offset = some (name, token)) :
    ∃ winner ∈ front, winner.name = name := by
  obtain ⟨before, winner, after, same, rfl, won, lost⟩ := firstMatch?_iff.mp first
  refine ⟨winner, ?_, rfl⟩
  rcases List.append_eq_append_iff.mp (parts.symm.trans same) with ⟨gap, rfl, _⟩ | ⟨gap, rfl, rest⟩
  · -- All of the front stands before the winner, where every alternative is refused.
    rw [lost _ (List.mem_append_left _ member)] at found
    cases found
  · rcases List.mem_append.mp member with earlier | inside
    · rw [lost _ earlier] at found
      cases found
    · cases gap with
      | nil => cases inside
      | cons head tail =>
        cases rest
        simp

/-- The literals that an enumeration goes on after, each with the text that it has then. -/
def overtaken : List (String × String) :=
  [("nullValue", "null"), ("booleanValue", "true"), ("booleanValue", "false"), ("doubleValue", "NaN"),
   ("doubleValue", "INF")]

theorem overtaken_names : ∀ pair ∈ overtaken,
    ∀ character ∈ Text.ofWord pair.2, character.isNameChar = true := by
  decide

theorem overtaken_width : ∀ pair ∈ overtaken, Text.width (Text.ofWord pair.2) = pair.2.length := by
  decide

theorem overtaken_legible : ∀ pair ∈ overtaken, (Text.ofWord pair.2).Legible := by
  decide

theorem overtaken_apart : ∀ pair ∈ overtaken, ∀ other ∈ overtaken,
    Text.ofWord pair.2 <+: Text.ofWord other.2 → pair.2 = other.2 := by
  decide

/-- A literal in the place of an enumeration is one of few, and no single: every single is also a double. -/
theorem name_of_overtaken {other : Token}
    (first : primitiveTable.firstMatch? source offset = some (name, token))
    (found : enumeration.tokenAt? source offset = some other) :
    name ∈ ["nullValue", "booleanValue", "doubleValue", "enum"] := by
  obtain ⟨before, winner, after, parts, rfl, won, lost⟩ := firstMatch?_iff.mp first
  have member : winner ∈ primitiveTable := by simp [parts]
  have enumMember : (⟨"enum", enumeration⟩ : Alternative) ∈ primitiveTable := by simp [primitiveTable]
  obtain ⟨stop, read⟩ := (alternative_tokenAt?_iff member).mp won
  obtain ⟨_, named⟩ := (alternative_tokenAt?_iff enumMember).mp found
  have few := name_of_enumeration member read named
  by_cases isSingle : winner.name = "singleValue"
  · -- The double before it reads the same text, so a single never wins.
    have singleMember : (⟨"singleValue", single⟩ : Alternative) ∈ primitiveTable := by simp [primitiveTable]
    have doubleMember : (⟨"doubleValue", double⟩ : Alternative) ∈ primitiveTable.take 8 :=
      List.mem_of_getElem? (show (primitiveTable.take 8)[7]? = _ from rfl)
    obtain rfl := eq_of_name member singleMember isSingle
    obtain ⟨child, read, _⟩ := Rule.parse_withType_iff.mp read
    have double := (alternative_tokenAt?_iff (List.mem_of_mem_take doubleMember)).mpr ⟨stop, read⟩
    obtain ⟨other, inFront, same⟩ :=
      winner_of_front (List.take_append_drop 8 _).symm doubleMember double first
    have no : ∀ alternative ∈ primitiveTable.take 8, alternative.name ≠ "singleValue" := by decide
    exact absurd same (no other inFront)
  · simpa [isSingle] using few

theorem overtaken_of_name {stop stop' : Place} {other : Token} {start : Place} {levels : Nat}
    (member : alternative ∈ primitiveTable)
    (few : alternative.name ∈ ["nullValue", "booleanValue", "doubleValue"])
    (read : alternative.rule.parse levels start = some (token, stop))
    (named : enumeration.parse levels start = some (other, stop')) :
    ∃ keyword, (alternative.name, keyword) ∈ overtaken ∧ start.Advances (Text.ofWord keyword) stop ∧
      stop.offset < stop'.offset := by
  have spelled : ∃ keyword, (alternative.name, keyword) ∈ overtaken ∧
      start.Advances (Text.ofWord keyword) stop := by
    simp only [List.mem_cons, List.not_mem_nil, or_false] at few
    rcases few with isNull | isBoolean | isDouble
    · obtain rfl := eq_of_name member (show ⟨"nullValue", null⟩ ∈ _ by simp [primitiveTable]) isNull
      exact ⟨"null", by decide, keyword_of_null read⟩
    · obtain rfl := eq_of_name member (show ⟨"booleanValue", boolean⟩ ∈ _ by simp [primitiveTable])
        isBoolean
      rcases keyword_of_boolean read with on | on
      · exact ⟨"true", by decide, on⟩
      · exact ⟨"false", by decide, on⟩
    · obtain rfl := eq_of_name member (show ⟨"doubleValue", double⟩ ∈ _ by simp [primitiveTable])
        isDouble
      rcases keyword_of_double read named with on | on
      · exact ⟨"NaN", by decide, on⟩
      · exact ⟨"INF", by decide, on⟩
  obtain ⟨keyword, known, on⟩ := spelled
  exact ⟨keyword, known, on, enumeration_overtakes (overtaken_names _ known) on named⟩

theorem overtaken_of_firstMatch? {other : Token}
    (first : primitiveTable.firstMatch? source offset = some (name, token))
    (found : enumeration.tokenAt? source offset = some other) (notEnum : name ≠ "enum") :
    ∃ keyword stop, (name, keyword) ∈ overtaken ∧
      (Place.ofSource source offset).Advances (Text.ofWord keyword) stop ∧
      token.span = { start := offset, stop := stop.offset } ∧ stop.offset < other.span.stop := by
  have few := name_of_overtaken first found
  obtain ⟨before, winner, after, parts, rfl, won, lost⟩ := firstMatch?_iff.mp first
  have member : winner ∈ primitiveTable := by simp [parts]
  have enumMember : (⟨"enum", enumeration⟩ : Alternative) ∈ primitiveTable := by simp [primitiveTable]
  obtain ⟨stop, read⟩ := (alternative_tokenAt?_iff member).mp won
  obtain ⟨stop', named⟩ := (alternative_tokenAt?_iff enumMember).mp found
  obtain ⟨keyword, known, on, further⟩ :=
    overtaken_of_name member (by simpa [notEnum] using few) read named
  refine ⟨keyword, stop, known, on, Rule.parse_spans _ _ _ _ _ read, ?_⟩
  rw [Rule.parse_spans _ _ _ _ _ named]
  exact further

theorem stop_lt_iff {other : Token}
    (first : primitiveTable.firstMatch? source offset = some (name, token))
    (member : alternative ∈ primitiveTable)
    (found : alternative.rule.tokenAt? source offset = some other) :
    token.span.stop < other.span.stop ↔ alternative.name = "enum" ∧
      ∃ keyword, (name, keyword) ∈ overtaken ∧
        source.slice token.span.start token.span.stop = Text.bytes (Text.ofWord keyword) := by
  by_cases isEnum : alternative.name = "enum"
  · have enumMember : (⟨"enum", enumeration⟩ : Alternative) ∈ primitiveTable := by simp [primitiveTable]
    obtain rfl := eq_of_name member enumMember isEnum
    by_cases isEnumToo : name = "enum"
    · obtain ⟨before, winner, after, parts, same, won, lost⟩ := firstMatch?_iff.mp first
      obtain rfl := eq_of_name (by simp [parts]) enumMember (same.trans isEnumToo)
      rw [won] at found
      cases found
      refine ⟨fun less => absurd less (Nat.lt_irrefl _), ?_⟩
      rintro ⟨_, keyword, known, _⟩
      simp [overtaken, isEnumToo] at known
    · obtain ⟨keyword, stop, known, on, span, further⟩ := overtaken_of_firstMatch? first found isEnumToo
      rw [span]
      exact ⟨fun _ => ⟨rfl, keyword, known, Place.slice_of_advances on⟩, fun _ => further⟩
  · have shorter := stop_le_of_firstMatch? first member found isEnum
    exact ⟨fun less => absurd shorter (Nat.not_le_of_lt less), fun both => absurd both.1 isEnum⟩

theorem reads_of_keyword {keyword : String} (known : (name, keyword) ∈ overtaken) {levels : Nat}
    {start : Place} {rest : Text} (stands : start.rest = Text.ofWord keyword ++ rest) :
    ∃ alternative ∈ primitiveTable.take 8, ∃ found, alternative.rule.parse levels start = some found := by
  have word : ((Pattern.word keyword).split start.rest).isSome = true := by
    rw [Pattern.split_word_iff.mpr ⟨rfl, stands⟩, Option.isSome_some]
  have nullMember : ⟨"nullValue", null⟩ ∈ primitiveTable.take 8 := .head _
  have booleanMember : ⟨"booleanValue", boolean⟩ ∈ primitiveTable.take 8 := .tail _ (.head _)
  have doubleMember : ⟨"doubleValue", double⟩ ∈ primitiveTable.take 8 :=
    List.mem_of_getElem? (show (primitiveTable.take 8)[7]? = _ from rfl)
  simp only [overtaken, List.mem_cons, Prod.mk.injEq, List.not_mem_nil, or_false] at known
  rcases known with ⟨rfl, rfl⟩ | ⟨rfl, rfl⟩ | ⟨rfl, rfl⟩ | ⟨rfl, rfl⟩ | ⟨rfl, rfl⟩
  · exact ⟨_, nullMember, Rule.reads_of_split (fun _ => rfl) word⟩
  · refine ⟨_, booleanMember, Rule.reads_of_split (fun _ => rfl) ?_⟩
    rw [Pattern.orElse_eq_alt, Pattern.isSome_split_alt, word, Bool.true_or]
  · refine ⟨_, booleanMember, Rule.reads_of_split (fun _ => rfl) ?_⟩
    rw [Pattern.orElse_eq_alt, Pattern.isSome_split_alt, word, Bool.or_true]
  · refine ⟨_, doubleMember, Rule.reads_of_split (fun _ => rfl) ?_⟩
    simp only [Pattern.double, Pattern.notANumberOrInfinity, Pattern.orElse_eq_alt,
      Pattern.isSome_split_alt, word, Bool.true_or]
  · refine ⟨_, doubleMember, Rule.reads_of_split (fun _ => rfl) ?_⟩
    simp only [Pattern.double, Pattern.notANumberOrInfinity, Pattern.orElse_eq_alt,
      Pattern.isSome_split_alt, word, Bool.true_or, Bool.or_true]

/-- A source that is one enumeration, whose type name begins with a keyword. -/
def OvertakenBy (source : Bytes) (keyword : String) : Prop :=
  (∃ name, (name, keyword) ∈ overtaken) ∧ Text.bytes (Text.ofWord keyword) <+: source ∧
    ∃ token, enumeration.complete source = .ok token

/-- An enumeration that begins with a keyword is not taken as a whole: the keyword is. -/
theorem complete_of_overtaken {keyword : String} (entire : OvertakenBy source keyword) :
    primitiveLiteral.complete source = .error (.trailingInput keyword.length source.length) := by
  obtain ⟨⟨_, known⟩, ⟨after, rfl⟩, whole, enumerated⟩ := entire
  obtain ⟨found, ends⟩ := Rule.complete_iff.mp enumerated
  have stands : (Place.ofSource (Text.bytes (Text.ofWord keyword) ++ after) 0).rest =
      Text.ofWord keyword ++ Text.ofBytes after :=
    Text.ofBytes_bytes_append (overtaken_legible _ known) after
  obtain ⟨alternative, inFront, ⟨other, stop⟩, read⟩ := reads_of_keyword known stands
  have foundToo := (alternative_tokenAt?_iff (List.mem_of_mem_take inFront)).mpr ⟨stop, read⟩
  obtain ⟨_, token, first⟩ := exists_firstMatch? (List.mem_of_mem_take inFront) foundToo
  obtain ⟨winner, winnerInFront, rfl⟩ :=
    winner_of_front (List.take_append_drop 8 _).symm inFront foundToo first
  have no : ∀ alternative ∈ primitiveTable.take 8, alternative.name ≠ "enum" := by decide
  obtain ⟨keyword', stop, known', on, span, further⟩ :=
    overtaken_of_firstMatch? first found (no winner winnerInFront)
  -- The keyword that was read and the one that the source begins with stand in one place.
  have same : keyword' = keyword := by
    have front : Text.ofWord keyword <+: _ := ⟨_, stands.symm⟩
    have frontToo : Text.ofWord keyword' <+: _ := ⟨_, on.rest.symm⟩
    rcases List.prefix_or_prefix_of_prefix front frontToo with shorter | shorter
    · exact (overtaken_apart _ known _ known' shorter).symm
    · exact overtaken_apart _ known' _ known shorter
  have length : stop.offset = keyword.length := by
    rw [on.offset, same, overtaken_width _ known]
    exact Nat.zero_add _
  have short : keyword.length ≠ (Text.bytes (Text.ofWord keyword) ++ after).length := by
    rw [← length, ← ends]
    exact Nat.ne_of_lt further
  rw [Rule.complete, primitiveLiteral_tokenAt?, first, Option.map_some]
  simp only [span, length, if_neg short]

/-- A literal that is all of the source is found as such, unless a keyword is in the way. -/
theorem complete_of_whole {whole : Token} (member : alternative ∈ primitiveTable)
    (complete : alternative.rule.complete source = .ok whole)
    (free : ¬ ∃ keyword, OvertakenBy source keyword) :
    ∃ token, primitiveLiteral.complete source = .ok token ∧
      token.span = { start := 0, stop := source.length } := by
  obtain ⟨found, ends⟩ := Rule.complete_iff.mp complete
  obtain ⟨name, token, first⟩ := exists_firstMatch? member found
  have literal : primitiveLiteral.tokenAt? source 0 = some token := by
    rw [primitiveLiteral_tokenAt?, first, Option.map_some]
  have steady : primitiveLiteral.steady = true :=
    catalogue_steady _ (by simp [catalogue, primitiveCatalogue])
  have fits : primitiveLiteral.Fits := catalogue_fits _ (by simp [catalogue, primitiveCatalogue])
  obtain ⟨starts, _, inside⟩ := Rule.span_of_find? steady ((Rule.tokenAt?_eq steady fits).symm.trans literal)
  have notShort : ¬ token.span.stop < whole.span.stop := by
    intro short
    obtain ⟨isEnum, keyword, known, slice⟩ := (stop_lt_iff first member found).mp short
    have enumMember : (⟨"enum", enumeration⟩ : Alternative) ∈ primitiveTable := by simp [primitiveTable]
    obtain rfl := eq_of_name member enumMember isEnum
    refine free ⟨keyword, ⟨name, known⟩, ?_, whole, complete⟩
    rw [← slice, starts]
    exact List.take_prefix _ _
  have stops : token.span.stop = source.length := by omega
  refine ⟨token, Rule.complete_iff.mpr ⟨literal, stops⟩, ?_⟩
  rw [← starts, ← stops]

/-- The longest match of the primitive literals, and what it means for a source as a whole. -/
theorem primitiveLiteral_longest (source : Bytes) :
    (∀ offset token, primitiveLiteral.tokenAt? source offset = some token →
      ∃ name, primitiveTable.firstMatch? source offset = some (name, token) ∧
        ∀ alternative ∈ primitiveTable, ∀ other,
          alternative.rule.tokenAt? source offset = some other →
            (token.span.stop < other.span.stop ↔ alternative.name = "enum" ∧
              ∃ keyword, (name, keyword) ∈ overtaken ∧
                source.slice token.span.start token.span.stop = Text.bytes (Text.ofWord keyword))) ∧
    (∀ keyword, OvertakenBy source keyword →
      primitiveLiteral.complete source = .error (.trailingInput keyword.length source.length)) ∧
    ∀ alternative ∈ primitiveTable, ∀ whole, alternative.rule.complete source = .ok whole →
      (¬ ∃ keyword, OvertakenBy source keyword) →
        ∃ token, primitiveLiteral.complete source = .ok token ∧
          token.span = { start := 0, stop := source.length } := by
  refine ⟨fun offset token found => ?_, fun _ => complete_of_overtaken, fun _ member _ =>
    complete_of_whole member⟩
  rw [primitiveLiteral_tokenAt?, Option.map_eq_some_iff] at found
  obtain ⟨⟨name, _⟩, first, rfl⟩ := found
  exact ⟨name, first, fun _ member _ => stop_lt_iff first member⟩

/-- The name `INFO.Color` begins with the infinity. -/
theorem primitiveLiteral_longest_infinity :
    OvertakenBy (Text.bytes (Text.ofWord "INFO.Color'Red'")) "INF" ∧
      primitiveLiteral.complete (Text.bytes (Text.ofWord "INFO.Color'Red'")) =
        .error (.trailingInput 3 15) := by
  have whole : (enumeration.tokenAt? (Text.bytes (Text.ofWord "INFO.Color'Red'")) 0).map (·.span.stop) =
      some 15 := by decide +kernel
  obtain ⟨token, found, stops⟩ := Option.map_eq_some_iff.mp whole
  have entire : OvertakenBy (Text.bytes (Text.ofWord "INFO.Color'Red'")) "INF" :=
    ⟨⟨"doubleValue", by decide⟩, by decide, token, Rule.complete_iff.mpr ⟨found, stops⟩⟩
  exact ⟨entire, (primitiveLiteral_longest _).2.1 "INF" entire⟩

end Primitive

end Grammar

end ODataLiteral
