import ODataLiteral.Proofs.Literal.Winner
import ODataLiteral.Proofs.Pattern.Calendar
import ODataLiteral.Proofs.Rule.Longest

/-! Dates and times among the primitive literals. A text of one of their grammars is read as a whole, and nothing that
is tried before it stands there. A mark that announces a field binds: without the field there is no shorter literal. -/
namespace ODataLiteral

open Abnf (Begins Derives)
open Pattern

inductive Temporal where
  | date
  | dateTimeOffset
  | timeOfDay

namespace Temporal

def rule : Temporal → Rule
  | date => Grammar.date
  | dateTimeOffset => Grammar.dateTimeOffset
  | timeOfDay => Grammar.timeOfDay

def type : Temporal → EdmType
  | date => .date
  | dateTimeOffset => .dateTimeOffset
  | timeOfDay => .timeOfDay

def pattern : Temporal → Pattern
  | date => Pattern.date
  | dateTimeOffset => Pattern.dateTimeOffset
  | timeOfDay => Pattern.timeOfDay

def grammar : Temporal → Language UriChar
  | date => Abnf.date
  | dateTimeOffset => Abnf.dateTimeOffset
  | timeOfDay => Abnf.timeOfDay

section Texts

variable {kind : Temporal} {text : Text}

theorem rule_eq (kind : Temporal) : kind.rule = Grammar.typedLiteral kind.type kind.pattern := by
  cases kind <;> rfl

theorem steady_rule (kind : Temporal) : (Grammar.typedLiteral kind.type kind.pattern).steady = true := by
  cases kind <;> rfl

theorem steady_pattern (kind : Temporal) : kind.pattern.steady = true := by
  cases kind <;> rfl

theorem clean_pattern (kind : Temporal) : kind.pattern.clean = true := by
  cases kind <;> rfl

theorem language_pattern (kind : Temporal) : kind.pattern.language = kind.grammar := by
  cases kind with
  | date => exact language_date
  | dateTimeOffset => exact language_dateTimeOffset
  | timeOfDay => exact language_timeOfDay

/-- With nothing behind it, a text of the grammar is taken as a whole. -/
theorem split_whole (member : text ∈ kind.grammar) : kind.pattern.split text = some (text, []) := by
  rw [← language_pattern] at member
  have whole : kind.pattern.split (text ++ []) = some (text, []) := by
    cases kind with
    | date => exact date_takes text member [] (HeadIn.nil _)
    | dateTimeOffset => exact dateTimeOffset_takes text member [] (HeadIn.nil _)
    | timeOfDay => exact timeOfDay_takes text member [] (HeadIn.nil _)
  rwa [List.append_nil] at whole

end Texts

section Tokens

variable {kind : Temporal} {source octets : Bytes} {offset : Nat} {token : Token}

theorem tokenAt?_iff : kind.rule.tokenAt? source offset = some token ↔
    ∃ text rest, kind.pattern.split (Text.ofBytes (source.drop offset)) = some (text, rest) ∧
      token = ⟨.literal, ⟨offset, offset + text.width⟩, .typed kind.type⟩ := by
  rw [rule_eq, Grammar.typedLiteral, Rule.tokenAt?_typed_iff (steady_rule kind)]

theorem tokenAt?_eq_none (kind : Temporal) (stands : source.drop offset = octets)
    (refused : kind.pattern.split (Text.ofBytes octets) = none) : kind.rule.tokenAt? source offset = none := by
  rw [Option.eq_none_iff_forall_ne_some]
  intro token found
  obtain ⟨text, rest, read, _⟩ := tokenAt?_iff.mp found
  rw [stands] at read
  cases refused.symm.trans read

theorem exists_derived (found : kind.rule.tokenAt? source offset = some token) :
    ∃ stop, stop ≤ source.length ∧ Derives kind.grammar (source.slice offset stop) ∧
      token = ⟨.literal, ⟨offset, stop⟩, .typed kind.type⟩ := by
  obtain ⟨text, rest, read, rfl⟩ := tokenAt?_iff.mp found
  have derived := derives_of_split (steady_pattern kind) (clean_pattern kind) read
  obtain ⟨same, _⟩ := slice_of_split read
  refine ⟨offset + text.width, stop_le_of_split (ne_nil_of_split ?_ read) read, ?_, rfl⟩
  · cases kind <;> rfl
  · rw [same, ← language_pattern]
    exact derived

theorem tokenAt?_whole (derived : Derives kind.grammar octets) : kind.rule.tokenAt? octets 0 =
    some ⟨.literal, ⟨0, octets.length⟩, .typed kind.type⟩ := by
  obtain ⟨member, _⟩ := Abnf.derives_iff.mp derived
  refine tokenAt?_iff.mpr ⟨Text.ofBytes octets, [], split_whole member, ?_⟩
  rw [← Text.length_bytes, Text.bytes_ofBytes, Nat.zero_add]

/-- The literals of the calendar that are tried before this one. -/
def before : Temporal → List Rule
  | date => []
  | dateTimeOffset => [Grammar.date]
  | timeOfDay => [Grammar.date, Grammar.dateTimeOffset]

theorem primitives_eq (kind : Temporal) :
    ∃ after, Grammar.primitives = (Grammar.keywords ++ Grammar.guid :: kind.before) ++ kind.rule :: after := by
  cases kind with
  | date => exact ⟨_, rfl⟩
  | dateTimeOffset => exact ⟨_, rfl⟩
  | timeOfDay => exact ⟨_, rfl⟩

theorem mem_calendar (kind : Temporal) : kind.rule ∈ Grammar.calendar := by
  cases kind <;> simp [rule, Grammar.calendar]

theorem excludes_before (kind : Temporal) :
    ∀ earlier ∈ Grammar.keywords ++ Grammar.guid :: kind.before, kind.rule.Excludes earlier := by
  obtain ⟨fromDate, others⟩ := List.pairwise_cons.mp Grammar.calendar_exclude
  obtain ⟨fromOffset, _⟩ := List.pairwise_cons.mp others
  have member := kind.mem_calendar
  simp only [List.forall_mem_append, List.forall_mem_cons]
  refine ⟨fun keyword among => ?_, (Grammar.guid_excludes_calendar _ member).symm, ?_⟩
  · exact (Grammar.calendar_lead_floating _ member).excludes (Grammar.keywords_lead keyword among)
      Grammar.floating_apart_keyword
  · cases kind with
    | date => exact List.forall_mem_nil _
    | dateTimeOffset => exact List.forall_mem_singleton.mpr (fromDate _ List.mem_cons_self).symm
    | timeOfDay =>
      exact List.forall_mem_cons.mpr ⟨(fromDate _ (List.mem_cons_of_mem _ List.mem_cons_self)).symm,
        List.forall_mem_singleton.mpr (fromOffset _ List.mem_cons_self).symm⟩

theorem primitiveLiteral_of_tokenAt? (found : kind.rule.tokenAt? source offset = some token) :
    Grammar.primitiveLiteral.tokenAt? source offset = some token := by
  obtain ⟨after, parts⟩ := kind.primitives_eq
  exact Grammar.primitiveLiteral_of_excludes parts kind.excludes_before found

theorem complete_of_derives (derived : Derives kind.grammar octets) :
    kind.rule.complete octets = .ok ⟨.literal, ⟨0, octets.length⟩, .typed kind.type⟩ ∧
      Grammar.primitiveLiteral.complete octets = .ok ⟨.literal, ⟨0, octets.length⟩, .typed kind.type⟩ := by
  have whole := tokenAt?_whole derived
  rw [Rule.complete, whole, Rule.complete, primitiveLiteral_of_tokenAt? whole]
  exact ⟨if_pos rfl, if_pos rfl⟩

end Tokens

end Temporal

/-- How a time goes on with a mark, and the field that the mark announces. -/
def Abnf.announcements : List (Language UriChar × Language UriChar) :=
  [(clock * mark ':', second),
   (clock * mark ':' * second * raw (· == '.'.toUInt8), fractionalSeconds)]

section Announcements

variable {text tail : Text} {one : UriChar} {time field : Language UriChar} {front rest : Bytes}

def timeTail : Pattern :=
  whenLedBy colon (second ++ whenLedBy (plain '.') fractionalSeconds)

theorem timeOfDay_eq : Pattern.timeOfDay = hour ++ colon ++ minute ++ timeTail := rfl

theorem timeTail_refuses_second (isColon : one.isDelimiter ':' = true) (refused : second.split tail = none) :
    timeTail.split (one :: tail) = none :=
  whenLedBy_refuses isColon (split_seq_of_refused refused)

theorem timeTail_refuses_fraction (isColon : one.isDelimiter ':' = true) (seconds : text ∈ Abnf.second)
    (refused : fractionalSeconds.split tail = none) :
    timeTail.split (one :: (text ++ .plain '.'.toUInt8 :: tail)) = none := by
  have read := second_ranges.takes text (second_ranges.language ▸ seconds) (.plain '.'.toUInt8 :: tail) fun _ _ => rfl
  have point : (whenLedBy (plain '.') fractionalSeconds).split (.plain '.'.toUInt8 :: tail) = none :=
    whenLedBy_refuses rfl refused
  exact whenLedBy_refuses isColon (split_seq_of_refused_after read point)

theorem clock_split (member : text ∈ Abnf.clock) (tail : Text) :
    (hour ++ colon ++ minute).split (text ++ tail) = some (text, tail) :=
  clock_takes text (language_clock ▸ member) tail fun _ _ => rfl

/-- Without the field that is announced, no time is read. -/
theorem timeOfDay_refuses (announced : (time, field) ∈ Abnf.announcements) (derived : Derives time front)
    (absent : ¬ Begins field rest) : Pattern.timeOfDay.split (Text.ofBytes (front ++ rest)) = none := by
  rw [timeOfDay_eq, derived.ofBytes_append]
  obtain ⟨member, _⟩ := Abnf.derives_iff.mp derived
  simp only [Abnf.announcements, List.mem_cons, Prod.mk.injEq, List.not_mem_nil, or_false] at announced
  rcases announced with ⟨rfl, rfl⟩ | ⟨rfl, rfl⟩
  · obtain ⟨clock, timed, _, marked, same⟩ := member
    obtain ⟨one, isColon, rfl⟩ := Abnf.mem_mark.mp marked
    have refused : second.split (Text.ofBytes rest) = none := by
      refine split_eq_none_of_not_begins rfl rfl ?_
      rwa [second_ranges.language]
    rw [← same, List.append_assoc, List.singleton_append]
    exact split_seq_of_refused_after (clock_split timed _) (timeTail_refuses_second isColon refused)
  · obtain ⟨_, ⟨_, ⟨clock, timed, _, marked, rfl⟩, seconds, inRange, rfl⟩, _, pointed, same⟩ := member
    obtain ⟨one, isColon, rfl⟩ := Abnf.mem_mark.mp marked
    obtain ⟨octet, point, rfl⟩ := Abnf.mem_raw.mp pointed
    obtain rfl := beq_iff_eq.mp point
    have refused : fractionalSeconds.split (Text.ofBytes rest) = none :=
      split_eq_none_of_not_begins rfl rfl absent
    rw [← same]
    simp only [List.append_assoc, List.singleton_append]
    exact split_seq_of_refused_after (clock_split timed _) (timeTail_refuses_fraction isColon inRange refused)

theorem dated_split (member : text ∈ Abnf.date * Abnf.raw (· == 'T'.toUInt8)) (tail : Text) :
    (yearMonthDay ++ plain 'T').split (text ++ tail) = some (text, tail) := by
  have dated := yearMonthDay_takes.seq (Grammar.takes_char (UriChar.isPlain (· == 'T'.toUInt8)) Grammar.anything)
    fun _ _ => rfl
  refine dated text ?_ tail fun _ _ => rfl
  rwa [← language_yearMonthDay] at member

theorem dateTimeOffset_refuses (announced : (time, field) ∈ Abnf.announcements)
    (derived : Derives (Abnf.date * Abnf.raw (· == 'T'.toUInt8) * time) front) (absent : ¬ Begins field rest) :
    Pattern.dateTimeOffset.split (Text.ofBytes (front ++ rest)) = none := by
  obtain ⟨dated, timed, date, timeDerived, rfl⟩ := Abnf.derives_mul_iff.mp derived
  have refused := timeOfDay_refuses announced timeDerived absent
  rw [List.append_assoc, date.ofBytes_append]
  have read := dated_split (Abnf.derives_iff.mp date).1 (Text.ofBytes (timed ++ rest))
  exact split_seq_of_refused (split_seq_of_refused_after read refused)

/-- A `T` after the day is no part of a date, and without a time and a zone behind it there is no point in time
either. -/
theorem marked_refuses (derived : Derives (Abnf.date * Abnf.raw (· == 'T'.toUInt8)) front) :
    Pattern.date.split (Text.ofBytes (front ++ rest)) = none ∧
      (¬ Begins (Abnf.timeOfDay * Abnf.zone) rest →
        Pattern.dateTimeOffset.split (Text.ofBytes (front ++ rest)) = none) := by
  rw [derived.ofBytes_append]
  obtain ⟨member, _⟩ := Abnf.derives_iff.mp derived
  constructor
  · obtain ⟨dated, date, _, marked, same⟩ := member
    obtain ⟨octet, marker, rfl⟩ := Abnf.mem_raw.mp marked
    obtain rfl := beq_iff_eq.mp marker
    rw [← same, List.append_assoc, List.singleton_append]
    have read := yearMonthDay_takes dated (language_yearMonthDay ▸ date) (.plain 'T'.toUInt8 :: Text.ofBytes rest)
      fun _ _ => rfl
    exact split_seq_of_refused_after read rfl
  · intro absent
    have refused : (Pattern.timeOfDay ++ zone).split (Text.ofBytes rest) = none := by
      refine split_eq_none_of_not_begins rfl rfl ?_
      rwa [append_eq_seq, language, language_timeOfDay, language_zone]
    rw [Option.eq_none_iff_forall_ne_some]
    rintro ⟨_, _⟩ read
    obtain ⟨_, _, zoned, timed, zone, _⟩ := split_seq_iff.mp read
    obtain ⟨_, _, _, date, time, _⟩ := split_seq_iff.mp timed
    cases (dated_split member _).symm.trans date
    cases refused.symm.trans (split_seq_iff.mpr ⟨_, _, zoned, time, zone, rfl⟩)

end Announcements

namespace Grammar

/-- A text of one of the three grammars is read as a whole, alone and among the primitive literals, and whatever is read
is such a text. A date never stands where a point in time does. A colon, a point or a `T` that begins another field
without being followed by it leaves nothing to be read. -/
theorem temporal_exact :
    (∀ (kind : Temporal) (octets : Bytes), Derives kind.grammar octets →
      kind.rule.complete octets = .ok ⟨.literal, ⟨0, octets.length⟩, .typed kind.type⟩ ∧
        primitiveLiteral.complete octets = .ok ⟨.literal, ⟨0, octets.length⟩, .typed kind.type⟩) ∧
    (∀ (kind : Temporal) (source : Bytes) (offset : Nat) (token : Token),
      kind.rule.tokenAt? source offset = some token →
        ∃ stop, stop ≤ source.length ∧ Derives kind.grammar (source.slice offset stop) ∧
          token = ⟨.literal, ⟨offset, stop⟩, .typed kind.type⟩) ∧
    (∀ source offset, date.tokenAt? source offset = none ∨ dateTimeOffset.tokenAt? source offset = none) ∧
    ∀ (source : Bytes) (offset : Nat) (front rest : Bytes), source.drop offset = front ++ rest →
      (∀ time field, (time, field) ∈ Abnf.announcements → ¬ Begins field rest →
        (Derives time front → timeOfDay.tokenAt? source offset = none) ∧
        (Derives (Abnf.date * Abnf.raw (· == 'T'.toUInt8) * time) front →
          dateTimeOffset.tokenAt? source offset = none)) ∧
      (Derives (Abnf.date * Abnf.raw (· == 'T'.toUInt8)) front → date.tokenAt? source offset = none ∧
        (¬ Begins (Abnf.timeOfDay * Abnf.zone) rest → dateTimeOffset.tokenAt? source offset = none)) := by
  refine ⟨fun kind octets => Temporal.complete_of_derives, fun kind source offset token => Temporal.exists_derived,
    fun source offset => ?_, fun source offset front rest stands => ⟨fun time field announced absent => ?_, ?_⟩⟩
  · cases found : date.tokenAt? source offset with
    | none => exact .inl rfl
    | some token =>
      exact .inr (date_excludes_dateTimeOffset.tokenAt?_eq_none (primitives_regular _ (by simp [primitives, calendar]))
        (primitives_regular _ (by simp [primitives, calendar])) found)
  · constructor
    · intro derived
      exact Temporal.tokenAt?_eq_none .timeOfDay stands (timeOfDay_refuses announced derived absent)
    · intro derived
      exact Temporal.tokenAt?_eq_none .dateTimeOffset stands (dateTimeOffset_refuses announced derived absent)
  · intro derived
    obtain ⟨date, dateTime⟩ := marked_refuses derived
    exact ⟨Temporal.tokenAt?_eq_none .date stands date,
      fun absent => Temporal.tokenAt?_eq_none .dateTimeOffset stands (dateTime absent)⟩

/-- Of `23%3A59` all is read. Nothing is read of `23:59:`, which has no seconds, and of `2000-01-01T`. -/
theorem temporal_exact_dangling :
    let whole : Bytes := [0x32, 0x33, 0x25, 0x33, 0x41, 0x35, 0x39]
    let clock : Bytes := [0x32, 0x33, 0x3A, 0x35, 0x39, 0x3A]
    let day : Bytes := [0x32, 0x30, 0x30, 0x30, 0x2D, 0x30, 0x31, 0x2D, 0x30, 0x31, 0x54]
    primitiveLiteral.complete whole = .ok ⟨.literal, ⟨0, 7⟩, .typed .timeOfDay⟩ ∧
    (∃ stop, stop ≤ 7 ∧ Derives Abnf.timeOfDay (whole.slice 0 stop)) ∧
    timeOfDay.tokenAt? clock 0 = none ∧ dateTimeOffset.tokenAt? (day ++ clock) 0 = none ∧
    date.tokenAt? day 0 = none ∧ dateTimeOffset.tokenAt? day 0 = none := by
  intro whole clock day
  have wholeDerived : Derives Abnf.timeOfDay whole := by
    have read : Pattern.timeOfDay.split (Text.ofBytes whole) = some
        ([.plain 0x32, .plain 0x33, .encoded 0x33 0x41, .plain 0x35, .plain 0x39], []) := by rfl
    exact language_timeOfDay ▸ derives_of_split rfl rfl read
  have clockDerived : Derives (Abnf.clock * Abnf.mark ':') clock := by
    have read : (hour ++ colon ++ minute ++ colon).split (Text.ofBytes clock) = some
        ([.plain 0x32, .plain 0x33, .plain 0x3A, .plain 0x35, .plain 0x39, .plain 0x3A], []) := by rfl
    have derived := derives_of_split rfl rfl read
    rwa [append_eq_seq, language, language_clock, colon, language_delimiter] at derived
  have dayDerived : Derives (Abnf.date * Abnf.raw (· == 'T'.toUInt8)) day := by
    have read : (yearMonthDay ++ plain 'T').split (Text.ofBytes day) = some (day.map .plain, []) := by rfl
    have derived := derives_of_split rfl rfl read
    rwa [append_eq_seq, language, language_yearMonthDay] at derived
  have nothing {pattern : Pattern} (filled : pattern.nullable = false) : ¬ Begins pattern.language [] := by
    rintro ⟨front, none, derived⟩
    obtain rfl := List.prefix_nil.mp none
    exact derived.ne_nil (fun member => ne_nil_of_mem filled member rfl) rfl
  have noSecond : ¬ Begins Abnf.second [] := by
    rw [Abnf.second, ← second_ranges.language]
    exact nothing rfl
  have noTime : ¬ Begins (Abnf.timeOfDay * Abnf.zone) [] := by
    rw [← language_timeOfDay, ← language_zone]
    exact nothing (show (Pattern.timeOfDay ++ zone).nullable = false from rfl)
  have announced : (Abnf.clock * Abnf.mark ':', Abnf.second) ∈ Abnf.announcements := List.mem_cons_self
  obtain ⟨reads, spells, _, dangling⟩ := temporal_exact
  have literal := (reads .timeOfDay whole wholeDerived).2
  have read : (Temporal.rule .timeOfDay).tokenAt? whole 0 = some ⟨.literal, ⟨0, 7⟩, .typed .timeOfDay⟩ :=
    Temporal.tokenAt?_whole wholeDerived
  obtain ⟨stop, inside, derived, _⟩ := spells .timeOfDay whole 0 _ read
  have alone := (dangling clock 0 clock [] (List.append_nil _).symm).1 _ _ announced noSecond
  have dated := (dangling (day ++ clock) 0 (day ++ clock) [] (List.append_nil _).symm).1 _ _ announced noSecond
  obtain ⟨date, dateTime⟩ := (dangling day 0 day [] (List.append_nil _).symm).2 dayDerived
  exact ⟨literal, ⟨stop, inside, derived⟩, alone.1 clockDerived, dated.2 (dayDerived.append clockDerived), date,
    dateTime noTime⟩

end Grammar

end ODataLiteral
