import ODataLiteral.Pattern.Calendar
import ODataLiteral.Proofs.Geo.Completeness
import ODataLiteral.Proofs.Literal.Integer

/-! The fields of dates and times. In the grammar a field is a number in a range, and its pattern has the same texts
although it computes no number. Where a colon, a point or a zone follows is decided by the next character. -/
namespace ODataLiteral

open Pattern

namespace Abnf

/-- Two digits whose value lies in a range. -/
def field (least greatest : Nat) : Language UriChar :=
  { text : Text | ∃ digits : Bytes, digits.length = 2 ∧ (∀ octet ∈ digits, Octet.isDigit octet = true) ∧
      least ≤ digits.positional ∧ digits.positional ≤ greatest ∧ text = digits.map .plain }

/-- `year = [ "-" ] ( "0" 3DIGIT / oneToNine 3*DIGIT )`. -/
def year : Language UriChar :=
  optional (raw (· == '-'.toUInt8)) *
    (raw (· == '0'.toUInt8) * repeated 3 (some 3) digit + raw Octet.isOneToNine * repeated 3 none digit)

def month : Language UriChar := field 1 12

def day : Language UriChar := field 1 31

def hour : Language UriChar := field 0 23

def minute : Language UriChar := field 0 59

def second : Language UriChar := field 0 59

/-- `fractionalSeconds = 1*12DIGIT`. -/
def fractionalSeconds : Language UriChar := repeated 1 (some 12) digit

/-- `dateValue = year "-" month "-" day`. -/
def date : Language UriChar :=
  year * raw (· == '-'.toUInt8) * month * raw (· == '-'.toUInt8) * day

/-- `hour COLON minute`. -/
def clock : Language UriChar := hour * mark ':' * minute

/-- `timeOfDayValue = hour COLON minute [ COLON second [ "." fractionalSeconds ] ]`. -/
def timeOfDay : Language UriChar :=
  clock * optional (mark ':' * (second * optional (raw (· == '.'.toUInt8) * fractionalSeconds)))

/-- `"Z" / SIGN hour COLON minute`. -/
def zone : Language UriChar := raw (· == 'Z'.toUInt8) + sign * clock

/-- `dateTimeOffsetValue = year "-" month "-" day "T" timeOfDayValue zone`. -/
def dateTimeOffset : Language UriChar := date * raw (· == 'T'.toUInt8) * timeOfDay * zone

end Abnf

namespace Octet

variable {octet : UInt8}

theorem between_iff_toNat {low high : Char} : between low high octet = true ↔
    low.toUInt8.toNat ≤ octet.toNat ∧ octet.toNat ≤ high.toUInt8.toNat := by
  rw [between_iff, UInt8.le_iff_toNat_le, UInt8.le_iff_toNat_le]

theorem eq_iff_toNat {character : Char} :
    (octet == character.toUInt8) = true ↔ octet.toNat = character.toUInt8.toNat := by
  rw [beq_iff_eq, UInt8.toNat_inj]

theorem toNat_digits : '0'.toUInt8.toNat = 48 ∧ '1'.toUInt8.toNat = 49 ∧ '2'.toUInt8.toNat = 50 ∧
    '3'.toUInt8.toNat = 51 ∧ '5'.toUInt8.toNat = 53 ∧ '9'.toUInt8.toNat = 57 := by
  decide

end Octet

section Fields

variable {text : Text} {least greatest : Nat}

theorem Abnf.mem_field_iff : text ∈ Abnf.field least greatest ↔ ∃ tens ones : UInt8,
    (Octet.isDigit tens = true ∧ Octet.isDigit ones = true ∧
      least ≤ 10 * (tens.toNat - 48) + (ones.toNat - 48) ∧ 10 * (tens.toNat - 48) + (ones.toNat - 48) ≤ greatest) ∧
    text = [.plain tens, .plain ones] := by
  have value (tens ones : UInt8) :
      Bytes.positional [tens, ones] = 10 * (tens.toNat - 48) + (ones.toNat - 48) := by
    rw [positional_cons, positional_cons, Nat.add_comm]
    simp [Bytes.positional]
  constructor
  · rintro ⟨digits, two, every, above, below, rfl⟩
    obtain ⟨tens, ones, rfl⟩ := List.length_eq_two.mp two
    rw [value] at above below
    exact ⟨tens, ones, ⟨every tens (by simp), every ones (by simp), above, below⟩, rfl⟩
  · rintro ⟨tens, ones, ⟨isTens, isOnes, above, below⟩, rfl⟩
    refine ⟨[tens, ones], rfl, by simp [isTens, isOnes], ?_, ?_, rfl⟩
    · rwa [value]
    · rwa [value]

namespace Pattern

/-- A pattern that takes two plain octets, of which some pairs are allowed, whatever follows them. -/
structure Pairs (pattern : Pattern) (allowed : UInt8 → UInt8 → Prop) : Prop where
  steady : pattern.steady = true
  spelled : ∀ text, text ∈ pattern.language ↔
    ∃ tens ones : UInt8, allowed tens ones ∧ text = [.plain tens, .plain ones]
  takes : pattern.Takes Grammar.anything

structure Ranges (pattern : Pattern) (least greatest : Nat) : Prop where
  language : pattern.language = Abnf.field least greatest
  takes : pattern.Takes Grammar.anything

theorem octets_pairs (first second : UInt8 → Bool) :
    (octet first ++ octet second).Pairs fun tens ones => first tens = true ∧ second ones = true where
  steady := rfl
  spelled text := by
    constructor
    · rintro ⟨_, one, _, two, rfl⟩
      obtain ⟨tens, isTens, rfl⟩ := Abnf.mem_raw.mp one
      obtain ⟨ones, isOnes, rfl⟩ := Abnf.mem_raw.mp two
      exact ⟨tens, ones, ⟨isTens, isOnes⟩, rfl⟩
    · rintro ⟨tens, ones, ⟨isTens, isOnes⟩, rfl⟩
      exact ⟨[.plain tens], Abnf.mem_raw.mpr ⟨tens, isTens, rfl⟩, _, Abnf.mem_raw.mpr ⟨ones, isOnes, rfl⟩, rfl⟩
  takes := takes_of_deterministic rfl ⟨trivial, trivial⟩

theorem Pairs.length_eq {pattern : Pattern} {allowed : UInt8 → UInt8 → Prop} (pairs : pattern.Pairs allowed)
    (member : text ∈ pattern.language) : text.length = 2 := by
  obtain ⟨tens, ones, _, rfl⟩ := (pairs.spelled text).mp member
  rfl

theorem Pairs.alt {first second : Pattern} {some other : UInt8 → UInt8 → Prop} (one : first.Pairs some)
    (two : second.Pairs other) : (first <|> second).Pairs fun tens ones => some tens ones ∨ other tens ones where
  steady := Bool.and_eq_true_iff.mpr ⟨one.steady, two.steady⟩
  spelled text := by
    rw [orElse_eq_alt, language, Language.mem_add, one.spelled text, two.spelled text]
    simp only [or_and_right, exists_or]
  takes text member tail here := by
    rw [orElse_eq_alt, split_alt_iff]
    rcases (Language.mem_add _ _ _).mp member with member | member
    · exact .inl (one.takes text member tail here)
    · cases read : first.split (text ++ tail) with
      | none => exact .inr ⟨rfl, two.takes text member tail here⟩
      | some found =>
        -- Both alternatives take two octets, so it does not matter which of them reads.
        obtain ⟨taken, rest⟩ := found
        have wide := one.length_eq (mem_language_of_split one.steady read)
        obtain ⟨rfl, rfl⟩ := List.append_inj (split_append read) ((two.length_eq member).trans wide.symm)
        exact .inl rfl

theorem Pairs.ranges {pattern : Pattern} {allowed : UInt8 → UInt8 → Prop} (pairs : pattern.Pairs allowed)
    (values : ∀ tens ones, allowed tens ones ↔ Octet.isDigit tens = true ∧ Octet.isDigit ones = true ∧
      least ≤ 10 * (tens.toNat - 48) + (ones.toNat - 48) ∧ 10 * (tens.toNat - 48) + (ones.toNat - 48) ≤ greatest) :
    pattern.Ranges least greatest where
  language := by
    ext text
    rw [pairs.spelled text, Abnf.mem_field_iff]
    simp only [values]
  takes := pairs.takes

theorem month_ranges : month.Ranges 1 12 := by
  refine ((octets_pairs _ _).alt (octets_pairs _ _)).ranges fun tens ones => ?_
  simp only [Octet.eq_iff_toNat, Octet.isOneToNine, Octet.isDigit, Octet.between_iff_toNat, Octet.toNat_digits]
  omega

theorem day_ranges : day.Ranges 1 31 := by
  refine ((octets_pairs _ _).alt ((octets_pairs _ _).alt (octets_pairs _ _))).ranges fun tens ones => ?_
  simp only [Octet.eq_iff_toNat, Octet.isOneToNine, Octet.isDigit, Octet.between_iff_toNat, Octet.toNat_digits]
  omega

theorem hour_ranges : hour.Ranges 0 23 := by
  refine ((octets_pairs _ _).alt (octets_pairs _ _)).ranges fun tens ones => ?_
  simp only [Octet.eq_iff_toNat, Octet.isDigit, Octet.between_iff_toNat, Octet.toNat_digits]
  omega

theorem minute_ranges : minute.Ranges 0 59 := by
  refine (octets_pairs _ _).ranges fun tens ones => ?_
  simp only [Octet.isDigit, Octet.between_iff_toNat, Octet.toNat_digits]
  omega

theorem second_ranges : second.Ranges 0 59 :=
  minute_ranges

end Pattern

end Fields

namespace Pattern

section Language

theorem language_whenLedBy (lead rest : Pattern) :
    (whenLedBy lead rest).language = Abnf.optional (lead.language * rest.language) :=
  (Abnf.optional_eq _).symm

theorem language_year : year.language = Abnf.year := by
  have unfolded : year.language = Abnf.optional (Abnf.raw (· == '-'.toUInt8)) *
      (Abnf.raw (· == '0'.toUInt8) * Abnf.repeated 3 (some 3) Abnf.digit * 1 +
        Abnf.raw Octet.isOneToNine * Abnf.repeated 3 none Abnf.digit) := rfl
  rw [unfolded, mul_one]
  rfl

theorem language_yearMonthDay : yearMonthDay.language = Abnf.date := by
  rw [Abnf.date, ← language_year, Abnf.month, ← month_ranges.language, Abnf.day, ← day_ranges.language]
  rfl

theorem language_date : Pattern.date.language = Abnf.date := by
  have unfolded : Pattern.date.language = yearMonthDay.language * 1 := rfl
  rw [unfolded, mul_one, language_yearMonthDay]

theorem language_clock : (hour ++ colon ++ minute).language = Abnf.clock := by
  rw [Abnf.clock, Abnf.hour, ← hour_ranges.language, Abnf.minute, ← minute_ranges.language, ← language_delimiter]
  rfl

theorem language_timeOfDay : Pattern.timeOfDay.language = Abnf.timeOfDay := by
  have unfolded : Pattern.timeOfDay.language = (hour ++ colon ++ minute).language *
      (whenLedBy colon (second ++ whenLedBy (plain '.') fractionalSeconds)).language := rfl
  have seconds : (second ++ whenLedBy (plain '.') fractionalSeconds).language = Abnf.second *
      (whenLedBy (plain '.') fractionalSeconds).language := by
    rw [Abnf.second, ← second_ranges.language]
    rfl
  rw [unfolded, language_clock, language_whenLedBy, seconds, language_whenLedBy, colon, language_delimiter]
  rfl

theorem language_zone : zone.language = Abnf.zone := by
  have unfolded : zone.language = Abnf.raw (· == 'Z'.toUInt8) +
      sign.language * hour.language * colon.language * minute.language := rfl
  rw [unfolded, Abnf.zone, Grammar.language_sign, mul_assoc, mul_assoc, ← mul_assoc hour.language, ← language_clock]
  rfl

theorem language_dateTimeOffset : Pattern.dateTimeOffset.language = Abnf.dateTimeOffset := by
  rw [Abnf.dateTimeOffset, ← language_yearMonthDay, ← language_timeOfDay, ← language_zone]
  rfl

end Language

/-- What may follow a time. A digit, a point or a colon would be read as a part of it. -/
def isTimeEnd (character : UriChar) : Bool :=
  !(character.isDigit || character.isPlain (· == '.'.toUInt8) || character.isDelimiter ':')

section Takes

variable {accepts follow : UriChar → Bool} {rest : Pattern} {one : UriChar} {tail : Text}

theorem whenLedBy_takes (takes : rest.Takes follow) (apart : UriChar.Apart follow accepts) :
    (whenLedBy (char accepts) rest).Takes follow := by
  intro text member tail here
  rw [language_whenLedBy, Abnf.mem_optional] at member
  rw [whenLedBy, orElse_eq_alt, append_eq_seq, split_alt_iff]
  rcases member with rfl | ⟨_, ⟨one, accepted, rfl⟩, more, memberToo, rfl⟩
  · have refused : (char accepts).split tail = none :=
      split_eq_none_of_head rfl rfl fun character first => apart character (here character first)
    exact .inr ⟨by rw [List.nil_append, split_seq, refused], split_notBefore_iff.mpr ⟨refused, rfl, rfl⟩⟩
  · have lead : (char accepts).split (one :: (more ++ tail)) = some ([one], more ++ tail) := if_pos accepted
    exact .inl (split_seq_iff.mpr ⟨[one], more ++ tail, more, lead, takes more memberToo tail here, rfl⟩)

/-- A lead binds: where the rest does not follow it, nothing is read. -/
theorem whenLedBy_refuses (accepted : accepts one = true) (refused : rest.split tail = none) :
    (whenLedBy (char accepts) rest).split (one :: tail) = none := by
  have lead : (char accepts).split (one :: tail) = some ([one], tail) := if_pos accepted
  have bound : (notBefore (char accepts)).split (one :: tail) = none := by
    rw [split_notBefore, lead]
    rfl
  have neither : (char accepts ++ rest).split (one :: tail) = none := split_seq_of_refused_after lead refused
  rw [whenLedBy, orElse_eq_alt, split_alt, neither, bound]
  rfl

theorem digits_apart : UriChar.Apart (fun character => !character.isDigit) UriChar.isDigit :=
  fun _ other => Bool.eq_false_of_not_eq_true' other

theorem year_takes : year.Takes fun character => !character.isDigit := by
  have zero : UriChar.Apart (octet Octet.isOneToNine ++ atLeast 3 digit).leads
      (plain '0' ++ exactly 3 digit ++ notBefore digit).leads := by
    rw [leads_of_filled rfl, leads_of_filled rfl, leads_of_filled rfl]
    exact UriChar.apart_plain rfl
  have early : (plain '0' ++ exactly 3 digit ++ notBefore digit).Takes fun character => !character.isDigit := by
    refine takes_of_deterministic rfl ⟨⟨trivial, trivial, rfl, .inl rfl⟩, rfl, digits_apart⟩
  have late : (octet Octet.isOneToNine ++ atLeast 3 digit).Takes fun character => !character.isDigit :=
    takes_of_deterministic rfl ⟨trivial, trivial, rfl, .inr digits_apart⟩
  have minus : (optional (plain '-')).Takes UriChar.isDigit :=
    takes_of_deterministic rfl ⟨trivial, rfl, .inr (UriChar.apart_plain rfl)⟩
  exact minus.seq (early.alt late rfl rfl rfl zero) fun _ next => year_spells.leads (leads_of_next rfl next)

theorem minus_takes : (plain '-').Takes Grammar.anything :=
  Grammar.takes_char _ _

theorem yearMonthDay_takes : yearMonthDay.Takes Grammar.anything := by
  have dash (character : UriChar) (minus : (plain '-').leads character = true) : (!character.isDigit) = true := by
    rw [UriChar.eq_plain minus]
    rfl
  have first := year_takes.seq minus_takes fun character next => dash character (leads_of_next rfl next)
  have months := (first.seq month_ranges.takes fun _ _ => rfl).seq minus_takes fun _ _ => rfl
  exact months.seq day_ranges.takes fun _ _ => rfl

theorem date_takes : Pattern.date.Takes fun character => !character.isPlain (· == 'T'.toUInt8) := by
  have ahead : (notBefore (plain 'T')).Takes fun character => !character.isPlain (· == 'T'.toUInt8) :=
    takes_of_deterministic rfl ⟨rfl, fun _ other => Bool.eq_false_of_not_eq_true' other⟩
  exact yearMonthDay_takes.seq ahead fun _ _ => rfl

theorem clock_takes : (hour ++ colon ++ minute).Takes Grammar.anything := by
  have mark : colon.Takes Grammar.anything := Grammar.takes_char _ _
  exact (hour_ranges.takes.seq mark fun _ _ => rfl).seq minute_ranges.takes fun _ _ => rfl

theorem timeEnd_iff {character : UriChar} : isTimeEnd character = true ↔ character.isDigit = false ∧
    character.isPlain (· == '.'.toUInt8) = false ∧ character.isDelimiter ':' = false := by
  simp only [isTimeEnd, Bool.not_eq_true', Bool.or_eq_false_iff, and_assoc]

theorem timeOfDay_takes : Pattern.timeOfDay.Takes isTimeEnd := by
  have fraction : fractionalSeconds.Takes isTimeEnd :=
    takes_of_deterministic rfl ⟨trivial, rfl, .inr fun _ ends => (timeEnd_iff.mp ends).1⟩
  have point := whenLedBy_takes fraction fun _ ends => (timeEnd_iff.mp ends).2.1
  have seconds := second_ranges.takes.seq point fun _ _ => rfl
  have mark := whenLedBy_takes seconds fun _ ends => (timeEnd_iff.mp ends).2.2
  exact clock_takes.seq mark fun _ _ => rfl

theorem zone_leads {character : UriChar} (lead : zone.leads character = true) : isTimeEnd character = true := by
  have signed : (sign ++ hour ++ colon ++ minute).leads = sign.leads :=
    (leads_of_filled rfl).trans ((leads_of_filled rfl).trans (leads_of_filled rfl))
  rw [zone, orElse_eq_alt, leads, signed, Bool.or_eq_true] at lead
  rcases lead with zulu | sign
  · rw [UriChar.eq_plain zulu]
    rfl
  · refine timeEnd_iff.mpr ⟨UriChar.isDigit_of_isSign sign, Bool.eq_false_iff.mpr fun point => ?_, ?_⟩
    · rw [UriChar.eq_plain point] at sign
      cases sign
    · rcases Bool.or_eq_true_iff.mp sign with minus | plus
      · rw [UriChar.eq_plain minus]
        rfl
      · exact UriChar.delimiters_apart (by decide) character plus

theorem zone_takes : zone.Takes Grammar.anything := by
  have signs : sign.Takes Grammar.anything := takes_of_deterministic rfl Grammar.sign_deterministic
  have offset := ((signs.seq hour_ranges.takes fun _ _ => rfl).seq (Grammar.takes_char (UriChar.isDelimiter ':') _)
    fun _ _ => rfl).seq minute_ranges.takes fun _ _ => rfl
  have zulu : (plain 'Z').Takes Grammar.anything := Grammar.takes_char _ _
  refine zulu.alt offset rfl rfl rfl ?_
  rw [leads_of_filled rfl, leads_of_filled rfl, leads_of_filled rfl]
  exact UriChar.apart_plain rfl

theorem dateTimeOffset_takes : Pattern.dateTimeOffset.Takes Grammar.anything := by
  have marker : (plain 'T').Takes Grammar.anything := Grammar.takes_char _ _
  have dated := (yearMonthDay_takes.seq marker fun _ _ => rfl).seq timeOfDay_takes fun _ _ => rfl
  exact dated.seq zone_takes fun _ next => zone_leads (leads_of_next rfl next)

end Takes

end Pattern

end ODataLiteral
