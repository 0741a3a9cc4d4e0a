import ODataLiteral.Proofs.Geo.Completeness
import ODataLiteral.Proofs.Literal.Cut
import ODataLiteral.Proofs.Literal.Winner
import ODataLiteral.Proofs.Rule.Longest

/-! Fractions and floating point numerals. A double is the longest numeral of its grammar, a single is a double under
another name, and a decimal is a double without an exponent that no `e` follows. So a fraction among the primitive
literals is a decimal or, where an `e` follows it, a double. -/
namespace ODataLiteral

open Abnf (Begins Derives Longest)
open Pattern

namespace Pattern

variable {text taken rest : Text}

theorem fraction_maximal : fraction.Maximal :=
  maximal_of_deterministic rfl rfl Grammar.fraction_deterministic.1

theorem double_maximal : double.Maximal := by
  have choices : notANumberOrInfinity.Deterministic Grammar.anything := Grammar.notANumberOrInfinity_deterministic
  have word : notANumberOrInfinity.Maximal := maximal_of_deterministic (by decide) (by decide) choices
  have numeral := maximal_of_deterministic rfl rfl Grammar.fraction_deterministic
  exact word.alt_of_excludes numeral fraction_excludes_notANumberOrInfinity.symm.front

theorem fraction_le_double : fraction.language ≤ double.language := by
  intro text member
  refine (Language.mem_add _ _ _).mpr (.inr ?_)
  have none : [] ∈ Abnf.optional exponent.language := Abnf.mem_optional.mpr (.inl rfl)
  have whole := Language.append_mem_mul member none
  rwa [List.append_nil] at whole

theorem split_decimal_iff : decimal.split text = some (taken, rest) ↔
    fraction.split text = some (taken, rest) ∧ (plain 'e').split rest = none := by
  rw [decimal, append_eq_seq, split_seq_iff]
  constructor
  · rintro ⟨before, middle, after, one, two, rfl⟩
    obtain ⟨next, rfl, rfl⟩ := split_notBefore_iff.mp two
    exact ⟨by rwa [List.append_nil], next⟩
  · rintro ⟨read, next⟩
    exact ⟨taken, rest, [], read, split_notBefore_iff.mpr ⟨next, rfl, rfl⟩, (List.append_nil _).symm⟩

/-- A fraction that no `e` follows is a floating point numeral as it stands. -/
theorem double_of_fraction (read : fraction.split text = some (taken, rest)) (next : (plain 'e').split rest = none) :
    double.split text = some (taken, rest) := by
  have none : exponent.split rest = none := by
    cases raised : exponent.split rest with
    | none => rfl
    | some found =>
      obtain ⟨_, _, front, _⟩ := front_of_seq raised
      obtain ⟨_, _, mark, _⟩ := front_of_seq front
      cases next.symm.trans mark
  refine split_alt_iff.mpr (.inr ⟨fraction_excludes_notANumberOrInfinity _ _ _ read, ?_⟩)
  exact split_seq_iff.mpr ⟨taken, rest, [], read, (split_optional_iff rfl).mpr (.inr ⟨none, rfl, rfl⟩),
    (List.append_nil _).symm⟩

theorem fraction_of_double (read : double.split text = some (taken, rest)) (member : taken ∈ fraction.language) :
    fraction.split text = some (taken, rest) := by
  obtain ⟨_, whole, longest⟩ := (double_maximal.split_iff (by decide)).mp read
  exact (fraction_maximal.split_iff rfl).mpr
    ⟨member, whole, fun front inside begins => longest front (fraction_le_double inside) begins⟩

end Pattern

namespace Grammar

variable {source : Bytes} {offset : Nat} {token : Token} {front : Bytes}

theorem double_tokenAt?_iff : double.tokenAt? source offset = some token ↔
    ∃ front, Longest Abnf.double (source.drop offset) front ∧
      token = ⟨.literal, ⟨offset, offset + front.length⟩, .typed .double⟩ := by
  rw [double, Rule.tokenAt?_longest_iff double_maximal (by decide) (by decide) double_fits fun _ => rfl,
    language_double]

theorem double_tokenAt?_eq_none_iff :
    double.tokenAt? source offset = none ↔ ¬ Begins Abnf.double (source.drop offset) := by
  rw [double, Rule.tokenAt?_eq_none_iff_begins double_maximal (by decide) (by decide) double_fits
    fun _ => rfl, language_double]

theorem single_tokenAt? :
    single.tokenAt? source offset = (double.tokenAt? source offset).map (·.withType .single) := by
  rw [Rule.tokenAt?_eq (show single.steady = true from rfl) double_fits,
    Rule.tokenAt?_eq (show double.steady = true from rfl) double_fits, Rule.find?, Rule.find?, Option.map_map]
  have unfolded (start : Place) : single.parse maxDepth start =
      (double.parse maxDepth start).map fun found => (found.1.withType .single, found.2) := by
    cases read : double.parse maxDepth start with
    | none =>
      rw [Option.map_none, Option.eq_none_iff_forall_ne_some]
      rintro ⟨_, _⟩ found
      obtain ⟨_, inner, _⟩ := Rule.parse_withType_iff.mp found
      cases read.symm.trans inner
    | some found => exact Rule.parse_withType_iff.mpr ⟨found.1, read, rfl⟩
  rw [unfolded, Option.map_map]
  rfl

theorem next_iff (source : Bytes) (stop : Nat) :
    (plain 'e').split (Text.ofBytes (source.drop stop)) = none ↔ source[stop]? ≠ some 'e'.toUInt8 := by
  rw [split_plain_eq_none_iff (by decide), List.head?_drop]

/-- A decimal is a double that is a fraction, if no `e` comes next. -/
theorem decimal_tokenAt?_iff : decimal.tokenAt? source offset = some token ↔
    ∃ other, double.tokenAt? source offset = some other ∧ Derives Abnf.fraction (other.octets source) ∧
      source[other.span.stop]? ≠ some 'e'.toUInt8 ∧ token = other.withType .decimal := by
  rw [decimal, typedLiteral, Rule.tokenAt?_typed_iff rfl]
  constructor
  · rintro ⟨text, rest, split, rfl⟩
    obtain ⟨read, next⟩ := split_decimal_iff.mp split
    obtain ⟨slice, rfl⟩ := slice_of_split read
    have derived : Derives Abnf.fraction text.bytes := language_fraction ▸ derives_of_split rfl rfl read
    refine ⟨_, (Rule.tokenAt?_typed_iff (by decide)).mpr ⟨text, _, double_of_fraction read next, rfl⟩, ?_,
      (next_iff _ _).mp next, rfl⟩
    rwa [Token.octets, slice]
  · rintro ⟨_, found, derived, next, rfl⟩
    obtain ⟨text, rest, split, rfl⟩ := (Rule.tokenAt?_typed_iff (by decide)).mp found
    obtain ⟨slice, rfl⟩ := slice_of_split split
    rw [Token.octets, slice, Abnf.derives_iff, ← language_fraction,
      Text.ofBytes_bytes (legible_of_split (by decide) (by decide) split)] at derived
    have read := fraction_of_double split derived.1
    exact ⟨text, _, split_decimal_iff.mpr ⟨read, (next_iff _ _).mpr next⟩, rfl⟩

section Table

theorem primitives_of_decimal :
    primitives = (keywords ++ guid :: calendar) ++ decimal :: (double :: single ::
      (integers ++ string :: (prefixed ++ enumeration :: spatials))) := rfl

theorem floating_regular : ∀ rule ∈ floating, rule.Regular :=
  fun rule member => primitives_regular rule (by simp [primitives, member])

theorem earlier_refused {rule : Rule} (member : rule ∈ floating) (found : rule.tokenAt? source offset = some token) :
    ∀ earlier ∈ keywords ++ guid :: calendar, earlier.tokenAt? source offset = none := by
  intro earlier before
  have regular : earlier.Regular := primitives_regular earlier (by
    rw [primitives_of_decimal]
    exact List.mem_append_left _ before)
  exact (floating_excludes_earlier rule member earlier before).tokenAt?_eq_none (floating_regular rule member)
    regular found

theorem primitiveLiteral_of_decimal (found : decimal.tokenAt? source offset = some token) :
    primitiveLiteral.tokenAt? source offset = some token :=
  primitiveLiteral_of_first primitives_of_decimal (earlier_refused (by simp [floating]) found) found

theorem primitiveLiteral_of_double (refused : decimal.tokenAt? source offset = none)
    (found : double.tokenAt? source offset = some token) : primitiveLiteral.tokenAt? source offset = some token := by
  have parts : primitives = (keywords ++ guid :: calendar ++ [decimal]) ++ double :: (single ::
      (integers ++ string :: (prefixed ++ enumeration :: spatials))) := rfl
  refine primitiveLiteral_of_first parts (List.forall_mem_append.mpr ⟨?_, by simpa using refused⟩) found
  exact earlier_refused (by simp [floating]) found

theorem primitiveLiteral_ne_single (found : primitiveLiteral.tokenAt? source offset = some token) :
    token.value ≠ .typed .single := by
  intro typed
  have member : primitiveLiteral ∈ catalogue := by simp [catalogue, primitiveCatalogue]
  obtain ⟨stop, read⟩ := (Rule.tokenAt?_iff (catalogue_steady _ member) (catalogue_fits _ member)).mp found
  rw [primitiveLiteral, Table.parse_rule] at read
  obtain ⟨before, winner, after, parts, won, lost⟩ := List.findSome?_eq_some_iff.mp read
  have names : ∀ alternative ∈ primitiveTable, alternative.rule.typedAs .single = true →
      alternative.name = "singleValue" := by decide
  have inside : winner ∈ primitiveTable := by simp [parts]
  have named := names winner inside (Rule.typedAs_of_parse won typed)
  obtain rfl := eq_of_name inside (show ⟨"singleValue", single⟩ ∈ _ by simp [primitiveTable]) named
  exact ne_single parts won lost rfl

end Table

/-- A fraction is a decimal, and where an `e` follows its digits the double that begins with it. -/
theorem primitiveLiteral_of_fraction (longest : Longest Abnf.fraction (source.drop offset) front) :
    (source[offset + front.length]? ≠ some 'e'.toUInt8 →
      primitiveLiteral.tokenAt? source offset =
        some ⟨.literal, ⟨offset, offset + front.length⟩, .typed .decimal⟩) ∧
    (source[offset + front.length]? = some 'e'.toUInt8 →
      ∃ longer, Longest Abnf.double (source.drop offset) longer ∧
        primitiveLiteral.tokenAt? source offset =
          some ⟨.literal, ⟨offset, offset + longer.length⟩, .typed .double⟩) := by
  have within : Abnf.fraction ≤ Abnf.double := by
    rw [← language_fraction, ← language_double]
    exact fraction_le_double
  have begins : Begins Abnf.double (source.drop offset) := ⟨front, longest.begins, longest.derived.mono within⟩
  have reads : (double.tokenAt? source offset).isSome = true := by
    rw [Option.isSome_iff_ne_none, ne_eq, double_tokenAt?_eq_none_iff, not_not]
    exact begins
  obtain ⟨token, found⟩ := Option.isSome_iff_exists.mp reads
  obtain ⟨longer, longestToo, rfl⟩ := double_tokenAt?_iff.mp found
  have split := fraction_maximal.split_of_longest rfl rfl (language_fraction ▸ longest)
  rw [List.drop_drop] at split
  constructor
  · intro next
    have read := split_decimal_iff.mpr ⟨split, (next_iff _ _).mpr next⟩
    refine primitiveLiteral_of_decimal ((Rule.tokenAt?_typed_iff rfl).mpr ⟨_, _, read, ?_⟩)
    rw [← Text.length_bytes, Text.bytes_ofBytes]
  · intro goesOn
    refine ⟨longer, longestToo, primitiveLiteral_of_double ?_ found⟩
    rw [Option.eq_none_iff_forall_ne_some]
    intro token found
    obtain ⟨_, _, read, _⟩ := (Rule.tokenAt?_typed_iff rfl).mp found
    obtain ⟨fraction, next⟩ := split_decimal_iff.mp read
    cases split.symm.trans fraction
    exact (next_iff _ _).mp next goesOn

/-- A double is the longest numeral of its grammar, and there is none only where no such numeral begins. A single is the
double there under another name. A decimal is a double that is a fraction, where no `e` comes next. So a primitive
literal that begins with a fraction is that fraction as a decimal, unless an `e` follows it, and it is no single. -/
theorem floating_exact (source : Bytes) (offset : Nat) :
    (∀ token, double.tokenAt? source offset = some token ↔
      ∃ front, Longest Abnf.double (source.drop offset) front ∧
        token = ⟨.literal, ⟨offset, offset + front.length⟩, .typed .double⟩) ∧
    (double.tokenAt? source offset = none ↔ ¬ Begins Abnf.double (source.drop offset)) ∧
    single.tokenAt? source offset = (double.tokenAt? source offset).map (·.withType .single) ∧
    (∀ token, decimal.tokenAt? source offset = some token ↔
      ∃ other, double.tokenAt? source offset = some other ∧ Derives Abnf.fraction (other.octets source) ∧
        source[other.span.stop]? ≠ some 'e'.toUInt8 ∧ token = other.withType .decimal) ∧
    (∀ front, Longest Abnf.fraction (source.drop offset) front →
      (source[offset + front.length]? ≠ some 'e'.toUInt8 →
        primitiveLiteral.tokenAt? source offset =
          some ⟨.literal, ⟨offset, offset + front.length⟩, .typed .decimal⟩) ∧
      (source[offset + front.length]? = some 'e'.toUInt8 →
        ∃ longer, Longest Abnf.double (source.drop offset) longer ∧
          primitiveLiteral.tokenAt? source offset =
            some ⟨.literal, ⟨offset, offset + longer.length⟩, .typed .double⟩)) ∧
    ∀ token, primitiveLiteral.tokenAt? source offset = some token → token.value ≠ .typed .single :=
  ⟨fun _ => double_tokenAt?_iff, double_tokenAt?_eq_none_iff, single_tokenAt?, fun _ => decimal_tokenAt?_iff,
    fun _ => primitiveLiteral_of_fraction, fun _ => primitiveLiteral_ne_single⟩

/-- `1.5;` begins with a decimal, and the fraction of `%2B1.5ex` is a double, whose `e` is left behind. -/
theorem floating_exact_dangling_exponent :
    (Longest Abnf.fraction [0x31, 0x2E, 0x35, 0x3B] [0x31, 0x2E, 0x35] ∧
      primitiveLiteral.tokenAt? [0x31, 0x2E, 0x35, 0x3B] 0 = some ⟨.literal, ⟨0, 3⟩, .typed .decimal⟩ ∧
      (Value.typed .decimal) ≠ .typed .single) ∧
    (Longest Abnf.fraction [0x25, 0x32, 0x42, 0x31, 0x2E, 0x35, 0x65, 0x78] [0x25, 0x32, 0x42, 0x31, 0x2E, 0x35] ∧
      ∃ longer, Longest Abnf.double [0x25, 0x32, 0x42, 0x31, 0x2E, 0x35, 0x65, 0x78] longer ∧
        primitiveLiteral.tokenAt? [0x25, 0x32, 0x42, 0x31, 0x2E, 0x35, 0x65, 0x78] 0 =
          some ⟨.literal, ⟨0, 0 + longer.length⟩, .typed .double⟩) := by
  have digits {octets : Bytes} {taken rest : Text}
      (read : Pattern.fraction.split (Text.ofBytes octets) = some (taken, rest)) :
      Longest Abnf.fraction octets taken.bytes := by
    rw [← language_fraction]
    exact fraction_maximal.longest_of_split rfl rfl read
  have plain : Longest Abnf.fraction [0x31, 0x2E, 0x35, 0x3B] [0x31, 0x2E, 0x35] :=
    digits (show _ = some ([.plain 0x31, .plain 0x2E, .plain 0x35], [.plain 0x3B]) by rfl)
  have signed : Longest Abnf.fraction [0x25, 0x32, 0x42, 0x31, 0x2E, 0x35, 0x65, 0x78]
      [0x25, 0x32, 0x42, 0x31, 0x2E, 0x35] :=
    digits (show _ = some ([.encoded 0x32 0x42, .plain 0x31, .plain 0x2E, .plain 0x35],
      [.plain 0x65, .plain 0x78]) by rfl)
  obtain ⟨_, _, _, _, literals, never⟩ := floating_exact [0x31, 0x2E, 0x35, 0x3B] 0
  have found := (literals _ plain).1 (by decide)
  obtain ⟨_, _, _, _, literalsToo, _⟩ := floating_exact [0x25, 0x32, 0x42, 0x31, 0x2E, 0x35, 0x65, 0x78] 0
  exact ⟨⟨plain, found, never _ found⟩, signed, (literalsToo _ signed).2 (by decide)⟩

end Grammar

end ODataLiteral
