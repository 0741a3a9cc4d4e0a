import ODataLiteral.Proofs.Boundary
import ODataLiteral.Proofs.Json.Terminals
import ODataLiteral.Proofs.Rule.Longest

/-! JSON numbers. A number is the longest that stands at an offset. A point or an exponent mark without digits is left
behind, and what stands before it is a number all the same. The octets of a number are checked and converted, which
never fails. -/
namespace ODataLiteral

open Abnf (Begins Derives Longest)
open Pattern

namespace Abnf

/-- `[ "-" ] int`, where `int = "0" / oneToNine *DIGIT`. -/
def signedInt : Language UriChar :=
  optional (raw (· == '-'.toUInt8)) *
    (raw (· == '0'.toUInt8) + raw Octet.isOneToNine * repeated 0 none digit)

/-- `frac = "." 1*DIGIT`. -/
def frac : Language UriChar :=
  raw (· == '.'.toUInt8) * repeated 1 none digit

/-- `exp = ( "e" / "E" ) [ "-" / "+" ] 1*DIGIT`. -/
def exp : Language UriChar :=
  raw (Octet.oneOf "eE") * optional (raw (Octet.oneOf "-+")) * repeated 1 none digit

end Abnf

namespace Pattern

variable {text taken rest : Text} {octets : Bytes}

/-- An optional part that does not stand here ends a sequence where the part before it ends. -/
theorem split_optional_refused {first second : Pattern} (filled : second.nullable = false)
    (read : first.split text = some (taken, rest)) (refused : second.split rest = none) :
    (first ++ optional second).split text = some (taken, rest) :=
  split_seq_iff.mpr ⟨taken, rest, [], read, (split_optional_iff filled).mpr (.inr ⟨refused, rfl, rfl⟩),
    (List.append_nil _).symm⟩

/-- The digits of a number before its point. -/
def jsonInt : Pattern :=
  optional (plain '-') ++ (plain '0' <|> (octet Octet.isOneToNine ++ many digit))

theorem jsonNumber_eq : jsonNumber = jsonInt ++ optional jsonFrac ++ optional jsonExp := rfl

theorem jsonNumber_maximal : jsonNumber.Maximal :=
  maximal_of_deterministic (by decide) (by decide) jsonNumber_deterministic

theorem jsonFrac_maximal : jsonFrac.Maximal :=
  maximal_of_deterministic rfl rfl jsonNumber_deterministic.1.2.1

theorem jsonExp_maximal : jsonExp.Maximal :=
  maximal_of_deterministic rfl rfl jsonNumber_deterministic.2.1

/-- Before a point, an integer is taken as it stands. -/
theorem jsonInt_takes : jsonInt.Takes jsonFrac.leads := by
  intro text member tail here
  refine split_of_mem (by decide) jsonNumber_deterministic.1.1 member (here.mono fun character lead => ?_)
  rw [Bool.or_eq_true]
  exact .inl lead

/-- Before the mark of an exponent, an integer with its fraction is taken as it stands. -/
theorem mantissa_takes : (jsonInt ++ optional jsonFrac).Takes jsonExp.leads := by
  intro text member tail here
  refine split_of_mem (by decide) jsonNumber_deterministic.1 member (here.mono fun character lead => ?_)
  rw [Bool.or_eq_true]
  exact .inl lead

end Pattern

namespace Grammar

variable {source : Bytes} {offset : Nat} {token : Token} {front rest : Bytes}

theorem jsonNumber_tokenAt?_iff : jsonNumber.tokenAt? source offset = some token ↔
    ∃ front, Longest Abnf.number (source.drop offset) front ∧
      token = ⟨.literal, ⟨offset, offset + front.length⟩,
        .json (.number (Binary64.ofDecimal (Decimal.ofText (Text.ofBytes front))))⟩ := by
  rw [jsonNumber, Rule.tokenAt?_longest_iff jsonNumber_maximal (by decide) (by decide) Meaning.jsonNumber_fits
    fun _ => rfl]
  rfl

theorem jsonNumber_tokenAt?_eq_none_iff :
    jsonNumber.tokenAt? source offset = none ↔ ¬ Begins Abnf.number (source.drop offset) :=
  Rule.tokenAt?_eq_none_iff_begins jsonNumber_maximal (by decide) (by decide) Meaning.jsonNumber_fits fun _ => rfl

section Partial

/-- A buffer that a number ends in the middle of. -/
theorem longest_of_jsonNumber
    (read : Pattern.jsonNumber.split (Text.ofBytes (front ++ rest)) = some (Text.ofBytes front, Text.ofBytes rest)) :
    Longest Abnf.number (front ++ rest) front := by
  have longest := jsonNumber_maximal.longest_of_split (by decide) (by decide) read
  rwa [Text.bytes_ofBytes] at longest

/-- A point without digits ends a number before it. -/
theorem longest_of_incomplete_frac (derived : Derives Abnf.signedInt front) (point : rest.head? = some '.'.toUInt8)
    (incomplete : ¬ Begins Abnf.frac rest) : Longest Abnf.number (front ++ rest) front := by
  have first : (Text.ofBytes rest).head? = some (.plain '.'.toUInt8) :=
    (Text.head?_ofBytes_eq_plain_iff (by decide)).mpr point
  have before : HeadIn jsonFrac.leads (Text.ofBytes rest) := by
    intro character next
    obtain rfl := Option.some.inj (first.symm.trans next)
    rw [jsonFrac_leads]
    rfl
  have read := jsonInt_takes _ (Abnf.derives_iff.mp derived).1 _ before
  have noFrac : jsonFrac.split (Text.ofBytes rest) = none := split_eq_none_of_not_begins rfl rfl incomplete
  have noExp : jsonExp.split (Text.ofBytes rest) = none := by
    refine split_eq_none_of_head rfl rfl fun character next => ?_
    obtain rfl := Option.some.inj (first.symm.trans next)
    rw [jsonExp_leads]
    rfl
  refine longest_of_jsonNumber ?_
  rw [derived.ofBytes_append, jsonNumber_eq]
  exact split_optional_refused rfl (split_optional_refused rfl read noFrac) noExp

/-- The mark of an exponent without digits ends a number before it. -/
theorem longest_of_incomplete_exp (derived : Derives (Abnf.signedInt * Abnf.optional Abnf.frac) front)
    (mark : rest.head? = some 'e'.toUInt8 ∨ rest.head? = some 'E'.toUInt8) (incomplete : ¬ Begins Abnf.exp rest) :
    Longest Abnf.number (front ++ rest) front := by
  have first : (Text.ofBytes rest).head? = some (.plain 'e'.toUInt8) ∨
      (Text.ofBytes rest).head? = some (.plain 'E'.toUInt8) :=
    mark.imp (Text.head?_ofBytes_eq_plain_iff (by decide)).mpr (Text.head?_ofBytes_eq_plain_iff (by decide)).mpr
  have before : HeadIn jsonExp.leads (Text.ofBytes rest) := by
    intro character next
    rw [jsonExp_leads]
    rcases first with first | first
    all_goals obtain rfl := Option.some.inj (first.symm.trans next)
    all_goals decide
  have read := mantissa_takes _ (Abnf.derives_iff.mp derived).1 _ before
  have noExp : jsonExp.split (Text.ofBytes rest) = none := split_eq_none_of_not_begins rfl rfl incomplete
  refine longest_of_jsonNumber ?_
  rw [derived.ofBytes_append, jsonNumber_eq]
  exact split_optional_refused rfl read noExp

end Partial

section Conversion

variable (longest : Longest Abnf.number (source.drop offset) front)

include longest

theorem split_of_number : Pattern.jsonNumber.split (Text.ofBytes (source.drop offset)) =
    some (Text.ofBytes front, Text.ofBytes ((source.drop offset).drop front.length)) :=
  jsonNumber_maximal.split_of_longest (by decide) (by decide) longest

/-- A number is written in ASCII, so it is a text. -/
theorem exists_text_of_number :
    ∃ text : String, Utf8.decode? front = some text ∧ Bytes.ofString text = front := by
  have decoded := Binary64.exists_text_of_number (split_of_number longest)
  rwa [Text.bytes_ofBytes] at decoded

theorem number_converted : (Utf8.decode? front).bind Binary64.ofString? =
    some (Binary64.ofDecimal (Decimal.ofText (Text.ofBytes front))) := by
  have converted := Binary64.ofString?_of_number (split_of_number longest)
  rwa [Text.bytes_ofBytes] at converted

theorem number_holds : (Cursor.ofSource source offset).Holds source.length (Text.ofBytes front) := by
  obtain ⟨after, same⟩ := longest.begins
  have filled : front ≠ [] := by
    rintro rfl
    have member := (Abnf.derives_iff.mp longest.derived).1
    exact ne_nil_of_mem (show Pattern.jsonNumber.nullable = false from rfl) member rfl
  have long := List.length_pos_iff.mpr filled
  have wide := congrArg List.length same
  rw [List.length_append, List.length_drop] at wide
  refine ⟨⟨after, ?_⟩, ?_⟩
  · rw [Text.bytes_ofBytes]
    exact same.symm
  · rw [← Text.length_bytes, Text.bytes_ofBytes]
    show offset + front.length ≤ source.length
    omega

/-- No check fails on the octets of a number, and neither does its conversion. -/
theorem number_read : Meaning.jsonNumber.read? source.length (Cursor.ofSource source offset) (Text.ofBytes front) =
    .ok (some (.json (.number (Binary64.ofDecimal (Decimal.ofText (Text.ofBytes front)))))) :=
  Meaning.read?_of_readable (Meaning.jsonNumber_fits _ _ _ (split_of_number longest)) (number_holds longest)

end Conversion

/-- A number is read exactly from the longest octets of its grammar, and there is none only where no number begins. A
point or an exponent mark without digits is left behind and the number before it is read. The octets of a number are a
text, so a conversion that accepts every text of the grammar has a value for each number that is read. The conversion
of the reader is one: neither its check of the octets nor the conversion itself fails on them. -/
theorem jsonNumber_exact (source : Bytes) (offset : Nat) :
    (∀ token, jsonNumber.tokenAt? source offset = some token ↔
      ∃ front, Longest Abnf.number (source.drop offset) front ∧
        token = ⟨.literal, ⟨offset, offset + front.length⟩,
          .json (.number (Binary64.ofDecimal (Decimal.ofText (Text.ofBytes front))))⟩) ∧
    (jsonNumber.tokenAt? source offset = none ↔ ¬ Begins Abnf.number (source.drop offset)) ∧
    (∀ front rest, source.drop offset = front ++ rest →
      (Derives Abnf.signedInt front → rest.head? = some '.'.toUInt8 → ¬ Begins Abnf.frac rest →
        ∃ token, jsonNumber.tokenAt? source offset = some token ∧ token.span = ⟨offset, offset + front.length⟩) ∧
      (Derives (Abnf.signedInt * Abnf.optional Abnf.frac) front →
        rest.head? = some 'e'.toUInt8 ∨ rest.head? = some 'E'.toUInt8 → ¬ Begins Abnf.exp rest →
        ∃ token, jsonNumber.tokenAt? source offset = some token ∧ token.span = ⟨offset, offset + front.length⟩)) ∧
    (∀ convert : String → Option Binary64,
      (∀ text, Derives Abnf.number (Bytes.ofString text) → (convert text).isSome = true) →
        ∀ front, Longest Abnf.number (source.drop offset) front →
          ((Utf8.decode? front).bind convert).isSome = true) ∧
    ∀ front, Longest Abnf.number (source.drop offset) front →
      (Utf8.decode? front).bind Binary64.ofString? =
        some (Binary64.ofDecimal (Decimal.ofText (Text.ofBytes front))) ∧
      Meaning.jsonNumber.read? source.length (Cursor.ofSource source offset) (Text.ofBytes front) =
        .ok (some (.json (.number (Binary64.ofDecimal (Decimal.ofText (Text.ofBytes front)))))) := by
  refine ⟨fun _ => jsonNumber_tokenAt?_iff, jsonNumber_tokenAt?_eq_none_iff, fun front rest same => ?_, ?_,
    fun front longest => ⟨number_converted longest, number_read longest⟩⟩
  · have reads (longest : Longest Abnf.number (front ++ rest) front) : ∃ token,
        jsonNumber.tokenAt? source offset = some token ∧ token.span = ⟨offset, offset + front.length⟩ :=
      ⟨_, jsonNumber_tokenAt?_iff.mpr ⟨front, same ▸ longest, rfl⟩, rfl⟩
    exact ⟨fun derived point incomplete => reads (longest_of_incomplete_frac derived point incomplete),
      fun derived mark incomplete => reads (longest_of_incomplete_exp derived mark incomplete)⟩
  · intro convert accepts front longest
    obtain ⟨text, decoded, spelled⟩ := exists_text_of_number longest
    rw [decoded, Option.bind_some]
    exact accepts text (spelled ▸ longest.derived)

/-- Of `1.e5` the `1` is read, and of `-0.5E+` all but the exponent. -/
theorem jsonNumber_exact_partial :
    (∃ token, jsonNumber.tokenAt? [0x31, 0x2E, 0x65, 0x35] 0 = some token ∧ token.span = ⟨0, 1⟩) ∧
    (∃ token, jsonNumber.tokenAt? [0x2D, 0x30, 0x2E, 0x35, 0x45, 0x2B] 0 = some token ∧ token.span = ⟨0, 4⟩) ∧
    ((Utf8.decode? [0x2D, 0x30, 0x2E, 0x35]).bind fun text =>
      some (Binary64.ofDecimal (Decimal.ofText (Text.ofBytes (Bytes.ofString text))))).isSome = true ∧
    (Utf8.decode? [0x2D, 0x30, 0x2E, 0x35]).bind Binary64.ofString? =
      some (Binary64.ofDecimal ⟨true, 5, -1⟩) := by
  have refused {pattern : Pattern} {octets : Bytes} (maximal : pattern.Maximal)
      (none : pattern.split (Text.ofBytes octets) = none) : ¬ Begins pattern.language octets := by
    intro begins
    obtain ⟨_, _, read⟩ := maximal.split_of_begins begins
    cases none.symm.trans read
  have one : Derives Abnf.signedInt [0x31] :=
    derives_of_split rfl rfl (show jsonInt.split (Text.ofBytes [0x31]) = some ([.plain 0x31], []) by rfl)
  have half : Derives (Abnf.signedInt * Abnf.optional Abnf.frac) [0x2D, 0x30, 0x2E, 0x35] :=
    derives_of_split rfl rfl (show (jsonInt ++ optional jsonFrac).split (Text.ofBytes [0x2D, 0x30, 0x2E, 0x35]) =
      some ([.plain 0x2D, .plain 0x30, .plain 0x2E, .plain 0x35], []) by rfl)
  have noFrac : ¬ Begins Abnf.frac [0x2E, 0x65, 0x35] := refused jsonFrac_maximal rfl
  have noExp : ¬ Begins Abnf.exp [0x45, 0x2B] := refused jsonExp_maximal rfl
  have longest : Longest Abnf.number [0x2D, 0x30, 0x2E, 0x35, 0x45, 0x2B] [0x2D, 0x30, 0x2E, 0x35] :=
    longest_of_incomplete_exp half (.inr rfl) noExp
  obtain ⟨_, _, partialForms, _⟩ := jsonNumber_exact [0x31, 0x2E, 0x65, 0x35] 0
  obtain ⟨_, _, partialFormsToo, conversions, own⟩ := jsonNumber_exact [0x2D, 0x30, 0x2E, 0x35, 0x45, 0x2B] 0
  exact ⟨(partialForms [0x31] [0x2E, 0x65, 0x35] rfl).1 one rfl noFrac,
    (partialFormsToo [0x2D, 0x30, 0x2E, 0x35] [0x45, 0x2B] rfl).2 half (.inr rfl) noExp,
    conversions _ (fun _ _ => rfl) _ longest, (own _ longest).1⟩

end Grammar

end ODataLiteral
