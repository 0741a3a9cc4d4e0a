import ODataLiteral.Proofs.Boundary
import ODataLiteral.Proofs.Pattern.Language

/-! A double is read from every JSON number. Its octets are ASCII, so they are the octets of a text, and that text is
among the numbers that a double can be read from. -/
namespace ODataLiteral

open Pattern

namespace Pattern

variable {text taken rest : Text}

theorem jsonFrac_leads : jsonFrac.leads = UriChar.isPlain (· == '.'.toUInt8) :=
  leads_of_filled rfl

theorem jsonExp_leads : jsonExp.leads = UriChar.isPlain (Octet.oneOf "eE") :=
  (leads_of_filled rfl).trans (leads_of_filled rfl)

theorem floatNumber_deterministic : floatNumber.Deterministic fun _ => false := by
  have point : UriChar.Apart (plain '.' ++ many digit).leads UriChar.isDigit := by
    rw [leads_of_filled rfl]
    exact UriChar.Apart.symm (UriChar.apart_plain rfl)
  have mark : UriChar.Apart (fun character => jsonExp.leads character || false) UriChar.isDigit := by
    rw [jsonExp_leads]
    exact UriChar.Apart.or (UriChar.Apart.symm (UriChar.apart_oneOf rfl)) (UriChar.false_apart _)
  refine ⟨⟨⟨trivial, rfl, .inr ?_⟩, ⟨⟨⟨trivial, rfl, .inr ?_⟩, ⟨trivial, trivial, rfl, .inr ?_⟩, rfl, .inr ?_⟩,
    trivial, trivial, rfl, .inr ?_⟩, rfl, ?_, nofun⟩,
    ⟨⟨trivial, trivial, rfl, .inr ?_⟩, trivial, rfl, .inr ?_⟩, rfl, .inr ?_⟩
  · exact UriChar.apart_oneOf rfl
  · exact UriChar.Apart.or point mark
  · exact UriChar.Apart.or point mark
  · rw [leads_of_filled rfl]
    exact UriChar.apart_plain rfl
  · exact mark
  · have frac : UriChar.Apart jsonFrac.leads UriChar.isDigit := by
      rw [jsonFrac_leads]
      exact UriChar.Apart.symm (UriChar.apart_plain rfl)
    rw [leads_of_filled rfl]
    exact frac
  · exact UriChar.apart_oneOf rfl
  · exact mark
  · exact UriChar.false_apart _

theorem mem_digits {least : Nat} {row : Text} (enough : least ≤ row.length)
    (digits : ∀ character ∈ row, character.isDigit = true) : row ∈ (atLeast least digit).language :=
  Abnf.mem_repeated_character.mpr ⟨enough, fun _ none => (by cases none), digits⟩

theorem jsonNumber_le_floatNumber : jsonNumber.language ≤ floatNumber.language := by
  rintro _ ⟨_, ⟨_, ⟨sign, signed, whole, digits, rfl⟩, places, fraction, rfl⟩, power, raised, rfl⟩
  have minus : sign ∈ (optional (octet (Octet.oneOf "-+"))).language := by
    refine Abnf.mem_optional.mpr ((Abnf.mem_optional.mp signed).imp_right fun minus => ?_)
    obtain ⟨octet, accepted, rfl⟩ := Abnf.mem_raw.mp minus
    obtain rfl := beq_iff_eq.mp accepted
    exact Abnf.mem_raw.mpr ⟨_, rfl, rfl⟩
  have row : whole ∈ (atLeast 1 digit).language := by
    rcases (Language.mem_add _ _ _).mp digits with zero | ⟨first, here, others, more, rfl⟩
    · obtain ⟨octet, accepted, rfl⟩ := Abnf.mem_raw.mp zero
      obtain rfl := beq_iff_eq.mp accepted
      exact mem_digits (Nat.le_refl 1) (List.forall_mem_singleton.mpr rfl)
    · obtain ⟨octet, accepted, rfl⟩ := Abnf.mem_raw.mp here
      obtain ⟨_, _, every⟩ := Abnf.mem_repeated_character.mp more
      exact mem_digits (Nat.succ_le_succ (Nat.zero_le _))
        (List.forall_mem_cons.mpr ⟨Octet.between_mono (by decide) (by decide) accepted, every⟩)
  have behind : places ∈ (optional (plain '.' ++ many digit)).language := by
    refine Abnf.mem_optional.mpr ((Abnf.mem_optional.mp fraction).imp_right ?_)
    rintro ⟨point, here, others, digits, rfl⟩
    obtain ⟨_, _, every⟩ := Abnf.mem_repeated_character.mp digits
    exact Language.append_mem_mul here (mem_digits (Nat.zero_le _) every)
  have number : whole ++ places ∈
      ((atLeast 1 digit ++ optional (plain '.' ++ many digit)) <|> jsonFrac).language :=
    (Language.mem_add _ _ _).mpr (.inl (Language.append_mem_mul row behind))
  have front := Language.append_mem_mul minus number
  rw [← List.append_assoc] at front
  exact Language.append_mem_mul front raised

/-- A JSON number is spelled in plain ASCII, and without a percent sign. -/
theorem jsonNumber_spells : jsonNumber.Spells fun character =>
    ∃ octet, character = .plain octet ∧ octet < 0x80 ∧ octet ≠ UriChar.percent := by
  have low (accepts : UInt8 → Bool) (ascii : ∀ octet : Fin 256, accepts (.ofFin octet) = true →
      UInt8.ofFin octet < 0x80 ∧ UInt8.ofFin octet ≠ UriChar.percent) : (octet accepts).Spells fun character =>
        ∃ octet, character = .plain octet ∧ octet < 0x80 ∧ octet ≠ UriChar.percent := by
    intro character accepted
    cases character with
    | encoded high low => cases accepted
    | plain octet => exact ⟨octet, rfl, ascii octet.toFin accepted⟩
  have digit := low Octet.isDigit (by decide +kernel)
  exact ⟨⟨⟨low _ (by decide +kernel), low _ (by decide +kernel), low _ (by decide +kernel), digit⟩,
    low _ (by decide +kernel), digit⟩, ⟨low _ (by decide +kernel), low _ (by decide +kernel)⟩, digit⟩

end Pattern

namespace Utf8

/-- Octets in ASCII are the octets of a text. -/
theorem exists_text_of_ascii {octets : Bytes} (low : ∀ octet ∈ octets, octet < 0x80) :
    ∃ text, decode? octets = some text ∧ Bytes.ofString text = octets := by
  obtain ⟨text, decoded⟩ := Option.isSome_iff_exists.mp (decode?_isSome_iff.mpr (valid_of_ascii low))
  refine ⟨text, decoded, ?_⟩
  rw [← encode_eq_ofString]
  exact decode?_eq_some_iff.mp decoded

end Utf8

namespace Binary64

variable {text taken rest : Text}

theorem ofString?_of_floatNumber {digits : String} (legible : text.Legible)
    (spelled : Bytes.ofString digits = text.bytes) (member : text ∈ floatNumber.language) :
    ofString? digits = some (ofDecimal (Decimal.ofText text)) := by
  have ends : HeadIn (fun _ => false) [] := fun _ none => (by cases none)
  have whole := split_of_mem (by decide) floatNumber_deterministic member ends
  rw [List.append_nil, ← Text.ofBytes_bytes legible, split_ofBytes (by decide)] at whole
  obtain ⟨⟨number, left⟩, scanned, same⟩ := Option.map_eq_some_iff.mp whole
  obtain ⟨rfl, none⟩ := Prod.mk.inj same
  have empty : left = [] := by
    rw [← Text.bytes_ofBytes left, show Text.ofBytes left = [] from none]
    rfl
  rw [ofString?, spelled, scanned, empty, Text.ofBytes_bytes legible]

theorem exists_text_of_number (read : jsonNumber.split text = some (taken, rest)) :
    ∃ digits, Utf8.decode? taken.bytes = some digits ∧ Bytes.ofString digits = taken.bytes := by
  refine Utf8.exists_text_of_ascii fun octet inside => ?_
  obtain ⟨character, here, inside⟩ := List.mem_flatMap.mp inside
  obtain ⟨_, rfl, low, _⟩ := spells_of_split (by decide) jsonNumber_spells read character here
  obtain rfl := List.mem_singleton.mp inside
  exact low

/-- A JSON number passes the check on its octets and is converted. -/
theorem ofString?_of_number (read : jsonNumber.split text = some (taken, rest)) :
    (Utf8.decode? taken.bytes).bind ofString? = some (ofDecimal (Decimal.ofText taken)) := by
  have legible : taken.Legible := by
    intro character inside
    obtain ⟨octet, rfl, _, other⟩ := spells_of_split (by decide) jsonNumber_spells read character inside
    exact other
  obtain ⟨digits, decoded, same⟩ := exists_text_of_number read
  rw [decoded, Option.bind_some]
  exact ofString?_of_floatNumber legible same (jsonNumber_le_floatNumber (mem_language_of_split (by decide) read))

end Binary64

end ODataLiteral
