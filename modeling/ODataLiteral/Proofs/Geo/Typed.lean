import ODataLiteral.Proofs.Geo.Completeness
import ODataLiteral.Proofs.Literal.Integer
import ODataLiteral.Proofs.Literal.String
import ODataLiteral.Proofs.Literal.Winner
import ODataLiteral.Proofs.Literal.Yields
import ODataLiteral.Proofs.Rule.Composite

/-! Spatial literals on a surface. Both surfaces have the same literals after their keywords: a quote, a reference
system, a literal of the shape, and a quote. No two of the fourteen types have a literal in common, and nothing that is
tried before them stands where one of them does. -/
namespace ODataLiteral

open Abnf (Derives)
open Pattern

def Surface.keyword : Surface → Bytes
  | geography => Bytes.ofString "geography"
  | geometry => Bytes.ofString "geometry"

namespace Spatial

/-- A reference system as it is written: a keyword, one to five digits, and a semicolon. -/
structure Reference where
  digits : Bytes
  semicolon : Bytes
  filled : 1 ≤ digits.length
  few : digits.length ≤ 5
  every : ∀ octet ∈ digits, Octet.isDigit octet = true
  ends : Derives (Abnf.mark ';') semicolon

namespace Reference

def octets (reference : Reference) : Bytes :=
  Bytes.ofString "SRID=" ++ (reference.digits ++ reference.semicolon)

/-- The token of a reference system that stands at an offset. Its value is what its digits denote. -/
def token (reference : Reference) (offset : Nat) : Token :=
  ⟨.literal, ⟨offset, offset + reference.octets.length⟩, .srid (Bytes.positional reference.digits)⟩

end Reference

/-- What stands after the keyword of a surface: a quote, a reference system, octets that are a literal of a shape as a
whole, and a quote. -/
structure Body (kind : Shape) where
  opening : Bytes
  reference : Reference
  literal : Bytes
  closing : Bytes
  opens : Derives Abnf.singleQuote opening
  drawn : ∃ token, (Grammar.shape kind).complete literal = .ok token
  closes : Derives Abnf.singleQuote closing

namespace Body

variable {kind : Shape}

def full (body : Body kind) : Bytes :=
  body.reference.octets ++ body.literal

def octets (body : Body kind) : Bytes :=
  body.opening ++ (body.full ++ body.closing)

end Body

section Reference

variable {source octets : Bytes} {offset : Nat} {token : Token}

def pattern : Pattern :=
  word "SRID" ++ equalsSign ++ times 1 (some 5) digit ++ semicolon

theorem language_pattern : pattern.language = Abnf.word "SRID" * Abnf.raw (· == '='.toUInt8) *
    Abnf.repeated 1 (some 5) Abnf.digit * Abnf.mark ';' := by
  rw [← language_word, ← language_delimiter]
  rfl

theorem semicolon_apart_digit : UriChar.Apart (UriChar.isDelimiter ';') UriChar.isDigit :=
  UriChar.Apart.symm (UriChar.apart_delimiter rfl fun _ _ => rfl)

theorem pattern_exactly : pattern.Exactly Grammar.anything := by
  have determined : pattern.Deterministic Grammar.anything := by
    refine ⟨⟨⟨text_deterministic _ _, trivial⟩, trivial, rfl, .inr ?_⟩, trivial⟩
    exact UriChar.Apart.or semicolon_apart_digit fun _ none => (by cases none)
  exact (takes_of_deterministic (by decide) determined).exactly (by decide) fun _ _ _ _ _ _ => rfl

theorem bytes_keyword : Text.bytes (Text.ofWord "SRID=") = Bytes.ofString "SRID=" := by
  decide +kernel

theorem derives_pattern_iff : Derives pattern.language octets ↔ ∃ reference : Reference, octets = reference.octets := by
  have legible : (Text.ofWord "SRID").Legible := by decide
  have digits : Octet.isDigit UriChar.percent = false := rfl
  have equals (octets : Bytes) : Derives (Abnf.raw (· == '='.toUInt8)) octets ↔ octets = ['='.toUInt8] := by
    rw [Abnf.derives_raw_iff rfl]
    simp
  have spelled : Text.bytes (Text.ofWord "SRID") ++ ['='.toUInt8] = Bytes.ofString "SRID=" := bytes_keyword
  simp only [language_pattern, Abnf.derives_mul_iff, Abnf.derives_word_iff legible, Abnf.digit,
    Abnf.derives_repeated_raw_iff digits, equals]
  constructor
  · rintro ⟨_, semicolon, ⟨_, digits, ⟨_, _, rfl, rfl, rfl⟩, ⟨filled, few, every⟩, rfl⟩, ends, rfl⟩
    refine ⟨⟨digits, semicolon, filled, few 5 rfl, every, ends⟩, ?_⟩
    rw [Reference.octets, ← spelled, List.append_assoc]
  · rintro ⟨reference, rfl⟩
    rw [Reference.octets, ← spelled, ← List.append_assoc]
    refine ⟨_, _, ⟨_, _, ⟨_, _, rfl, rfl, rfl⟩, ⟨reference.filled, ?_, reference.every⟩, rfl⟩, reference.ends, rfl⟩
    rintro _ ⟨⟩
    exact reference.few

/-- Neither the keyword nor the semicolon counts for the number. -/
theorem Reference.natural_eq (reference : Reference) :
    Text.natural (Text.ofBytes reference.octets) = Bytes.positional reference.digits := by
  obtain ⟨character, isMark, legible, same⟩ := Abnf.derives_mark_iff.mp reference.ends
  have front : Text.Legible (Text.ofWord "SRID=") := by decide
  have plain : Text.Legible (reference.digits.map UriChar.plain) :=
    Text.legible_plain fun percent => (by cases reference.every _ percent)
  have keyword : ∀ character ∈ Text.ofWord "SRID=", character.isDigit = false := by decide
  have mark : ∀ other ∈ [character], other.isDigit = false :=
    List.forall_mem_singleton.mpr (semicolon_apart_digit character isMark)
  have last : Text.ofBytes reference.semicolon = [character] := by
    rw [same, ← List.append_nil character.bytes, Text.ofBytes_character_append legible, Text.ofBytes_nil]
  rw [Reference.octets, ← bytes_keyword, Text.ofBytes_bytes_append front, ← Text.bytes_plain reference.digits,
    Text.ofBytes_bytes_append plain, Text.bytes_plain, last, Text.natural, List.foldl_append, List.foldl_append,
    Text.foldl_extendNumeral_of_no_digits _ keyword, Text.foldl_extendNumeral_of_no_digits _ mark]
  exact natural_plain reference.every

theorem srid_tokenAt?_iff : Grammar.srid.tokenAt? source offset = some token ↔
    ∃ reference : Reference, reference.octets <+: source.drop offset ∧ token = reference.token offset := by
  have form : Grammar.srid = .lexeme .literal .srid pattern := rfl
  rw [form, Rule.tokenAt?_lexeme_stands_iff pattern_exactly (by decide) (by decide) Meaning.srid_fits]
  simp only [derives_pattern_iff]
  constructor
  · rintro ⟨_, _, ⟨reference, rfl⟩, stands, _, ⟨⟩, rfl⟩
    exact ⟨reference, stands, by rw [reference.natural_eq, Reference.token]⟩
  · rintro ⟨reference, stands, rfl⟩
    refine ⟨_, _, ⟨reference, rfl⟩, stands, fun _ _ => rfl, rfl, ?_⟩
    rw [reference.natural_eq, Reference.token]

end Reference

section Body

variable {surface : Surface} {kind : Shape} {source octets : Bytes} {offset stop : Nat} {token : Token}

theorem shape_steady (kind : Shape) : (Grammar.shape kind).steady = true :=
  (Grammar.shape_leads kind).steady

/-- Octets are a literal of a shape as a whole where the grammar of the shape derives them. -/
theorem exists_complete_iff : (∃ token, (Grammar.shape kind).complete octets = .ok token) ↔
    Derives (Abnf.shape Abnf.rawOpen (Abnf.collection Abnf.rawOpen maxDepth) kind) octets := by
  have whole : octets.slice 0 octets.length = octets := List.take_length
  have stops := (Grammar.shape_exact kind).stops octets 0 octets.length
  rw [whole] at stops
  simp only [Rule.complete_iff, stops, Nat.le_refl, true_and]

/-- A literal is read in a source where octets stand that are one as a whole. -/
theorem exists_shape_iff :
    (∃ token, (Grammar.shape kind).tokenAt? source offset = some token ∧ token.span.stop = stop) ↔
      ∃ literal, (∃ token, (Grammar.shape kind).complete literal = .ok token) ∧ literal <+: source.drop offset ∧
        stop = offset + literal.length := by
  simp only [(Grammar.shape_exact kind).stops, exists_complete_iff]
  have filled {literal : Bytes}
      (derived : Derives (Abnf.shape Abnf.rawOpen (Abnf.collection Abnf.rawOpen maxDepth) kind) literal) :
      literal ≠ [] :=
    derived.ne_nil (Rule.nil_notMem_of_complete (shape_steady kind)
      (Grammar.shape_complete (Grammar.collection_complete maxDepth) kind))
  constructor
  · rintro ⟨inside, derived⟩
    exact ⟨_, derived, (Bytes.slice_eq_iff (filled derived)).mp ⟨inside, rfl⟩⟩
  · rintro ⟨literal, derived, stands⟩
    obtain ⟨inside, rfl⟩ := (Bytes.slice_eq_iff (filled derived)).mpr stands
    exact ⟨inside, derived⟩

theorem withSrid_tokenAt?_iff : (Grammar.withSrid (Grammar.shape kind)).tokenAt? source offset = some token ↔
    ∃ (reference : Reference) (literal : Token), reference.octets <+: source.drop offset ∧
      (Grammar.shape kind).tokenAt? source (offset + reference.octets.length) = some literal ∧
      token = ⟨.literal, ⟨offset, literal.span.stop⟩, .fullGeo (reference.token offset) literal⟩ := by
  rw [Grammar.withSrid, Rule.tokenAt?_pair_iff (by decide) (shape_steady kind) Grammar.srid_fits
    (Grammar.shape_fits kind)]
  simp only [srid_tokenAt?_iff]
  constructor
  · rintro ⟨_, literal, ⟨reference, stands, rfl⟩, found, rfl⟩
    exact ⟨reference, literal, stands, found, rfl⟩
  · rintro ⟨reference, literal, stands, found, rfl⟩
    exact ⟨_, literal, ⟨reference, stands, rfl⟩, found, rfl⟩

/-- What stands between the quotes is read with the reference system, and the literal where that ends. -/
theorem exists_withSrid (body : Body kind) (stands : body.full <+: source.drop offset) :
    ∃ value, (Grammar.shape kind).tokenAt? source (offset + body.reference.octets.length) = some value ∧
      value.span.stop = offset + body.full.length ∧
      (Grammar.withSrid (Grammar.shape kind)).tokenAt? source offset =
        some ⟨.literal, ⟨offset, offset + body.full.length⟩, .fullGeo (body.reference.token offset) value⟩ := by
  obtain ⟨front, back⟩ := Bytes.append_prefix_drop_iff.mp stands
  obtain ⟨value, found, ends⟩ := exists_shape_iff.mpr ⟨body.literal, body.drawn, back, rfl⟩
  have length : offset + body.full.length = value.span.stop := by
    rw [ends, Body.full, List.length_append, Nat.add_assoc]
  rw [length]
  exact ⟨value, found, rfl, withSrid_tokenAt?_iff.mpr ⟨body.reference, value, front, found, rfl⟩⟩

theorem derives_opening_iff (surface : Surface) :
    Derives (Grammar.surfacePrefix surface ++ Pattern.quote).language octets ↔
      ∃ opening, Derives Abnf.singleQuote opening ∧ octets = surface.keyword ++ opening := by
  have named : ∀ octets, Derives (Grammar.surfacePrefix surface).language octets ↔ octets = surface.keyword := by
    intro octets
    cases surface with
    | geography | geometry =>
      rw [Grammar.surfacePrefix, language_word, Abnf.derives_word_iff (by decide)]
      exact Eq.congr_right (by decide +kernel)
  simp only [append_eq_seq, language, Abnf.derives_mul_iff, named, language_quote]
  constructor
  · rintro ⟨_, opening, rfl, opens, rfl⟩
    exact ⟨opening, opens, rfl⟩
  · rintro ⟨opening, opens, rfl⟩
    exact ⟨_, opening, rfl, opens, rfl⟩

theorem opening_takes (surface : Surface) :
    (Grammar.surfacePrefix surface ++ Pattern.quote).Takes Grammar.anything := by
  cases surface with
  | geography | geometry => exact takes_of_deterministic (by decide) ⟨text_deterministic _ _, trivial⟩

theorem Body.stands_iff (body : Body kind) : surface.keyword ++ body.octets <+: source.drop offset ↔
    surface.keyword ++ body.opening <+: source.drop offset ∧
      body.full <+: source.drop (offset + (surface.keyword ++ body.opening).length) ∧
      body.closing <+: source.drop (offset + (surface.keyword ++ body.opening).length + body.full.length) := by
  rw [Body.octets, ← List.append_assoc]
  generalize surface.keyword ++ body.opening = front
  rw [Bytes.append_prefix_drop_iff, Bytes.append_prefix_drop_iff]

theorem Body.stop_eq (body : Body kind) : offset + (surface.keyword ++ body.octets).length =
    offset + (surface.keyword ++ body.opening).length + body.full.length + body.closing.length := by
  simp only [Body.octets, List.length_append]
  omega

theorem spatial_tokenAt?_iff : (Grammar.spatial surface kind).tokenAt? source offset = some token ↔
    ∃ body : Body kind, surface.keyword ++ body.octets <+: source.drop offset ∧
      token = ⟨.literal, ⟨offset, offset + (surface.keyword ++ body.octets).length⟩,
        .typed (.spatial surface kind)⟩ := by
  have fits : (Grammar.withSrid (Grammar.shape kind)).Fits := ⟨Grammar.srid_fits, Grammar.shape_fits kind⟩
  have steady : (Rule.enclosed .literal (Grammar.surfacePrefix surface ++ Pattern.quote)
      (Grammar.withSrid (Grammar.shape kind)) Pattern.quote).steady = true := by
    cases surface <;> cases kind <;> rfl
  have clean : (Grammar.surfacePrefix surface ++ Pattern.quote).clean = true := by
    cases surface <;> decide
  have closes : Pattern.quote.Takes Grammar.anything := Grammar.takes_char (UriChar.isDelimiter '\'') _
  rw [Grammar.spatial, Grammar.quotedAs, Rule.tokenAt?_withType_iff steady fits]
  simp only [Rule.tokenAt?_enclosed_iff (opening_takes surface) closes steady clean (by decide) fits,
    derives_opening_iff, language_quote]
  constructor
  · rintro ⟨_, ⟨_, _, closing, ⟨opening, opens, rfl⟩, front, full, closes, back, rfl⟩, rfl⟩
    obtain ⟨reference, value, middle, found, rfl⟩ := withSrid_tokenAt?_iff.mp full
    obtain ⟨literal, drawn, behind, ends⟩ := exists_shape_iff.mp ⟨value, found, rfl⟩
    have length : value.span.stop = offset + (surface.keyword ++ opening).length +
        (reference.octets ++ literal).length := by
      simp only [ends, List.length_append]
      omega
    -- The parts that were read are those of a literal as it is written.
    let body : Body kind := ⟨opening, reference, literal, closing, opens, drawn, closes⟩
    refine ⟨body, body.stands_iff.mpr ⟨front, Bytes.append_prefix_drop_iff.mpr ⟨middle, behind⟩, ?_⟩, ?_⟩
    · exact length ▸ back
    · have whole : value.span.stop + closing.length = offset + (surface.keyword ++ body.octets).length := by
        rw [body.stop_eq, length]
        rfl
      rw [← whole]
      rfl
  · rintro ⟨body, stands, rfl⟩
    obtain ⟨front, full, back⟩ := body.stands_iff.mp stands
    obtain ⟨value, _, _, found⟩ := exists_withSrid body full
    rw [body.stop_eq]
    exact ⟨_, ⟨_, _, body.closing, ⟨body.opening, body.opens, rfl⟩, front, found, body.closes, back, rfl⟩, rfl⟩

theorem exists_stop_iff (surface : Surface) (kind : Shape) (octets : Bytes) (count : Nat) :
    (∃ token, (Grammar.spatial surface kind).tokenAt? (surface.keyword ++ octets) 0 = some token ∧
        token.span.stop = surface.keyword.length + count) ↔
      count ≤ octets.length ∧ ∃ body : Body kind, body.octets = octets.take count := by
  simp only [spatial_tokenAt?_iff, List.drop_zero, List.prefix_append_right_inj, Nat.zero_add, List.length_append]
  constructor
  · rintro ⟨_, ⟨body, stands, rfl⟩, ends⟩
    obtain rfl : body.octets.length = count := Nat.add_left_cancel ends
    exact ⟨stands.length_le, body, List.prefix_iff_eq_take.mp stands⟩
  · rintro ⟨inside, body, same⟩
    have length : body.octets.length = count := by rw [same, List.length_take, Nat.min_eq_left inside]
    exact ⟨_, ⟨body, same ▸ List.take_prefix _ _, rfl⟩, by rw [length]⟩

end Body

end Spatial

namespace Grammar

open Rule

variable {rule : Rule} {before after : List Rule}

theorem spatial_mem (surface : Surface) (kind : Shape) : spatial surface kind ∈ spatials := by
  have drawn : kind ∈ Shape.all := by cases kind <;> decide
  cases surface with
  | geography => exact List.mem_append_left _ (List.mem_map_of_mem drawn)
  | geometry => exact List.mem_append_right _ (List.mem_map_of_mem drawn)

/-- Every primitive literal that is tried before a spatial one begins differently or goes on differently. -/
theorem excludes_spatial (parts : spatials = before ++ rule :: after) :
    ∀ earlier ∈ keywords ++ guid :: (calendar ++ (floating ++ (integers ++
      string :: (prefixed ++ enumeration :: before)))), earlier.Excludes rule := by
  have member : rule ∈ spatials := by rw [parts]; simp
  have leads := spatials_lead rule member
  have numeral {earlier : Rule} (numeral : earlier.LeadsIn UriChar.isFloatingLead) : earlier.Excludes rule :=
    numeral.excludes leads floating_apart_spatial
  -- From the strings on all literals exclude one another, and none before them begins with a `g`.
  have fromString : ∀ earlier ∈ string :: (prefixed ++ enumeration :: before), earlier.Excludes rule := by
    have pairs := string_pairwise
    have cut : string :: (prefixed ++ enumeration :: spatials) =
        string :: (prefixed ++ enumeration :: before) ++ rule :: after := by
      rw [parts]
      simp
    rw [cut] at pairs
    exact fun earlier among => (List.pairwise_append.mp pairs).2.2 earlier among rule List.mem_cons_self
  simp only [List.forall_mem_append, List.forall_mem_cons] at fromString ⊢
  exact ⟨fun earlier among => (keywords_lead earlier among).excludes leads (UriChar.apart_plain rfl),
    guid_leads.excludes leads (UriChar.apart_plain rfl),
    fun earlier among => numeral (calendar_lead_floating earlier among),
    fun earlier among => numeral (floating_leads earlier among),
    fun earlier among => numeral (integers_lead_floating earlier among), fromString⟩

theorem primitiveLiteral_of_spatial {surface : Surface} {kind : Shape} {source : Bytes} {offset : Nat} {token : Token}
    (found : (spatial surface kind).tokenAt? source offset = some token) :
    primitiveLiteral.tokenAt? source offset = some token := by
  obtain ⟨before, after, parts⟩ := List.append_of_mem (spatial_mem surface kind)
  have whole : primitives = (keywords ++ guid :: (calendar ++ (floating ++ (integers ++
      string :: (prefixed ++ enumeration :: before))))) ++ spatial surface kind :: after := by
    rw [primitives, parts]
    simp
  exact primitiveLiteral_of_excludes whole (fun earlier among => (excludes_spatial parts earlier among).symm) found

theorem spatial_unique {surface other : Surface} {kind kindToo : Shape} {source : Bytes} {offset : Nat}
    {token tokenToo : Token} (found : (spatial surface kind).tokenAt? source offset = some token)
    (foundToo : (spatial other kindToo).tokenAt? source offset = some tokenToo) : other = surface ∧ kindToo = kind := by
  have never (excludes : (spatial surface kind).Excludes (spatial other kindToo)) : False := by
    have regular (surface : Surface) (kind : Shape) : (spatial surface kind).Regular :=
      primitives_regular _ (by simp [primitives, spatial_mem])
    cases (excludes.tokenAt?_eq_none (regular _ _) (regular _ _) found).symm.trans foundToo
  cases surface with
  | geography =>
    cases other with
    | geography => exact ⟨rfl, by_contra fun different => never (shapes_exclude _ (Ne.symm different))⟩
    | geometry => exact (never (surfaces_exclude kind kindToo)).elim
  | geometry =>
    cases other with
    | geography => exact (never (surfaces_exclude kindToo kind).symm).elim
    | geometry => exact ⟨rfl, by_contra fun different => never (shapes_exclude _ (Ne.symm different))⟩

/-- After `geography` and after `geometry` the same octets are read: a quote, a reference system, a literal of the
shape as a whole, and a quote. Where a spatial literal is read, no other one is, and it is the primitive literal there.
What stands between the quotes is read with its reference system, whose value is what the digits denote. -/
theorem spatial_parallel :
    (∀ (kind : Shape) (octets : Bytes) (count : Nat),
      ((∃ token, (spatial .geography kind).tokenAt? (Bytes.ofString "geography" ++ octets) 0 = some token ∧
          token.span.stop = 9 + count) ↔
        ∃ token, (spatial .geometry kind).tokenAt? (Bytes.ofString "geometry" ++ octets) 0 = some token ∧
          token.span.stop = 8 + count) ∧
      ((∃ token, (spatial .geography kind).tokenAt? (Bytes.ofString "geography" ++ octets) 0 = some token ∧
          token.span.stop = 9 + count) ↔
        count ≤ octets.length ∧ ∃ body : Spatial.Body kind, body.octets = octets.take count)) ∧
    (∀ (surface : Surface) (kind : Shape) (source : Bytes) (offset : Nat) (token : Token),
      (spatial surface kind).tokenAt? source offset = some token →
        (∃ body : Spatial.Body kind, surface.keyword ++ body.octets <+: source.drop offset ∧
          token = ⟨.literal, ⟨offset, offset + (surface.keyword ++ body.octets).length⟩,
            .typed (.spatial surface kind)⟩) ∧
        (∀ other kindToo tokenToo, (spatial other kindToo).tokenAt? source offset = some tokenToo →
          other = surface ∧ kindToo = kind) ∧
        primitiveLiteral.tokenAt? source offset = some token) ∧
    ∀ (kind : Shape) (body : Spatial.Body kind) (source : Bytes) (offset : Nat), body.full <+: source.drop offset →
      ∃ value, (shape kind).tokenAt? source (offset + body.reference.octets.length) = some value ∧
        value.span.stop = offset + body.full.length ∧
        (withSrid (shape kind)).tokenAt? source offset = some ⟨.literal, ⟨offset, offset + body.full.length⟩,
          .fullGeo ⟨.literal, ⟨offset, offset + body.reference.octets.length⟩,
            .srid (Bytes.positional body.reference.digits)⟩ value⟩ := by
  refine ⟨fun kind octets count => ?_, fun surface kind source offset token found => ?_,
    fun kind body source offset stands => Spatial.exists_withSrid body stands⟩
  · have nine : (Bytes.ofString "geography").length = 9 := by decide +kernel
    have eight : (Bytes.ofString "geometry").length = 8 := by decide +kernel
    have geography := Spatial.exists_stop_iff .geography kind octets count
    have geometry := Spatial.exists_stop_iff .geometry kind octets count
    simp only [Surface.keyword, nine, eight] at geography geometry
    exact ⟨geography.trans geometry.symm, geography⟩
  · exact ⟨Spatial.spatial_tokenAt?_iff.mp found, fun other kindToo tokenToo => spatial_unique found,
      primitiveLiteral_of_spatial found⟩

/-- A point with zeros before its reference system and with a closing quote that is encoded. -/
theorem spatial_parallel_point :
    let octets := Bytes.ofString "'SRID=00012;Point(1.0 2.0)%27"
    let source := Bytes.ofString "geography" ++ octets
    (∃ token, (spatial .geometry .point).tokenAt? (Bytes.ofString "geometry" ++ octets) 0 = some token ∧
      token.span.stop = 8 + 29) ∧
    primitiveLiteral.tokenAt? source 0 = some ⟨.literal, ⟨0, 9 + 29⟩, .typed (.spatial .geography .point)⟩ ∧
    (∀ other kind token, (spatial other kind).tokenAt? source 0 = some token → other = .geography ∧ kind = .point) ∧
    ∃ value, (withSrid (shape .point)).tokenAt? source 10 =
      some ⟨.literal, ⟨10, 35⟩, .fullGeo ⟨.literal, ⟨10, 21⟩, .srid 12⟩ value⟩ := by
  intro octets source
  have stop : ((spatial .geography .point).tokenAt? source 0).map (·.span.stop) = some (9 + 29) := by decide +kernel
  obtain ⟨token, found, ends⟩ := Option.map_eq_some_iff.mp stop
  have drawn : ∃ token, (shape .point).complete (Bytes.ofString "Point(1.0 2.0)") = .ok token := by
    have stop : ((shape .point).tokenAt? (Bytes.ofString "Point(1.0 2.0)") 0).map (·.span.stop) = some 14 := by
      decide +kernel
    obtain ⟨token, found, ends⟩ := Option.map_eq_some_iff.mp stop
    exact ⟨token, Rule.complete_iff.mpr ⟨found, ends.trans (by decide +kernel)⟩⟩
  have semicolon : Derives (Abnf.mark ';') (Bytes.ofString ";") :=
    Abnf.derives_mark_iff.mpr ⟨.plain ';'.toUInt8, by decide, by decide, by decide +kernel⟩
  have opens : Derives Abnf.singleQuote (Bytes.ofString "'") :=
    Abnf.derives_mark_iff.mpr ⟨.plain '\''.toUInt8, by decide, by decide, by decide +kernel⟩
  have closes : Derives Abnf.singleQuote (Bytes.ofString "%27") :=
    Abnf.derives_mark_iff.mpr ⟨.encoded '2'.toUInt8 '7'.toUInt8, by decide, by decide, by decide +kernel⟩
  let reference : Spatial.Reference := ⟨Bytes.ofString "00012", Bytes.ofString ";", by decide +kernel,
    by decide +kernel, by decide +kernel, semicolon⟩
  let body : Spatial.Body .point := ⟨Bytes.ofString "'", reference, Bytes.ofString "Point(1.0 2.0)",
    Bytes.ofString "%27", opens, drawn, closes⟩
  have spelled : body.reference.octets = Bytes.ofString "SRID=00012;" := by
    show Bytes.ofString "SRID=" ++ (Bytes.ofString "00012" ++ Bytes.ofString ";") = _
    decide +kernel
  have whole : body.full = Bytes.ofString "SRID=00012;Point(1.0 2.0)" := by
    rw [Spatial.Body.full, spelled]
    show Bytes.ofString "SRID=00012;" ++ Bytes.ofString "Point(1.0 2.0)" = _
    decide +kernel
  have number : Bytes.positional body.reference.digits = 12 := by
    show Bytes.positional (Bytes.ofString "00012") = 12
    decide +kernel
  have length : (Bytes.ofString "SRID=00012;").length = 11 := by decide +kernel
  have lengthToo : (Bytes.ofString "SRID=00012;Point(1.0 2.0)").length = 25 := by decide +kernel
  obtain ⟨parallel, reads, full⟩ := spatial_parallel
  obtain ⟨⟨_, _, rfl⟩, alone, literal⟩ := reads .geography .point source 0 token found
  obtain ⟨value, _, _, referenced⟩ := full .point body source 10 (by rw [whole]; decide +kernel)
  rw [spelled, whole, length, lengthToo, number] at referenced
  dsimp only at ends
  rw [ends] at literal
  exact ⟨(parallel .point octets 29).1.mp ⟨_, found, ends⟩, literal, fun other kind token => alone other kind token,
    value, referenced⟩

end Grammar

end ODataLiteral
