import ODataLiteral.Proofs.Rule.Fence
import ODataLiteral.Proofs.Rule.Nodes

/-! Taking texts out of a source that is a text itself. A rule that is fenced cuts its source between characters only,
so no text that it wants to keep is ever refused, and every token stands between two boundaries. -/
namespace ODataLiteral

/-- Meanings that are texts of the source. -/
def Meaning.isText : Meaning → Bool
  | name | term | jsonString => true
  | null | typed _ | integer _ _ | srid | jsonNumber | jsonBoolean _ | jsonNull => false

/-- Wherever a rule reads a text at an offset that it keeps, the text is there and can be kept. Constructs are known by
their bodies. -/
def Rule.Extracts (source : Bytes) (offset : Nat) : Rule → Prop
  | lexeme _ meaning pattern => meaning.isText = true → ∀ text after,
      pattern.read (Cursor.ofSource source offset) = some (text, after) →
        ∃ value, meaning.read? source.length (Cursor.ofSource source offset) text = .ok (some value)
  | enumeration typeName _ member _ _ => (∀ text after,
      typeName.read (Cursor.ofSource source offset) = some (text, after) →
        ∃ octets name, (Cursor.ofSource source offset).slice source.length 0 after.offset = .ok octets ∧
          Utf8.decode? octets = some name) ∧ member.Extracts source offset
  | enclosed _ _ inner _ => inner.Extracts source offset
  | pair _ _ first _ second => first.Extracts source offset ∧ second.Extracts source offset
  | list _ _ item _ _ _ => item.Extracts source offset
  | withType _ rule | withKind _ rule => rule.Extracts source offset
  | orElse first second => first.Extracts source offset ∧ second.Extracts source offset
  | never | .construct _ => True

/-- A token between two boundaries, with a text for its octets. -/
def Token.Bounded (source : Bytes) (token : Token) : Prop :=
  Utf8.Boundary source token.span.start ∧ Utf8.Boundary source token.span.stop ∧
    Utf8.Valid (token.octets source)

section Text

variable {source : Bytes} {offset : Nat} {start stop : Place} {text : Text}

/-- In a source that is a text, a fenced text stands between two boundaries. -/
theorem Place.boundaries (valid : Utf8.Valid source) (inside : start.In source) (on : start.Advances text stop)
    (filled : text ≠ []) (fenced : text.Fenced) :
    Utf8.Boundary source start.offset ∧ Utf8.Boundary source stop.offset ∧ Utf8.Valid text.bytes := by
  have same : Text.ofBytes (source.drop start.offset) = text ++ stop.rest := inside.symm.trans on.rest
  obtain ⟨after, _, split⟩ := Text.exists_rest_of_append same
  have whole : source.take start.offset ++ text.bytes ++ after = source := by
    rw [List.append_assoc, ← split, List.take_append_drop]
  have long := Text.width_pos_of_ne_nil filled
  have front : (source.take start.offset).length = start.offset := by
    have lengths := congrArg List.length split
    rw [List.length_drop, List.length_append, Text.length_bytes] at lengths
    rw [List.length_take]
    omega
  have back : (source.take start.offset ++ text.bytes).length = stop.offset := by
    rw [List.length_append, front, Text.length_bytes, on.offset]
  obtain ⟨before, here, behind⟩ := fenced.cut same filled (whole.symm ▸ valid)
  have first := Utf8.boundary_of_valid before (here.append behind)
  have last := Utf8.boundary_of_valid (before.append here) behind
  rw [← List.append_assoc, whole, front] at first
  rw [whole, back] at last
  exact ⟨first, last, here⟩

theorem Pattern.parse_of_read {pattern : Pattern} {after : Cursor} (steady : pattern.steady = true)
    (read : pattern.read (Cursor.ofSource source offset) = some (text, after)) :
    ∃ stop, pattern.parse (Place.ofSource source offset) = some (text, stop) ∧ after.offset = stop.offset := by
  have same := Pattern.read_refines steady (Rule.ofSource_at source offset)
  rw [read] at same
  cases parsed : pattern.parse (Place.ofSource source offset) with
  | none =>
    rw [parsed] at same
    cases same
  | some found =>
    rw [parsed] at same
    cases same with
    | some same =>
      obtain ⟨rfl, at_⟩ := same
      exact ⟨found.2, rfl, at_.offset⟩

theorem Pattern.parse_of_endAt {pattern : Pattern} {ending : Nat} (steady : pattern.steady = true)
    (ends : pattern.endAt source offset = some ending) :
    ∃ text stop, pattern.parse (Place.ofSource source offset) = some (text, stop) ∧ stop.offset = ending ∧
      source.slice offset ending = text.bytes := by
  have read : (pattern.read (Cursor.ofSource source offset)).map (·.2.offset) = some ending := by
    rw [← ends, Pattern.read, Pattern.endAt, Option.map_map]
    rfl
  obtain ⟨⟨text, after⟩, taken, last⟩ := Option.map_eq_some_iff.mp read
  obtain ⟨stop, parsed, same⟩ := Pattern.parse_of_read steady taken
  obtain rfl : stop.offset = ending := same.symm.trans last
  exact ⟨text, stop, parsed, rfl, Place.slice_of_advances (Pattern.parse_advances parsed)⟩

/-- A fenced text of a source that is a text can be kept, and so can what is left of it without its ends. -/
theorem Meaning.isSome_value? {meaning : Meaning} {rest : Text} (isText : meaning.isText = true)
    (readable : meaning.Readable text) (same : Text.ofBytes source = text ++ rest) (filled : text ≠ [])
    (fenced : text.Fenced) (valid : Utf8.Valid text.bytes) : (meaning.value? text).isSome = true := by
  obtain ⟨first, others, rfl⟩ := List.exists_cons_of_ne_nil filled
  have low := Text.ascii_bytes same List.mem_cons_self (fenced.first first rfl)
  have tail := Text.valid_of_cons low valid
  cases meaning with
  | name =>
    rw [value?, Option.isSome_map]
    exact Utf8.decode?_isSome_iff.mpr valid
  | term =>
    rw [value?, Option.isSome_map]
    exact Utf8.decode?_isSome_iff.mpr tail
  | jsonString =>
    have long : 2 ≤ (first :: others).length := readable
    have inside : others ≠ [] := List.length_pos_iff.mp (Nat.lt_of_succ_lt_succ long)
    have final : (first :: others).getLast? = some (others.getLast inside) := by
      rw [List.getLast?_cons_of_ne_nil inside, List.getLast?_eq_some_getLast inside]
    have lowToo := Text.ascii_bytes same (List.mem_of_getLast? final) (fenced.last _ final)
    rw [← List.dropLast_concat_getLast inside] at tail
    rw [value?, Option.isSome_map]
    exact Utf8.decode?_isSome_iff.mpr (Text.valid_of_concat lowToo tail)
  | null | typed _ | integer _ _ | srid | jsonNumber | jsonBoolean _ | jsonNull => cases isText

theorem Pattern.cut_of_parse {pattern : Pattern} (steady : pattern.steady = true) (filled : pattern.nullable = false)
    (fenced : pattern.fenced = true) (valid : Utf8.Valid source)
    (read : pattern.parse (Place.ofSource source offset) = some (text, stop)) :
    text ≠ [] ∧ text.Fenced ∧ Utf8.Valid text.bytes := by
  have on := Pattern.parse_advances read
  have written := Pattern.ne_nil_of_parse filled read
  have ends := Pattern.fenced_of_parse steady fenced read
  exact ⟨written, ends, (Place.boundaries valid (.ofSource source offset) on written ends).2.2⟩

theorem Pattern.holds_of_parse {pattern : Pattern} (filled : pattern.nullable = false)
    (read : pattern.parse (Place.ofSource source offset) = some (text, stop)) :
    (Cursor.ofSource source offset).Holds source.length text :=
  (Rule.ofSource_at source offset).holds (Pattern.ne_nil_of_parse filled read) (Pattern.parse_advances read)

/-- Where the text of a pattern is UTF-8, it can be taken out. -/
theorem Pattern.extracts {pattern : Pattern} (steady : pattern.steady = true) (filled : pattern.nullable = false)
    (kept : ∀ text stop, pattern.parse (Place.ofSource source offset) = some (text, stop) → Utf8.Valid text.bytes)
    {after : Cursor} (read : pattern.read (Cursor.ofSource source offset) = some (text, after)) :
    ∃ octets name, (Cursor.ofSource source offset).slice source.length 0 after.offset = .ok octets ∧
      Utf8.decode? octets = some name := by
  obtain ⟨stop, parsed, same⟩ := Pattern.parse_of_read steady read
  have octets := Cursor.slice_whole_of_holds (Pattern.holds_of_parse filled parsed)
  obtain ⟨name, decoded⟩ := Option.isSome_iff_exists.mp (Utf8.decode?_isSome_iff.mpr (kept text stop parsed))
  rw [same, (Pattern.parse_advances parsed).offset]
  exact ⟨_, name, octets, decoded⟩

end Text

namespace Rule

variable {source : Bytes} {offset : Nat} {rule : Rule}

theorem extracts_lexeme {kind : Kind} {meaning : Meaning} {pattern : Pattern} (steady : pattern.steady = true)
    (filled : pattern.nullable = false) (fits : meaning.Fits pattern)
    (kept : ∀ text stop, pattern.parse (Place.ofSource source offset) = some (text, stop) →
      meaning.isText = true → (meaning.value? text).isSome = true) :
    (lexeme kind meaning pattern).Extracts source offset := by
  intro isText text after read
  obtain ⟨stop, parsed, _⟩ := Pattern.parse_of_read steady read
  obtain ⟨value, known⟩ := Option.isSome_iff_exists.mp (kept text stop parsed isText)
  have readable := fits _ _ _ (Pattern.parse_iff.mp parsed).1
  exact ⟨value, by rw [Meaning.read?_of_readable readable (Pattern.holds_of_parse filled parsed), known]⟩

/-- In a source that is a text, no text is refused. -/
theorem extracts_of_fenced (steady : rule.steady = true) (fits : rule.Fits) (fenced : rule.fenced = true)
    (valid : Utf8.Valid source) (offset : Nat) : rule.Extracts source offset := by
  induction rule with
  | lexeme kind meaning pattern =>
    simp only [Rule.steady, Bool.and_eq_true, Bool.not_eq_true'] at steady
    refine extracts_lexeme steady.1 steady.2 fits fun text stop parsed isText => ?_
    obtain ⟨filled, ends, whole⟩ := Pattern.cut_of_parse steady.1 steady.2 fenced valid parsed
    have readable := fits _ _ _ (Pattern.parse_iff.mp parsed).1
    exact Meaning.isSome_value? isText readable (Pattern.parse_advances parsed).rest filled ends whole
  | enumeration typeName opening member separator closing ih =>
    obtain ⟨names, steady⟩ := steadyItems_of_enumeration steady
    simp only [Rule.fenced, Bool.and_eq_true, Bool.not_eq_true'] at fenced
    obtain ⟨⟨⟨⟨⟨filled, ends⟩, _⟩, inside⟩, _⟩, _⟩ := fenced
    exact ⟨fun _ _ => Pattern.extracts names filled fun _ _ parsed =>
      (Pattern.cut_of_parse names filled ends valid parsed).2.2, ih steady.inside fits inside⟩
  | enclosed kind opening inner closing ih =>
    simp only [Rule.steady, Rule.fenced, Bool.and_eq_true] at steady fenced
    exact ih steady.1.2 fits fenced.1.2
  | pair pairing opening first between second ihFirst ihSecond =>
    simp only [Rule.steady, Rule.fenced, Bool.and_eq_true] at steady fenced
    exact ⟨ihFirst steady.1.1.2 fits.1 fenced.1.1.2, ihSecond steady.2 fits.2 fenced.2⟩
  | list kind opening item separator closing mayBeEmpty ih =>
    simp only [Rule.fenced, Bool.and_eq_true] at fenced
    exact ih (steadyItems_of_list steady).inside fits fenced.1.1.2
  | withType type rule ih => exact ih steady fits fenced
  | withKind kind rule ih => exact ih steady fits fenced
  | orElse first second ihFirst ihSecond =>
    simp only [Rule.steady, Rule.fenced, Bool.and_eq_true] at steady fenced
    exact ⟨ihFirst steady.1 fits.1 fenced.1, ihSecond steady.2 fits.2 fenced.2⟩
  | never | construct _ => trivial

theorem hereditary_fenced : Hereditary (fun rule => rule.steady = true ∧ rule.fenced = true)
    fun rule => rule.steady = true ∧ rule.fenced = true where
  enclosed := by
    rintro _ _ _ _ ⟨steady, fenced⟩
    simp only [Rule.steady, Rule.fenced, Bool.and_eq_true] at steady fenced
    exact ⟨steady.1.2, fenced.1.2⟩
  pair := by
    rintro _ _ _ _ _ ⟨steady, fenced⟩
    simp only [Rule.steady, Rule.fenced, Bool.and_eq_true] at steady fenced
    exact ⟨⟨steady.1.1.2, fenced.1.1.2⟩, steady.2, fenced.2⟩
  list := by
    rintro _ _ _ _ _ _ ⟨steady, fenced⟩
    simp only [Rule.fenced, Bool.and_eq_true] at fenced
    exact ⟨(steadyItems_of_list steady).inside, fenced.1.1.2⟩
  enumeration := by
    rintro _ _ _ _ _ ⟨steady, fenced⟩
    simp only [Rule.fenced, Bool.and_eq_true] at fenced
    exact ⟨(steadyItems_of_enumeration steady).2.inside, fenced.1.1.2⟩
  withKind := id
  orElse := by
    rintro _ _ ⟨steady, fenced⟩
    simp only [Rule.steady, Rule.fenced, Bool.and_eq_true] at steady fenced
    exact ⟨⟨steady.1, fenced.1⟩, steady.2, fenced.2⟩
  body named := ⟨named.steady_body, named.body_fenced⟩

/-- In a source that is a text, every token begins and ends at a boundary, and so do the tokens in it. -/
theorem shows_bounded (valid : Utf8.Valid source) (levels : Nat) (steady : rule.steady = true)
    (fenced : rule.fenced = true) : (rule.parse levels).Shows source (Token.Everywhere (Token.Bounded source)) := by
  refine everywhere_of_parts (fun _ => hereditary_fenced.parts) (fun rule levels fine => ?_) ⟨steady, fenced⟩
  rintro start token stop inside read
  obtain ⟨text, on, ends⟩ := parse_fenced levels fine.1 fine.2 _ _ _ read
  obtain ⟨other, filled, onToo⟩ := parse_strict levels fine.1 _ _ _ read
  obtain rfl : other = text := List.append_cancel_right (onToo.rest.symm.trans on.rest)
  obtain ⟨first, last, whole⟩ := Place.boundaries valid inside on filled ends
  rw [Token.Bounded, Token.octets, parse_spans levels rule _ _ _ read, inside.slice on]
  exact ⟨first, last, whole⟩

/-- Where its pattern matches, a lexeme is read if its text has a value. -/
theorem attempt_lexeme {kind : Kind} {meaning : Meaning} {pattern : Pattern} {text : Text} {stop : Place}
    (steady : pattern.steady = true) (filled : pattern.nullable = false) (fits : meaning.Fits pattern)
    (parsed : pattern.parse (Place.ofSource source offset) = some (text, stop)) (depth : Nat) :
    (lexeme kind meaning pattern).attempt source offset depth =
      (.ofOption ((meaning.value? text).map fun value => { kind, span := ⟨offset, stop.offset⟩, value }), depth) := by
  have goes : (lexeme kind meaning pattern).steady = true := by simp [Rule.steady, steady, filled]
  have fitting : (lexeme kind meaning pattern).Fits := fits
  rw [attempt_eq goes fitting, find?, parse, parseWith, Parser.lexeme]
  simp only [Option.bind_eq_bind, parsed, Option.bind_some, Parser.close]
  cases meaning.value? text <;> rfl

end Rule

end ODataLiteral
