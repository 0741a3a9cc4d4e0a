import ODataLiteral.Proofs.Pattern.Language
import ODataLiteral.Proofs.Rule.Nesting

/-! From parsing to grammars: a parser is sound for a grammar when it only goes on over texts of it.
Soundness is shown from the places of a source, where a text without a bare percent sign can be read again from its
own octets. -/
namespace ODataLiteral

namespace Pattern

/-- Patterns that no bare percent sign is part of. -/
def clean : Pattern → Bool
  | empty | notBefore _ => true
  | char accepts => !accepts (.plain UriChar.percent)
  | seq first second | alt first second => first.clean && second.clean
  | times _ _ body => body.clean

theorem spells_of_clean {pattern : Pattern} (clean : pattern.clean = true) :
    pattern.Spells (· ≠ .plain UriChar.percent) := by
  induction pattern with
  | empty | notBefore _ => trivial
  | char accepts =>
    rintro character accepted rfl
    rw [Pattern.clean, accepted] at clean
    cases clean
  | seq first second ihFirst ihSecond | alt first second ihFirst ihSecond =>
    rw [Pattern.clean, Bool.and_eq_true] at clean
    exact ⟨ihFirst clean.1, ihSecond clean.2⟩
  | times least most body ih => exact ih clean

end Pattern

/-- What stands between two offsets is followed by what stands after the second one. -/
theorem Bytes.drop_of_slice {source : Bytes} {offset stop : Nat} (inside : stop ≤ source.length)
    (filled : source.slice offset stop ≠ []) :
    offset < stop ∧ source.drop offset = source.slice offset stop ++ source.drop stop := by
  have long : (source.take stop).length = stop := by rw [List.length_take, Nat.min_eq_left inside]
  have forward : offset < stop := by
    by_contra backward
    exact filled (List.drop_eq_nil_of_le (by omega))
  refine ⟨forward, ?_⟩
  conv_lhs => rw [← List.take_append_drop stop source]
  rw [List.drop_append_of_le_length (by omega), Bytes.slice]

namespace Place

variable {source : Bytes} {start middle stop : Place} {first second grammar : Language UriChar}

/-- A text of a grammar stands between two places, and its octets spell it. -/
def Over (grammar : Language UriChar) (start stop : Place) : Prop :=
  ∃ text : Text, text ∈ grammar ∧ text.Legible ∧ start.Advances text stop

theorem Over.refl : Over 1 start start :=
  ⟨[], Language.nil_mem_one, nofun, .refl start⟩

theorem Over.trans (one : Over first start middle) (two : Over second middle stop) :
    Over (first * second) start stop := by
  obtain ⟨text, member, legible, on⟩ := one
  obtain ⟨more, memberToo, legibleToo, onward⟩ := two
  refine ⟨text ++ more, Language.append_mem_mul member memberToo, ?_, on.trans onward⟩
  exact fun character inside => (List.mem_append.mp inside).elim (legible _) (legibleToo _)

theorem Over.mono (within : first ≤ second) (way : Over first start stop) : Over second start stop := by
  obtain ⟨text, member, rest⟩ := way
  exact ⟨text, within member, rest⟩

theorem In.across (inside : start.In source) (way : Over grammar start stop) : stop.In source := by
  obtain ⟨_, _, _, on⟩ := way
  exact inside.advances on

theorem Over.derives (inside : start.In source) (way : Over grammar start stop) :
    Abnf.Derives grammar (source.slice start.offset stop.offset) := by
  obtain ⟨text, member, legible, on⟩ := way
  exact ⟨text, member, legible, (inside.slice on).symm⟩

/-- A text that stands in a source leads from one offset of it to another. -/
theorem advances_of_slice {offset stop : Nat} {text : Text} (inside : stop ≤ source.length) (filled : text ≠ [])
    (legible : text.Legible) (same : text.bytes = source.slice offset stop) :
    (ofSource source offset).Advances text (ofSource source stop) := by
  have wide := Text.width_pos_of_ne_nil filled
  rw [← Text.length_bytes, same] at wide
  obtain ⟨forward, parts⟩ := Bytes.drop_of_slice inside (List.length_pos_iff.mp wide)
  refine ⟨?_, ?_⟩
  · show Text.ofBytes (source.drop offset) = text ++ Text.ofBytes (source.drop stop)
    rw [parts, ← same, Text.ofBytes_bytes_append legible]
  · show stop = offset + text.width
    rw [← Text.length_bytes, same, Bytes.slice, List.length_drop, List.length_take]
    omega

theorem advances_of_derives {offset stop : Nat} (inside : stop ≤ source.length)
    (filled : [] ∉ grammar) (derived : Abnf.Derives grammar (source.slice offset stop)) :
    ∃ text : Text, text ∈ grammar ∧
      (ofSource source offset).Advances text (ofSource source stop) := by
  obtain ⟨text, member, legible, same⟩ := derived
  refine ⟨text, member, advances_of_slice inside ?_ legible same⟩
  rintro rfl
  exact filled member

end Place

/-- The octets of a source that a token spans. -/
def Token.octets (source : Bytes) (token : Token) : Bytes :=
  source.slice token.span.start token.span.stop

theorem Place.Over.octets {source : Bytes} {levels : Nat} {grammar : Language UriChar} {rule : Rule}
    {start stop : Place} {token : Token} (inside : start.In source) (way : Place.Over grammar start stop)
    (read : rule.parse levels start = some (token, stop)) :
    Abnf.Derives grammar (token.octets source) := by
  have derived := way.derives inside
  rw [Token.octets, Rule.parse_spans levels rule _ _ _ read]
  exact derived

namespace Pattern

variable {pattern : Pattern} {source : Bytes} {start stop : Place} {text : Text}

theorem legible_of_parse (steady : pattern.steady = true) (clean : pattern.clean = true)
    (inside : start.In source) (read : pattern.parse start = some (text, stop)) : text.Legible := by
  refine Text.legible_of_ofBytes (inside.symm.trans (Pattern.parse_advances read).rest) fun percent => ?_
  exact spells_of_split steady (spells_of_clean clean) (Pattern.parse_iff.mp read).1 _ percent rfl

theorem over_of_parse (steady : pattern.steady = true) (clean : pattern.clean = true)
    (inside : start.In source) (read : pattern.parse start = some (text, stop)) :
    Place.Over pattern.language start stop :=
  ⟨text, mem_language_of_split steady (Pattern.parse_iff.mp read).1,
    legible_of_parse steady clean inside read, Pattern.parse_advances read⟩

end Pattern

namespace Parser

variable {source : Bytes} {first second : Language UriChar} {shape other : Token → Prop}
  {one two : Parser}

/-- From the places of a source, a parser only goes on over texts of a grammar, and its tokens have a shape. -/
def Sound (source : Bytes) (grammar : Language UriChar) (shape : Token → Prop) (parser : Parser) : Prop :=
  ∀ start token stop, start.In source → parser start = some (token, stop) →
    Place.Over grammar start stop ∧ shape token

theorem Sound.mono (sound : one.Sound source first shape) (within : first ≤ second)
    (has : ∀ token, shape token → other token) : one.Sound source second other := by
  intro start token stop inside read
  obtain ⟨way, here⟩ := sound _ _ _ inside read
  exact ⟨way.mono within, has _ here⟩

theorem or_sound (sound : one.Sound source first shape) (soundToo : two.Sound source second other) :
    Sound source (first + second) (fun token => shape token ∨ other token)
      fun start => (one start).or (two start) := by
  intro start token stop inside read
  rcases Option.or_eq_some_iff.mp read with read | ⟨_, read⟩
  · obtain ⟨way, here⟩ := sound _ _ _ inside read
    exact ⟨way.mono le_sup_left, .inl here⟩
  · obtain ⟨way, here⟩ := soundToo _ _ _ inside read
    exact ⟨way.mono le_sup_right, .inr here⟩

theorem none_sound : Sound source 0 (fun _ => False) fun _ => none :=
  fun _ _ _ _ read => by cases read

theorem lexeme_sound {kind : Kind} {meaning : Meaning} {pattern : Pattern} {grammar : Language UriChar}
    (steady : pattern.steady = true) (clean : pattern.clean = true)
    (means : ∀ text ∈ pattern.language, ∀ value, meaning.value? text = some value → text ∈ grammar) :
    (Parser.lexeme kind meaning pattern).Sound source grammar fun token =>
      token.kind = kind ∧ ∃ text, meaning.value? text = some token.value := by
  intro start token stop inside read
  obtain ⟨text, value, taken, known, rfl⟩ := lexeme_iff.mp read
  have member := Pattern.mem_language_of_split steady (Pattern.parse_iff.mp taken).1
  exact ⟨⟨text, means text member value known, Pattern.legible_of_parse steady clean inside taken,
    Pattern.parse_advances taken⟩, rfl, text, known⟩

end Parser

end ODataLiteral
