import ODataLiteral.Proofs.Geo.Completeness
import ODataLiteral.Proofs.Rule.Shift

/-! The opening parenthesis of spatial data in its two forms. The data of a point are read alike in both, two octets
apart. A list of positions or of rings is read in the plain form only, although its grammar gives both. -/
namespace ODataLiteral

/-- The token with so many octets more in its first delimiter: it starts where it did, and everything inside it
moves on. -/
def Token.widen (count : Nat) (token : Token) : Token :=
  { token with span.stop := token.span.stop + count, value := token.value.shift count }

/-- What stands after the opening delimiter is read alike wherever that ends. -/
theorem Parser.enclosed_widen {kind : Kind} {opening closing : Pattern} {inner : Parser} (uniform : inner.Uniform)
    {start other first : Place} {before beforeToo : Text} {count : Nat}
    (opened : opening.parse start = some (before, first))
    (openedToo : opening.parse other = some (beforeToo, first.shift count)) (same : other.offset = start.offset) :
    enclosed kind opening inner closing other =
      (enclosed kind opening inner closing start).map fun (token, stop) => (token.widen count, stop.shift count) := by
  simp only [enclosed, opened, openedToo, Option.bind_eq_bind, Option.bind_some, uniform count first]
  cases inner first with
  | none => rfl
  | some found =>
    simp only [Option.map_some, Option.bind_some, Pattern.parse_shift]
    cases closing.parse found.2 with
    | none => rfl
    | some behind =>
      simp only [Option.map_some, Option.bind_some, close, Token.widen, Value.shift, Place.shift, same]

/-- Where an encoded character stands, nothing reads that begins with plain ones. -/
theorem Rule.parse_eq_none_of_encoded {rule : Rule} {accepts : UInt8 → Bool}
    (leads : rule.LeadsIn (UriChar.isPlain accepts)) {start : Place} {high low : UInt8} {rest : Text}
    (here : start.rest = .encoded high low :: rest) (levels : Nat) : rule.parse levels start = none := by
  cases read : rule.parse levels start with
  | none => rfl
  | some found =>
    obtain ⟨character, _, same, lead⟩ := Rule.parse_begins levels leads.steady _ _ _ read
    rw [here] at same
    cases same
    cases leads.leads _ lead

theorem Place.ofSource_length (front rest : Bytes) {octets : Bytes} {character : UriChar}
    (legible : character.Legible) (written : octets = character.bytes) :
    Place.ofSource (front ++ octets ++ rest) front.length =
      { offset := front.length, rest := character :: Text.ofBytes rest } := by
  have tail : (front ++ octets ++ rest).drop front.length = character.bytes ++ rest := by
    rw [List.append_assoc, List.drop_left, written]
  rw [Place.ofSource, Cursor.ofSource, tail, Cursor.place,
    Text.ofBytes_of_next? (UriChar.next?_bytes_append legible rest)]

namespace Grammar

/-- The parenthesis of a point's data may be written in either form: the token is the same, two octets longer in
its first delimiter. A line string, a ring and a polygon are not read where it is encoded, whatever stands in them. -/
theorem opening_forms (front rest : Bytes) :
    let plain := front ++ Bytes.ofString "(" ++ rest
    let encoded := front ++ Bytes.ofString "%28" ++ rest
    pointData.tokenAt? encoded front.length = (pointData.tokenAt? plain front.length).map (Token.widen 2) ∧
      lineStringData.tokenAt? encoded front.length = none ∧ ring.tokenAt? encoded front.length = none ∧
      polygonData.tokenAt? encoded front.length = none := by
  intro plain encoded
  have onPlain : Place.ofSource plain front.length =
      { offset := front.length, rest := .plain '('.toUInt8 :: Text.ofBytes rest } :=
    Place.ofSource_length front rest (by decide) (by decide +kernel)
  have onEncoded : Place.ofSource encoded front.length =
      { offset := front.length, rest := .encoded '2'.toUInt8 '8'.toUInt8 :: Text.ofBytes rest } :=
    Place.ofSource_length front rest (by decide) (by decide +kernel)
  have finds {rule : Rule} (member : rule ∈ catalogue) (source : Bytes) :
      rule.tokenAt? source front.length = rule.find? maxDepth source front.length :=
    Rule.tokenAt?_eq (catalogue_steady rule member) (catalogue_fits rule member)
  have unread {rule : Rule} (member : rule ∈ catalogue)
      (leads : rule.LeadsIn (UriChar.isPlain (· == '('.toUInt8))) :
      rule.tokenAt? encoded front.length = none := by
    rw [finds member, Rule.find?, Rule.parse_eq_none_of_encoded leads (congrArg Place.rest onEncoded),
      Option.map_none]
  refine ⟨?_, unread (by simp [catalogue, geoCatalogue]) lineStringData_leads,
    unread (by simp [catalogue, geoCatalogue]) lineStringData_leads,
    unread (by simp [catalogue, geoCatalogue]) polygonData_leads⟩
  -- Behind the delimiter both sources go on alike, two octets apart.
  let first : Place := { offset := front.length + 1, rest := Text.ofBytes rest }
  have opened : Pattern.openParen.parse (Place.ofSource plain front.length) =
      some ([.plain '('.toUInt8], first) := by
    rw [onPlain]
    rfl
  have openedToo : Pattern.openParen.parse (Place.ofSource encoded front.length) =
      some ([.encoded '2'.toUInt8 '8'.toUInt8], first.shift 2) := by
    rw [onEncoded]
    rfl
  have widened : pointData.parse maxDepth (Place.ofSource encoded front.length) =
      (pointData.parse maxDepth (Place.ofSource plain front.length)).map fun (token, stop) =>
        (token.widen 2, stop.shift 2) :=
    Parser.enclosed_widen (Rule.parse_uniform maxDepth position) opened openedToo (by rw [onPlain, onEncoded])
  have member : pointData ∈ catalogue := by simp [catalogue, geoCatalogue]
  rw [finds member, finds member, Rule.find?, Rule.find?, widened, Option.map_map, Option.map_map]
  rfl

example : (lineStringData.tokenAt? (Bytes.ofString "(1.0 2.0)") 0).isSome ∧
    lineStringData.tokenAt? (Bytes.ofString "%281.0 2.0)") 0 = none := by
  decide +kernel

end Grammar

end ODataLiteral
