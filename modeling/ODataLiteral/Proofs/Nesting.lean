import ODataLiteral.Proofs.Json.Alternatives
import ODataLiteral.Proofs.Rule.Nesting

/-! The limit on nesting is exact: with some levels open already, a rule reads what it reads without any limit as
long as there are levels enough for its token, and nothing else. -/
namespace ODataLiteral

open Pattern

namespace Rule

/-- The category of a rule's tokens, where it is written in the rule itself. -/
def ownKind? : Rule → Option Kind
  | lexeme kind _ _ | enclosed kind _ _ _ | list kind _ _ _ _ _ | withKind kind _ => some kind
  | pair pairing _ _ _ _ => some pairing.kind
  | enumeration _ _ _ _ _ => some .enumeration
  | withType _ _ | orElse _ _ | never | .construct _ => none

theorem kind_of_parseWith {construct : Construct → Parser} {rule : Rule} {kind : Kind}
    (own : rule.ownKind? = some kind) {start stop : Place} {token : Token}
    (read : rule.parseWith construct start = some (token, stop)) : token.kind = kind := by
  cases rule with
  | lexeme =>
    cases own
    obtain ⟨_, _, _, _, rfl⟩ := Parser.lexeme_iff.mp read
    rfl
  | enclosed =>
    cases own
    obtain ⟨_, _, _, _, _, _, _, _, rfl⟩ := Parser.enclosed_iff.mp read
    rfl
  | pair =>
    cases own
    obtain ⟨_, _, _, _, _, _, _, _, _, _, _, rfl⟩ := Parser.pair_iff.mp read
    rfl
  | list =>
    cases own
    obtain ⟨_, _, _, _, rfl, _⟩ := Parser.list_iff.mp read
    rfl
  | enumeration =>
    cases own
    obtain ⟨_, _, _, _, _, _, _, _, _, _, rfl⟩ := Parser.enumeration_iff.mp read
    rfl
  | withKind =>
    cases own
    obtain ⟨_, _, rfl⟩ := Parser.mapToken_iff.mp read
    rfl
  | withType | orElse | never | construct => cases own

end Rule

namespace Grammar

/-- What is a level of a JSON token. -/
abbrev opensObject (token : Token) : Bool :=
  token.kind == .object

theorem silent_of_kind {rule : Rule} {kind : Kind} {source : Bytes} (own : rule.ownKind? = some kind)
    (other : kind ≠ .object) : rule.Silent opensObject source := by
  intro levels start token stop _ read
  rw [opensObject, Rule.kind_of_parseWith own read]
  exact beq_false_of_ne other

section Object

variable {source : Bytes}

/-- A rule whose tokens are visibly no objects. -/
def noObject (rule : Rule) : Bool :=
  rule.ownKind?.any (· != .object)

theorem silent_of_noObject (rule : Rule) (other : noObject rule = true) :
    rule.Silent opensObject source := by
  cases own : rule.ownKind? with
  | none =>
    rw [noObject, own] at other
    cases other
  | some kind =>
    rw [noObject, own] at other
    exact silent_of_kind own (bne_iff_ne.mp other)

theorem filled_of_opened {token : Token} (isArray : token.kind = .array)
    (opened : 0 < token.levels opensObject) : token.children ≠ [] := by
  intro empty
  have silent : opensObject token = false := by
    rw [opensObject, isArray]
    rfl
  rw [Rule.levels_of_silent silent, empty] at opened
  exact absurd opened (Nat.lt_irrefl 0)

theorem jsonPrimitive_counted : jsonPrimitive.Counted opensObject source .object :=
  Rule.counted_of_every silent_of_noObject (by decide)

theorem array_counted {item : Rule} (counted : item.Counted opensObject source .object) :
    (array item).Counted opensObject source .object :=
  ⟨silent_of_noObject _ rfl, counted⟩

theorem jsonValue_counted : jsonValue.Counted opensObject source .object := by
  refine ⟨.inr ?_, rfl, .inr ?_, array_counted rfl, .inl (by decide), jsonPrimitive_counted,
    .inl (by decide), array_counted jsonPrimitive_counted, trivial⟩
  · intro levels levels' start token stop read _
    obtain ⟨arrays, primitive, values⟩ := object_excludes levels' read
    show (objectArray.parse levels' start).or ((jsonPrimitive.parse levels' start).or
      ((primitiveArray.parse levels' start).or none)) = none
    rw [arrays, primitive, values]
    rfl
  · intro levels levels' start token stop read opened
    obtain ⟨_, primitive⟩ := array_excludes levels' read
    have own : objectArray.ownKind? = some .array := rfl
    have isArray := Rule.kind_of_parseWith own read
    have values := objectArray_excludes levels' read (filled_of_opened isArray opened)
    show (jsonPrimitive.parse levels' start).or ((primitiveArray.parse levels' start).or none) = none
    rw [primitive, values]
    rfl

theorem member_counted {key : Rule} (counted : key.Counted opensObject source .object) :
    (member key jsonValue).Counted opensObject source .object :=
  ⟨silent_of_noObject _ rfl, counted, jsonValue_counted⟩

/-- Inside an object only objects open levels. -/
theorem objectItems_counted {kind : Kind} {opening separator closing : Pattern} {item : Rule}
    {mayBeEmpty : Bool}
    (same : Construct.object.body = .list kind opening item separator closing mayBeEmpty) :
    item.Counted opensObject source .object := by
  cases same
  refine ⟨.inr ?_, ?_, ?_⟩
  · intro levels levels' start token stop read _
    exact annotationMember_excludes levels' read
  · refine ⟨silent_of_noObject _ rfl, silent_of_noObject _ rfl, member_counted ?_⟩
    exact silent_of_noObject annotationTerm rfl
  · exact member_counted (silent_of_noObject identifier rfl)

theorem objectMembers_loud {levels : Nat} {start stop : Place} {token : Token}
    (read : Construct.object.parse levels start = some (token, stop)) :
    opensObject token = true := by
  cases levels with
  | zero => cases read
  | succ levels =>
    have own : objectMembers.ownKind? = some .object := rfl
    rw [opensObject, Rule.kind_of_parseWith own read]
    rfl

theorem arrayOrObject_counted : arrayOrObject.Counted opensObject source .object := by
  refine ⟨silent_of_noObject _ rfl, .inr ?_, array_counted rfl, .inr ?_, rfl, .inl (by decide),
    array_counted jsonPrimitive_counted, trivial⟩
  · intro levels levels' start token stop read opened
    obtain ⟨objects, _⟩ := array_excludes levels' read
    have own : objectArray.ownKind? = some .array := rfl
    have isArray := Rule.kind_of_parseWith own read
    have values := objectArray_excludes levels' read (filled_of_opened isArray opened)
    show (object.parse levels' start).or ((primitiveArray.parse levels' start).or none) = none
    rw [objects, values]
    rfl
  · intro levels levels' start token stop read _
    obtain ⟨_, _, values⟩ := object_excludes levels' read
    show (primitiveArray.parse levels' start).or none = none
    rw [values]
    rfl

end Object

section Collection

variable {source : Bytes}

/-- What is a level of a spatial token. -/
abbrev opensCollection (source : Bytes) (token : Token) : Bool :=
  (source.endOfPrefix? (Text.ofWord Shape.collection.name).bytes token.span.start).isSome

theorem opensCollection_iff {start : Place} {token : Token} (inside : start.In source)
    (here : token.span.start = start.offset) :
    opensCollection source token = true ↔
      ∃ rest, start.rest = Text.ofWord Shape.collection.name ++ rest := by
  have legible : (Text.ofWord Shape.collection.name).Legible := by decide
  have filled : (Text.ofWord Shape.collection.name).bytes ≠ [] := by decide
  rw [opensCollection, here, Bytes.endOfPrefix?, inside]
  constructor
  · intro opened
    split at opened
    · rename_i stands
      simp only [Bool.and_eq_true, List.isPrefixOf_iff_prefix] at stands
      obtain ⟨after, same⟩ := stands.2
      exact ⟨Text.ofBytes after, by rw [← same, Text.ofBytes_bytes_append legible]⟩
    · cases opened
  · rintro ⟨rest, same⟩
    obtain ⟨after, _, split⟩ := Text.exists_rest_of_append same
    have within : start.offset ≤ source.length := by
      rcases Nat.le_total start.offset source.length with le | past
      · exact le
      · rw [List.drop_of_length_le past] at split
        exact absurd (List.append_eq_nil_iff.mp split.symm).1 filled
    rw [if_pos, Option.isSome_some]
    simp only [Bool.and_eq_true, decide_eq_true_eq, List.isPrefixOf_iff_prefix]
    exact ⟨within, after, split.symm⟩

/-- The first character of the keyword of a collection. -/
def collectionLetter : UriChar := .plain 'C'.toUInt8

/-- A rule whose tokens do not start like a collection. -/
def noCollection (rule : Rule) : Bool :=
  rule.steady && !rule.leads collectionLetter

theorem silent_of_noCollection (rule : Rule) (other : noCollection rule = true) :
    rule.Silent (opensCollection source) source := by
  intro levels start token stop inside read
  simp only [noCollection, Bool.and_eq_true, Bool.not_eq_true'] at other
  obtain ⟨character, tail, same, accepted⟩ := Rule.parse_begins levels other.1 _ _ _ read
  have here : token.span.start = start.offset := by
    rw [Rule.parse_spans levels rule _ _ _ read]
  cases opened : opensCollection source token with
  | false => rfl
  | true =>
    obtain ⟨rest, keyword⟩ := (opensCollection_iff inside here).mp opened
    rw [same] at keyword
    have letter : character = collectionLetter := (List.cons.inj keyword).1
    rw [letter, other.2] at accepted
    cases accepted

theorem geoLiteral_counted : geoLiteral.Counted (opensCollection source) source .collection := by
  refine ⟨.inr ?_, rfl, Rule.counted_of_every silent_of_noCollection (by decide)⟩
  intro levels levels' start token stop read _
  have apart : UriChar.Apart (Table.rule (geoTable.drop 1)).leads (shape .collection).leads := by
    intro character accepted
    show ((text (Text.ofWord "Collection") ++ plain '(').leads character || false) = false
    rw [Bool.or_false, leads_of_filled rfl]
    exact apart_word rfl character accepted
  exact Rule.parse_eq_none_of_apart (by decide) (by decide) apart.symm read levels'

theorem collection_loud {levels : Nat} {start stop : Place} {token : Token} (inside : start.In source)
    (read : Construct.collection.parse levels start = some (token, stop)) :
    opensCollection source token = true := by
  have here : token.span.start = start.offset := by
    rw [Construct.parse_spans levels .collection _ _ _ read]
  cases levels with
  | zero => cases read
  | succ levels =>
    have list : Parser.list .literal (text (Text.ofWord Shape.collection.name) ++ plain '(')
        (geoLiteral.parse levels) comma closeParen false start = some (token, stop) := read
    obtain ⟨_, _, _, opened, _⟩ := Parser.list_iff.mp list
    obtain ⟨_, middle, _, keyword, _, _⟩ := split_seq_iff.mp (Pattern.parse_iff.mp opened).1
    exact (opensCollection_iff inside here).mpr ⟨middle, (split_text_iff.mp keyword).2⟩

end Collection

/-- The limit takes away the tokens that need more levels than are free, and changes no other. -/
theorem nesting_exact {depth : Nat} (free : depth ≤ maxDepth) (source : Bytes) (offset : Nat)
    (token : Token) :
    (∀ rule ∈ [object, objectArray, jsonValue, arrayOrObject],
      (rule.attempt source offset depth).1 = .done token ↔
        (rule.read Nesting.unbounded source offset ()).1 = .done token ∧
          depth + token.objectLevels ≤ maxDepth) ∧
    (∀ rule ∈ [shape .collection, geoLiteral],
      (rule.attempt source offset depth).1 = .done token ↔
        (rule.read Nesting.unbounded source offset ()).1 = .done token ∧
          depth + token.collectionLevels source ≤ maxDepth) := by
  have objects {rule : Rule} (steady : rule.steady = true) (fits : rule.Fits)
      (counted : rule.Counted opensObject source .object) :=
    Rule.attempt_iff_unbounded (fun _ _ _ _ _ => objectMembers_loud)
      (fun _ _ _ _ _ _ => objectItems_counted) steady fits counted free offset token
  have collections {rule : Rule} (steady : rule.steady = true) (fits : rule.Fits)
      (counted : rule.Counted (opensCollection source) source .collection) :=
    Rule.attempt_iff_unbounded (fun _ _ _ _ => collection_loud)
      (fun _ _ _ _ _ _ same => by cases same; exact geoLiteral_counted) steady fits counted free
      offset token
  simp only [List.forall_mem_cons]
  refine ⟨⟨?_, ?_, ?_, ?_, nofun⟩, ?_, ?_, nofun⟩
  · exact objects (by decide) trivial rfl
  · exact objects (by decide) trivial (array_counted rfl)
  · exact objects (by decide) jsonValue_fits jsonValue_counted
  · exact objects (by decide) ⟨trivial, trivial, jsonPrimitive_fits, trivial⟩ arrayOrObject_counted
  · exact collections (by decide) trivial rfl
  · exact collections (by decide) geoLiteral_fits geoLiteral_counted

/-- The last level is free for an object that is empty. -/
theorem nesting_exact_last_level :
    63 ≤ maxDepth ∧
      (object.read Nesting.unbounded [0x7B, 0x7D] 0 ()).1 =
        .done { kind := .object, span := { start := 0, stop := 2 }, value := .items [] } ∧
      (object.attempt [0x7B, 0x7D] 0 63).1 =
        .done { kind := .object, span := { start := 0, stop := 2 }, value := .items [] } := by
  have found : (object.read Nesting.unbounded [0x7B, 0x7D] 0 ()).1 =
      .done { kind := .object, span := { start := 0, stop := 2 }, value := .items [] } := by rfl
  have exact_ := nesting_exact (by decide : 63 ≤ maxDepth) [0x7B, 0x7D] 0
    { kind := .object, span := { start := 0, stop := 2 }, value := .items [] }
  exact ⟨by decide, found, (exact_.1 object (by simp)).mpr ⟨found, by decide⟩⟩

end Grammar

end ODataLiteral
