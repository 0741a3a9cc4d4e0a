import ODataLiteral.Proofs.Contract
import ODataLiteral.Proofs.Pattern.Shape
import ODataLiteral.Proofs.Rule.Nesting
import ODataLiteral.Proofs.Rule.Rounds

/-! Lists over any reader of items: the spatial ones behind a keyword and a parenthesis, and those between brackets.
What such a list gives is told from its items and delimiters alone, even where items take no octets. -/
namespace ODataLiteral

open Pattern

section Opening

variable {mark : UInt8} {front : Bytes} {character : UriChar} {rest source keyword : Bytes} {offset stop : Nat}

/-- An octet that is no hexadecimal digit is part of no encoded character in front of it. -/
theorem UriChar.next?_before (noDigit : Octet.isHexDigit mark = false)
    (read : next? front = some (character, rest)) (behind : Bytes) :
    next? (front ++ mark :: behind) = some (character, rest ++ mark :: behind) := by
  match front with
  | [] => cases read
  | octet :: after =>
    by_cases escape : octet = percent
    · subst escape
      match after with
      | [] =>
        cases read
        cases behind <;> simp [next?, noDigit]
      | [high] =>
        cases read
        simp [next?, noDigit]
      | high :: low :: more =>
        cases digits : Octet.isHexDigit high && Octet.isHexDigit low with
        | true | false =>
          simp only [next?, beq_self_eq_true, if_true, digits, Bool.false_eq_true, if_false] at read
          cases read
          simp [next?, digits]
    · simp only [next?, beq_iff_eq, escape, if_false] at read
      cases read
      simp [next?, escape]

theorem Text.ofBytes_before (noDigit : Octet.isHexDigit mark = false) (bare : mark ≠ UriChar.percent)
    (front behind : Bytes) :
    ofBytes (front ++ mark :: behind) = ofBytes front ++ .plain mark :: ofBytes behind := by
  cases next : UriChar.next? front with
  | none =>
    obtain rfl := UriChar.next?_eq_none.mp next
    exact ofBytes_of_next? (by simp [UriChar.next?, bare])
  | some found =>
    obtain ⟨character, rest⟩ := found
    have shorter : rest.length < front.length := by
      have whole := UriChar.length_of_next? next
      have wide := character.width_pos
      omega
    rw [ofBytes_of_next? (UriChar.next?_before noDigit next behind), ofBytes_of_next? next,
      ofBytes_before noDigit bare rest behind]
    rfl
termination_by front.length

theorem Pattern.text_steady (expected : Text) : (Pattern.text expected).steady = true := by
  induction expected with
  | nil => rfl
  | cons character rest ih =>
    cases rest with
    | nil => rfl
    | cons _ _ => exact ih

theorem split_keyword_iff {keyword text taken behind : Text} :
    (Pattern.text keyword ++ plain '(').split text = some (taken, behind) ↔
      taken = keyword ++ [.plain 0x28] ∧ text = keyword ++ .plain 0x28 :: behind := by
  have parenthesis {text taken : Text} : (plain '(').split text = some (taken, behind) ↔
      taken = [.plain 0x28] ∧ text = .plain 0x28 :: behind := by
    rw [plain, octet, split_char_iff]
    constructor
    · rintro ⟨character, accepted, rfl, rfl⟩
      obtain rfl : character = .plain 0x28 := by
        cases character with
        | plain octet => exact congrArg UriChar.plain (beq_iff_eq.mp accepted)
        | encoded _ _ => cases accepted
      exact ⟨rfl, rfl⟩
    · rintro ⟨rfl, rfl⟩
      exact ⟨_, by decide, rfl, rfl⟩
  rw [append_eq_seq, split_seq_iff]
  constructor
  · rintro ⟨before, middle, after, first, second, rfl⟩
    obtain ⟨rfl, rfl⟩ := split_text_iff.mp first
    obtain ⟨rfl, rfl⟩ := parenthesis.mp second
    exact ⟨rfl, rfl⟩
  · rintro ⟨rfl, rfl⟩
    exact ⟨_, _, _, split_text_iff.mpr ⟨rfl, rfl⟩, parenthesis.mpr ⟨rfl, rfl⟩, rfl⟩

/-- A keyword and a parenthesis, octet by octet. -/
theorem endAt_keyword_iff : (text (Text.ofBytes keyword) ++ plain '(').endAt source offset = some stop ↔
    keyword ++ [0x28] <+: source.drop offset ∧ stop = offset + keyword.length + 1 := by
  have steady : (text (Text.ofBytes keyword) ++ plain '(').steady = true := by
    rw [append_eq_seq, Pattern.steady, text_steady]
    rfl
  have width : Text.width (Text.ofBytes keyword ++ [.plain 0x28]) = keyword.length + 1 := by
    rw [Text.width_append, ← Text.length_bytes, Text.bytes_ofBytes]
    rfl
  rw [endAt_iff_split steady]
  constructor
  · rintro ⟨taken, behind, split, rfl⟩
    obtain ⟨rfl, spelled⟩ := split_keyword_iff.mp split
    have octets := congrArg Text.bytes spelled
    rw [Text.bytes_ofBytes, Text.bytes_append, Text.bytes_ofBytes, Text.bytes_cons] at octets
    refine ⟨⟨behind.bytes, ?_⟩, by rw [width, Nat.add_assoc]⟩
    rw [octets, List.append_assoc]
    rfl
  · rintro ⟨⟨rest, octets⟩, rfl⟩
    refine ⟨_, Text.ofBytes rest, split_keyword_iff.mpr ⟨rfl, ?_⟩, by rw [width, Nat.add_assoc]⟩
    rw [← octets, List.append_assoc, List.singleton_append]
    exact Text.ofBytes_before (by decide) (by decide) keyword rest

theorem keyword_consumes (source keyword : Bytes) :
    Consumes source.length ((text (Text.ofBytes keyword) ++ plain '(').endAt source) := by
  intro offset stop ends
  obtain ⟨stands, rfl⟩ := endAt_keyword_iff.mp ends
  have long := stands.length_le
  simp only [List.length_append, List.length_singleton, List.length_drop] at long
  omega

theorem comma_consumes (source : Bytes) : Consumes source.length (comma.endAt source) :=
  endAt_consumes (by decide) (by decide) source

theorem closeParen_consumes (source : Bytes) : Consumes source.length (closeParen.endAt source) :=
  endAt_consumes (by decide) (by decide) source

end Opening

/-- A token that takes no octets. -/
def Token.hollow (offset : Nat) : Token :=
  ⟨.literal, ⟨offset, offset⟩, .null⟩

/-- Such a token at any offset of a source of some length. -/
def Token.hollow? (length offset : Nat) : Option Token :=
  if offset ≤ length then some (hollow offset) else none

namespace Reader

variable {account : Type}

/-- The token that a reader gives at an offset of a source. -/
def tokenAt? (reader : Reader account) (state : account) (source : Bytes) (offset : Nat) : Option Token :=
  (reader (Cursor.ofSource source offset) state).1.value?.map (·.1)

/-- The reader of a recognizer's tokens. -/
def ofRecognizer (source : Bytes) (item : Nat → Option Token) : Reader account := fun cursor =>
  Attempt.ofOption ((item cursor.offset).map fun token => (token, Cursor.ofSource source token.span.stop))

/-- A spatial list over any reader of items. Its rule names the item only, so the caller says how to read it. -/
def spatialList (source keyword : Bytes) (item : Reader account) (mayBeEmpty : Bool) : Reader account :=
  (Grammar.geoList (Text.ofBytes keyword) (.construct .collection) mayBeEmpty).readWith source.length fun _ => item

/-- A list between two brackets over any reader of items. -/
def bracketedList (source : Bytes) (kind : Kind) (left right : Char) (item : Reader account) : Reader account :=
  (Rule.list kind (openingBracket left) (.construct .object) valueSeparator (closingBracket right) true).readWith
    source.length fun _ => item

variable {reader : Reader account} {state : account} {source : Bytes} {item : Nat → Option Token} {kind : Kind}
  {opening separator closing : Pattern} {start stop : Nat} {token : Token}

theorem ofRecognizer_recognizes
    (stands : ∀ offset token, item offset = some token → token.StandsAt source.length offset) :
    (ofRecognizer source item).Recognizes state source item :=
  ⟨fun _ => rfl, stands⟩

theorem hollow_recognizes (state : account) (source : Bytes) :
    (ofRecognizer source (Token.hollow? source.length)).Recognizes state source (Token.hollow? source.length) :=
  ofRecognizer_recognizes fun offset token found => by
    obtain ⟨inside, same⟩ := Option.ite_none_right_eq_some.mp found
    cases same
    exact ⟨rfl, Nat.le_refl _, inside⟩

theorem Ends.tokenAt?_eq {list : Reader account} {run : Nat → Option (List Token × Nat) → Prop} {rounds : Nat}
    {found : Option (List Token × Nat)} (ends : list.Ends state source kind start run) (here : run rounds found) :
    list.tokenAt? state source start = found.map fun listed => ⟨kind, ⟨start, listed.2⟩, .items listed.1⟩ := by
  rw [tokenAt?, ends.given _ _ here]
  cases found <;> rfl

section List

variable (recognizes : reader.Recognizes state source item)
  (opens : Consumes source.length (opening.endAt source))
  (separates : Consumes source.length (separator.endAt source))
  (closes : Consumes source.length (closing.endAt source))
include recognizes opens separates closes

theorem list_tokenAt?_iff :
    (list source.length kind opening reader separator closing false).tokenAt? state source start = some token ↔
      ∃ first tokens stop, opening.endAt source start = some first ∧
        Listed item (separator.endAt source) (closing.endAt source) first tokens stop ∧
        token = ⟨kind, ⟨start, stop⟩, .items tokens⟩ := by
  have ends : (list source.length kind opening reader separator closing false).Ends state source kind start _ :=
    list_ends recognizes opens separates closes
  constructor
  · intro given
    obtain ⟨rounds, found, run⟩ := ends.ends
    rw [ends.tokenAt?_eq run, Option.map_eq_some_iff] at given
    obtain ⟨⟨tokens, stop⟩, rfl, rfl⟩ := given
    cases run with
    | empty _ allowed _ => cases allowed
    | filled opened _ run => exact ⟨_, tokens, stop, opened, run.listed, rfl⟩
  · rintro ⟨first, tokens, stop, opened, listed, rfl⟩
    obtain ⟨rounds, run⟩ := listed.exists_rounds
    exact ends.tokenAt?_eq (.filled opened (fun allowed => (by cases allowed)) run)

theorem list_tokenAt?_of_empty {first : Nat} (opened : opening.endAt source start = some first)
    (closed : closing.endAt source first = some stop) :
    (list source.length kind opening reader separator closing true).tokenAt? state source start =
      some ⟨kind, ⟨start, stop⟩, .items []⟩ :=
  (list_ends recognizes opens separates closes).tokenAt?_eq (.empty opened rfl closed)

/-- Where no closing delimiter follows the opening one, it does not matter whether a list may be empty. -/
theorem list_tokenAt?_of_not_empty
    (goesOn : ∀ first, opening.endAt source start = some first → closing.endAt source first = none) :
    (list source.length kind opening reader separator closing true).tokenAt? state source start =
      (list source.length kind opening reader separator closing false).tokenAt? state source start := by
  have strict : (list source.length kind opening reader separator closing false).Ends state source kind start _ :=
    list_ends recognizes opens separates closes
  have loose : (list source.length kind opening reader separator closing true).Ends state source kind start _ :=
    list_ends recognizes opens separates closes
  obtain ⟨rounds, found, run⟩ := strict.ends
  rw [strict.tokenAt?_eq run]
  cases run with
  | unopened refused => exact loose.tokenAt?_eq (.unopened refused)
  | empty _ allowed _ => cases allowed
  | filled opened _ run => exact loose.tokenAt?_eq (.filled opened (fun _ => goesOn _ opened) run)

end List

theorem spatialList_tokenAt?_iff {keyword : Bytes} (recognizes : reader.Recognizes state source item) :
    (spatialList source keyword reader false).tokenAt? state source start = some token ↔
      keyword ++ [0x28] <+: source.drop start ∧ ∃ tokens stop,
        Listed item (comma.endAt source) (closeParen.endAt source) (start + keyword.length + 1) tokens stop ∧
        token = ⟨.literal, ⟨start, stop⟩, .items tokens⟩ := by
  refine (list_tokenAt?_iff recognizes (keyword_consumes source keyword) (comma_consumes source)
    (closeParen_consumes source)).trans ?_
  constructor
  · rintro ⟨_, tokens, stop, opened, listed, rfl⟩
    obtain ⟨stands, rfl⟩ := endAt_keyword_iff.mp opened
    exact ⟨stands, tokens, stop, listed, rfl⟩
  · rintro ⟨stands, tokens, stop, listed, rfl⟩
    exact ⟨_, tokens, stop, endAt_keyword_iff.mpr ⟨stands, rfl⟩, listed, rfl⟩

end Reader

theorem Cursor.At.eq_ofSource {source : Bytes} {cursor : Cursor} {place : Place} (at_ : cursor.At source.length place)
    (inside : place.In source) : cursor = Cursor.ofSource source place.offset := by
  have rest := congrArg Text.bytes (at_.rest.trans inside)
  rw [Text.bytes_ofBytes, Text.bytes_ofBytes] at rest
  rw [Cursor.ofSource, ← rest, ← at_.offset]

/-- The rules of the grammar are such items, with any number of levels open. -/
theorem Rule.recognizes {rule : Rule} (steady : rule.steady = true) (fits : rule.Fits) (source : Bytes)
    (unfoldings depth : Nat) :
    (rule.readWith source.length (Construct.reader (Nesting.bounded maxDepth) source.length unfoldings)).Recognizes
      depth source (rule.find? (min unfoldings (maxDepth - depth)) source) where
  reads offset := by
    have computes := Rule.readWith_computes (Construct.parse_strict _)
      (Construct.reader_bounded_computes maxDepth source.length unfoldings depth) steady fits
    obtain ⟨found, run, same⟩ := computes _ _ (Rule.ofSource_at source offset)
    rw [run, Rule.find?, Option.map_map]
    congr 2
    change Option.Rel _ found (rule.parse _ _) at same
    cases read : rule.parse (min unfoldings (maxDepth - depth)) (Place.ofSource source offset) with
    | none =>
      rw [read] at same
      cases same
      rfl
    | some expected =>
      rw [read] at same
      cases same with
      | @some given _ after =>
        obtain ⟨token, at_⟩ := after
        obtain ⟨text, on⟩ := Rule.parse_forward _ rule _ _ _ read
        have span := Rule.parse_spans _ rule _ _ _ read
        have behind := at_.eq_ofSource ((Place.In.ofSource source offset).advances on)
        rw [Option.map_some, Function.comp_apply, span, ← token, ← behind]
  stands offset token read := by
    obtain ⟨here, forward, inside⟩ := Rule.span_of_find? steady read
    exact ⟨here, Nat.le_of_lt forward, inside⟩

/-- Every list of the grammar comes to an end after few rounds, with any number of levels open. -/
theorem Rule.list_ends {item : Rule} {source : Bytes} {kind : Kind} {opening separator closing : Pattern}
    (mayBeEmpty : Bool) (steady : item.steady = true) (fits : item.Fits)
    (opens : Consumes source.length (opening.endAt source))
    (separates : Consumes source.length (separator.endAt source))
    (closes : Consumes source.length (closing.endAt source)) (unfoldings depth start : Nat) :
    ((list kind opening item separator closing mayBeEmpty).readWith source.length
        (Construct.reader (Nesting.bounded maxDepth) source.length unfoldings)).Ends depth source kind start
      (ListRun (item.find? (min unfoldings (maxDepth - depth)) source) (opening.endAt source)
        (separator.endAt source) (closing.endAt source) mayBeEmpty start) :=
  Reader.list_ends (Rule.recognizes steady fits source unfoldings depth) opens separates closes

namespace Grammar

open Reader

/-- The lists of the grammar, over the readers of their items. -/
theorem lists_readWith {account : Type} (construct : Construct → Reader account) (source : Bytes) :
    (∀ keyword item mayBeEmpty, (geoList (Text.ofBytes keyword) item mayBeEmpty).readWith source.length construct =
      spatialList source keyword (item.readWith source.length construct) mayBeEmpty) ∧
    (∀ item, (array item).readWith source.length construct =
      bracketedList source .array '[' ']' (item.readWith source.length construct)) ∧
    objectMembers.readWith source.length construct =
      bracketedList source .object '{' '}'
        ((Rule.orElse annotationMember propertyMember).readWith source.length construct) :=
  ⟨fun _ _ _ => rfl, fun _ => rfl, rfl⟩

/-- Lists over items that may take no octets, in any source and from any offset. All of them come to an end after few
rounds. A spatial list is read where its keyword and a parenthesis stand in front of items that a comma parts and a
closing parenthesis ends. If it may be empty, nothing else is different. -/
theorem lists_exact {account : Type} {reader : Reader account} {state : account} {source : Bytes}
    {item : Nat → Option Token} (recognizes : reader.Recognizes state source item) (start : Nat) :
    (∀ keyword mayBeEmpty, (spatialList source keyword reader mayBeEmpty).Ends state source .literal start
      (ListRun item ((text (Text.ofBytes keyword) ++ plain '(').endAt source) (comma.endAt source)
        (closeParen.endAt source) mayBeEmpty start)) ∧
    (∀ kind left right, (bracketedList source kind left right reader).Ends state source kind start
      (ListRun item ((openingBracket left).endAt source) (valueSeparator.endAt source)
        ((closingBracket right).endAt source) true start)) ∧
    ∀ keyword,
      (∀ token, (spatialList source keyword reader false).tokenAt? state source start = some token ↔
        keyword ++ [0x28] <+: source.drop start ∧ ∃ tokens stop,
          Listed item (comma.endAt source) (closeParen.endAt source) (start + keyword.length + 1) tokens stop ∧
          token = ⟨.literal, ⟨start, stop⟩, .items tokens⟩) ∧
      (∀ stop, keyword ++ [0x28] <+: source.drop start →
        closeParen.endAt source (start + keyword.length + 1) = some stop →
        (spatialList source keyword reader true).tokenAt? state source start =
          some ⟨.literal, ⟨start, stop⟩, .items []⟩) ∧
      ((keyword ++ [0x28] <+: source.drop start → closeParen.endAt source (start + keyword.length + 1) = none) →
        (spatialList source keyword reader true).tokenAt? state source start =
          (spatialList source keyword reader false).tokenAt? state source start) := by
  have opens := keyword_consumes source
  have separates := comma_consumes source
  have closes := closeParen_consumes source
  refine ⟨?_, ?_, ?_⟩
  · intro keyword mayBeEmpty
    exact list_ends recognizes (opens keyword) separates closes
  · intro kind left right
    exact list_ends recognizes (endAt_consumes rfl rfl source) (endAt_consumes rfl rfl source)
      (endAt_consumes rfl rfl source)
  · intro keyword
    refine ⟨?_, ?_, ?_⟩
    · intro token
      exact spatialList_tokenAt?_iff recognizes
    · intro stop stands closed
      have opened := endAt_keyword_iff.mpr ⟨stands, rfl⟩
      exact list_tokenAt?_of_empty recognizes (opens keyword) separates closes opened closed
    · intro goesOn
      refine list_tokenAt?_of_not_empty recognizes (opens keyword) separates closes ?_
      intro first opened
      obtain ⟨stands, rfl⟩ := endAt_keyword_iff.mp opened
      exact goesOn stands

/-- In `A(,%2C)` stand three items that take no octets, between two spellings of a comma. -/
theorem lists_exact_hollow :
    let source : Bytes := [0x41, 0x28, 0x2C, 0x25, 0x32, 0x43, 0x29]
    let reader : Reader Unit := ofRecognizer source (Token.hollow? source.length)
    let token : Token := ⟨.literal, ⟨0, 7⟩, .items [.hollow 2, .hollow 3, .hollow 6]⟩
    reader.Recognizes () source (Token.hollow? source.length) ∧
      (spatialList source [0x41] reader false).tokenAt? () source 0 = some token ∧
      (spatialList source [0x41] reader true).tokenAt? () source 0 = some token := by
  intro source reader token
  have recognizes : reader.Recognizes () source (Token.hollow? source.length) := hollow_recognizes () source
  obtain ⟨-, -, spatial⟩ := lists_exact recognizes 0
  obtain ⟨strict, -, loose⟩ := spatial [0x41]
  have stands : ([0x41] ++ [0x28] : Bytes) <+: source.drop 0 := by decide
  have row : Listed (Token.hollow? source.length) (comma.endAt source) (closeParen.endAt source) 2
      [.hollow 2, .hollow 3, .hollow 6] 7 :=
    ⟨by simp, rfl, .cons_cons ⟨rfl, 3, rfl, rfl⟩ (.cons_cons ⟨rfl, 6, rfl, rfl⟩ (.singleton _)), rfl⟩
  have found := (strict token).mpr ⟨stands, _, 7, row, rfl⟩
  exact ⟨recognizes, found, (loose fun _ => rfl).trans found⟩

end Grammar

end ODataLiteral
