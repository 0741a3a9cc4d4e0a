import ODataLiteral.Grammar
import ODataLiteral.Proofs.Boundary
import ODataLiteral.Proofs.Tiles

/-! Rules whose texts begin and end with ASCII. What they hold in between may be anything, so it is the two ends that
decide: both are boundaries of characters wherever the source is a text. The first character of a pattern and its
last one come from known classes, and octets that are no ASCII are few enough to be tried one by one.
All rules of the grammar are such rules. Only strings hold anything else, and they stand between quotes. -/
namespace ODataLiteral

/-- A character that is written in ASCII. The digits of an encoded octet always are. -/
def UriChar.Ascii : UriChar → Prop
  | plain octet => octet < 0x80
  | encoded _ _ => True

theorem UriChar.bytes_ne_nil (character : UriChar) : character.bytes ≠ [] := by
  cases character <;> exact List.cons_ne_nil _ _

theorem Octet.low_of_isHexDigit {octet : UInt8} (digit : isHexDigit octet = true) : octet < 0x80 := by
  simp only [isHexDigit, isDigit, Bool.or_eq_true, between_iff] at digit
  rcases digit with (⟨_, above⟩ | ⟨_, above⟩) | ⟨_, above⟩ <;> exact UInt8.lt_of_le_of_lt above (by decide)

namespace Text

/-- A text whose first and last characters are ASCII, or that has none. -/
structure Fenced (text : Text) : Prop where
  first : ∀ character, text.head? = some character → character.Ascii
  last : ∀ character, text.getLast? = some character → character.Ascii

theorem Fenced.append {one two : Text} (fenced : one.Fenced) (fencedToo : two.Fenced) : Fenced (one ++ two) where
  first character head := by
    rw [List.head?_append, Option.or_eq_some_iff] at head
    exact head.elim (fenced.first character) fun later => fencedToo.first character later.2
  last character final := by
    rw [List.getLast?_append, Option.or_eq_some_iff] at final
    exact final.elim (fencedToo.last character) fun sooner => fenced.last character sooner.2

/-- In the text of a source, the digits of encoded octets are digits. -/
theorem ascii_bytes {source : Bytes} {text rest : Text} (same : ofBytes source = text ++ rest)
    {character : UriChar} (member : character ∈ text) (ascii : character.Ascii) :
    ∀ octet ∈ character.bytes, octet < 0x80 := by
  obtain ⟨before, after, rfl⟩ := List.append_of_mem member
  rw [List.append_assoc, List.cons_append] at same
  obtain ⟨middle, here, _⟩ := exists_rest_of_append same
  obtain ⟨_, read, _⟩ := next?_of_ofBytes here
  cases character with
  | plain octet => exact List.forall_mem_singleton.mpr ascii
  | encoded high low =>
    obtain ⟨isHigh, isLow⟩ := UriChar.legible_of_next? read nofun
    exact List.forall_mem_cons.mpr ⟨by decide, List.forall_mem_cons.mpr
      ⟨Octet.low_of_isHexDigit isHigh, List.forall_mem_singleton.mpr (Octet.low_of_isHexDigit isLow)⟩⟩

section Cut

variable {source front back : Bytes} {text rest : Text}

/-- A fenced text is cut out of a text as a text. -/
theorem Fenced.cut (fenced : text.Fenced) (same : ofBytes source = text ++ rest) (filled : text ≠ [])
    (valid : Utf8.Valid (front ++ text.bytes ++ back)) :
    Utf8.Valid front ∧ Utf8.Valid text.bytes ∧ Utf8.Valid back := by
  have low {character : UriChar} (member : character ∈ text) (ascii : character.Ascii) {octet : UInt8}
      (inside : octet ∈ character.bytes) : octet < 0x80 :=
    ascii_bytes same member ascii octet inside
  have spelled : text.bytes ≠ [] := by
    have long := width_pos_of_ne_nil filled
    rw [← length_bytes] at long
    exact List.length_pos_iff.mp long
  refine valid.cut spelled (fun octet first => ?_) (fun octet last => ?_)
  · obtain ⟨character, others, rfl⟩ := List.exists_cons_of_ne_nil filled
    rw [bytes_cons, List.head?_append_of_ne_nil _ character.bytes_ne_nil] at first
    exact low List.mem_cons_self (fenced.first _ rfl) (List.mem_of_head? first)
  · have parts : text.bytes = Text.bytes text.dropLast ++ (text.getLast filled).bytes := by
      conv_lhs => rw [← List.dropLast_concat_getLast filled, bytes_append]
      exact congrArg _ (List.append_nil _)
    rw [parts, List.getLast?_append_of_ne_nil _ (UriChar.bytes_ne_nil _)] at last
    have final := fenced.last _ (List.getLast?_eq_some_getLast filled)
    exact low (List.getLast_mem filled) final (List.mem_of_getLast? last)

variable {character : UriChar}

theorem valid_of_cons (low : ∀ octet ∈ character.bytes, octet < 0x80)
    (valid : Utf8.Valid (Text.bytes (character :: text))) : Utf8.Valid text.bytes := by
  rw [bytes_cons, ← List.nil_append (_ ++ _), ← List.append_assoc] at valid
  exact (valid.cut character.bytes_ne_nil (fun _ first => low _ (List.mem_of_head? first))
    fun _ last => low _ (List.mem_of_getLast? last)).2.2

theorem valid_of_concat (low : ∀ octet ∈ character.bytes, octet < 0x80)
    (valid : Utf8.Valid (Text.bytes (text ++ [character]))) : Utf8.Valid text.bytes := by
  rw [bytes_append, bytes_cons, ← List.append_assoc] at valid
  exact (valid.cut character.bytes_ne_nil (fun _ first => low _ (List.mem_of_head? first))
    fun _ last => low _ (List.mem_of_getLast? last)).1

end Cut

end Text

/-- The octets that are no ASCII. -/
def Octet.high : List UInt8 :=
  (List.range 128).map fun number => .ofNat (128 + number)

theorem Octet.mem_high {octet : UInt8} (high : ¬ octet < 0x80) : octet ∈ Octet.high := by
  have large : 128 ≤ octet.toNat := Nat.le_of_not_lt fun low => high (UInt8.lt_iff_toNat_lt.mpr low)
  have bounded := octet.toNat_lt
  refine List.mem_map.mpr ⟨octet.toNat - 128, List.mem_range.mpr (by omega), ?_⟩
  rw [Nat.add_sub_cancel' large, UInt8.ofNat_toNat]

/-- A class of characters that are all ASCII. -/
def UriChar.low (accepts : UriChar → Bool) : Bool :=
  Octet.high.all fun octet => !accepts (.plain octet)

theorem UriChar.ascii_of_low {accepts : UriChar → Bool} (low : UriChar.low accepts = true) {character : UriChar}
    (accepted : accepts character = true) : character.Ascii := by
  cases character with
  | encoded _ _ => trivial
  | plain octet =>
    by_contra high
    have refused := List.all_eq_true.mp low octet (Octet.mem_high high)
    rw [accepted] at refused
    cases refused

namespace Pattern

/-- A pattern that begins with ASCII, if with anything. -/
def beginsLow : Pattern → Bool
  | empty | notBefore _ => true
  | char accepts => UriChar.low accepts
  | seq first second => first.beginsLow && (!first.nullable || second.beginsLow)
  | alt first second => first.beginsLow && second.beginsLow
  | times _ _ body => body.beginsLow

/-- A pattern that ends with ASCII, if with anything. -/
def endsLow : Pattern → Bool
  | empty | notBefore _ => true
  | char accepts => UriChar.low accepts
  | seq first second => second.endsLow && (!second.nullable || first.endsLow)
  | alt first second => first.endsLow && second.endsLow
  | times _ _ body => body.endsLow

def fenced (pattern : Pattern) : Bool :=
  pattern.beginsLow && pattern.endsLow

theorem ascii_of_leads {pattern : Pattern} {character : UriChar} (low : pattern.beginsLow = true)
    (leads : pattern.leads character = true) : character.Ascii := by
  induction pattern with
  | empty | notBefore _ _ => cases leads
  | char accepts => exact UriChar.ascii_of_low low leads
  | seq first second ihFirst ihSecond =>
    simp only [beginsLow, Pattern.leads, Bool.and_eq_true, Bool.or_eq_true, Bool.not_eq_true'] at low leads
    rcases leads with leads | ⟨nullable, leads⟩
    · exact ihFirst low.1 leads
    · exact ihSecond (low.2.resolve_left (by simp [nullable])) leads
  | alt first second ihFirst ihSecond =>
    simp only [beginsLow, Pattern.leads, Bool.and_eq_true, Bool.or_eq_true] at low leads
    exact leads.elim (ihFirst low.1) (ihSecond low.2)
  | times least most body ih => exact ih low leads

theorem ascii_of_last {pattern : Pattern} {text : Text} {character : UriChar} (low : pattern.endsLow = true)
    (member : text ∈ pattern.language) (last : text.getLast? = some character) : character.Ascii := by
  induction pattern generalizing text with
  | empty | notBefore _ _ =>
    obtain rfl := (Language.mem_one _).mp member
    cases last
  | char accepts =>
    obtain ⟨other, accepted, rfl⟩ := member
    cases last
    exact UriChar.ascii_of_low low accepted
  | seq first second ihFirst ihSecond =>
    obtain ⟨before, one, after, two, rfl⟩ := Language.mem_mul.mp member
    rw [List.getLast?_append, Option.or_eq_some_iff, List.getLast?_eq_none_iff] at last
    simp only [endsLow, Bool.and_eq_true, Bool.or_eq_true, Bool.not_eq_true'] at low
    rcases last with last | ⟨rfl, last⟩
    · exact ihSecond low.1 two last
    · exact ihFirst (low.2.resolve_left (by simp [nullable_of_nil_mem two])) one last
  | alt first second ihFirst ihSecond =>
    simp only [endsLow, Bool.and_eq_true] at low
    exact ((Language.mem_add _ _ _).mp member).elim (ihFirst low.1 · last) (ihSecond low.2 · last)
  | times least most body ih =>
    obtain ⟨parts, -, -, every, rfl⟩ := member
    rw [List.getLast?_flatten] at last
    obtain ⟨part, inside, last⟩ := List.exists_of_findSome?_eq_some last
    exact ih low (every part (List.mem_reverse.mp inside)) last

theorem fenced_of_mem {pattern : Pattern} {text : Text} (fenced : pattern.fenced = true)
    (member : text ∈ pattern.language) : text.Fenced := by
  obtain ⟨begins, ends⟩ := Bool.and_eq_true_iff.mp fenced
  constructor
  · intro character first
    obtain ⟨others, rfl⟩ := List.head?_eq_some_iff.mp first
    exact ascii_of_leads begins (leads_of_mem member)
  · exact fun character last => ascii_of_last ends member last

theorem fenced_of_parse {pattern : Pattern} (steady : pattern.steady = true) (fenced : pattern.fenced = true)
    {start stop : Place} {text : Text} (read : pattern.parse start = some (text, stop)) : text.Fenced :=
  fenced_of_mem fenced (mem_language_of_split steady (Pattern.parse_iff.mp read).1)

end Pattern

/-- Rules in which all patterns are fenced and no type name is empty. A construct is judged by its body. -/
def Rule.fenced : Rule → Bool
  | lexeme _ _ pattern => pattern.fenced
  | enclosed _ opening inner closing => opening.fenced && inner.fenced && closing.fenced
  | pair _ opening first between second =>
    opening.fenced && first.fenced && between.fenced && second.fenced
  | list _ opening item separator closing _ =>
    opening.fenced && item.fenced && separator.fenced && closing.fenced
  | enumeration typeName opening member separator closing =>
    !typeName.nullable && typeName.fenced && opening.fenced && member.fenced && separator.fenced &&
      closing.fenced
  | withType _ rule | withKind _ rule => rule.fenced
  | orElse first second => first.fenced && second.fenced
  | never | .construct _ => true

/-- A fenced text stands between two places. -/
def Place.Fenced (start stop : Place) : Prop :=
  ∃ text : Text, start.Advances text stop ∧ text.Fenced

theorem Place.Fenced.trans {start middle stop : Place} (one : Fenced start middle) (two : Fenced middle stop) :
    Fenced start stop := by
  obtain ⟨text, on, fenced⟩ := one
  obtain ⟨more, onward, fencedToo⟩ := two
  exact ⟨text ++ more, on.trans onward, fenced.append fencedToo⟩

theorem Pattern.place_fenced {pattern : Pattern} (steady : pattern.steady = true) (fenced : pattern.fenced = true)
    {start stop : Place} {text : Text} (read : pattern.parse start = some (text, stop)) : start.Fenced stop :=
  ⟨text, Pattern.parse_advances read, Pattern.fenced_of_parse steady fenced read⟩

/-- A parser that only goes on over fenced texts. -/
def Parser.Fenced (parser : Parser) : Prop :=
  ∀ start token stop, parser start = some (token, stop) → start.Fenced stop

theorem Parser.Items.fenced {item : Parser} {separator closing : Pattern} (fenced : item.Fenced)
    (parts : separator.steady = true) (partsFenced : separator.fenced = true) (ends : closing.steady = true)
    (endsFenced : closing.fenced = true) {start stop : Place} {tokens : List Token}
    (run : Items item separator closing start tokens stop) : start.Fenced stop := by
  induction run with
  | last read closed => exact (fenced _ _ _ read).trans (Pattern.place_fenced ends endsFenced closed)
  | more read _ between _ ih =>
    exact ((fenced _ _ _ read).trans (Pattern.place_fenced parts partsFenced between)).trans ih

namespace Rule

theorem parseWith_fenced {construct : Construct → Parser} (constructs : ∀ named, (construct named).Fenced)
    {rule : Rule} (steady : rule.steady = true) (fenced : rule.fenced = true) :
    (rule.parseWith construct).Fenced := by
  induction rule with
  | lexeme kind meaning pattern =>
    intro start token stop read
    simp only [Rule.steady, Bool.and_eq_true] at steady
    obtain ⟨_, _, taken, _, _⟩ := Parser.lexeme_iff.mp read
    exact Pattern.place_fenced steady.1 fenced taken
  | enclosed kind opening inner closing ih =>
    intro start token stop read
    simp only [Rule.steady, Rule.fenced, Bool.and_eq_true] at steady fenced
    obtain ⟨⟨opens, inside⟩, closes⟩ := steady
    obtain ⟨_, _, _, _, _, opened, found, closed, _⟩ := Parser.enclosed_iff.mp read
    have first := Pattern.place_fenced opens fenced.1.1 opened
    have middle := ih inside fenced.1.2 _ _ _ found
    exact (first.trans middle).trans (Pattern.place_fenced closes fenced.2 closed)
  | pair pairing opening first between second ihFirst ihSecond =>
    intro start token stop read
    simp only [Rule.steady, Rule.fenced, Bool.and_eq_true] at steady fenced
    obtain ⟨⟨⟨opens, left⟩, parts⟩, right⟩ := steady
    obtain ⟨_, _, _, _, _, _, _, opened, one, separated, two, _⟩ := Parser.pair_iff.mp read
    have before := (Pattern.place_fenced opens fenced.1.1.1 opened).trans (ihFirst left fenced.1.1.2 _ _ _ one)
    have gap := Pattern.place_fenced parts fenced.1.2 separated
    exact (before.trans gap).trans (ihSecond right fenced.2 _ _ _ two)
  | list kind opening item separator closing mayBeEmpty ih =>
    intro start token stop read
    have steady := steadyItems_of_list steady
    simp only [Rule.fenced, Bool.and_eq_true] at fenced
    obtain ⟨_, _, _, opened, _, ⟨_, _, _, closed⟩ | ⟨_, run⟩⟩ := Parser.list_iff.mp read
    · have first := Pattern.place_fenced steady.opens fenced.1.1.1 opened
      exact first.trans (Pattern.place_fenced steady.ends fenced.2 closed)
    · have first := Pattern.place_fenced steady.opens fenced.1.1.1 opened
      exact first.trans ((Parser.items_of_itemsWithin run).fenced (ih steady.inside fenced.1.1.2) steady.parts
        fenced.1.2 steady.ends fenced.2)
  | enumeration typeName opening member separator closing ih =>
    intro start token stop read
    obtain ⟨names, steady⟩ := steadyItems_of_enumeration steady
    simp only [Rule.fenced, Bool.and_eq_true] at fenced
    obtain ⟨_, _, _, _, _, _, named, opened, run, _, _⟩ := Parser.enumeration_iff.mp read
    have first := (Pattern.place_fenced names fenced.1.1.1.1.2 named).trans
      (Pattern.place_fenced steady.opens fenced.1.1.1.2 opened)
    exact first.trans ((Parser.items_of_itemsWithin run).fenced (ih steady.inside fenced.1.1.2) steady.parts
      fenced.1.2 steady.ends fenced.2)
  | withType _ rule ih | withKind _ rule ih =>
    intro start token stop read
    obtain ⟨_, found, _⟩ := Parser.mapToken_iff.mp read
    exact ih steady fenced _ _ _ found
  | orElse first second ihFirst ihSecond =>
    intro start token stop read
    simp only [Rule.steady, Rule.fenced, Bool.and_eq_true] at steady fenced
    simp only [parseWith, Option.or_eq_some_iff] at read
    rcases read with one | ⟨_, two⟩
    · exact ihFirst steady.1 fenced.1 _ _ _ one
    · exact ihSecond steady.2 fenced.2 _ _ _ two
  | never =>
    intro start token stop read
    cases read
  | construct named => exact constructs named

end Rule

theorem Construct.body_fenced (construct : Construct) : construct.body.fenced = true := by
  cases construct <;> decide +kernel

theorem Construct.parse_fenced (levels : Nat) (construct : Construct) : (construct.parse levels).Fenced := by
  induction levels generalizing construct with
  | zero =>
    intro start token stop read
    cases read
  | succ levels ih => exact Rule.parseWith_fenced ih construct.steady_body construct.body_fenced

theorem Rule.parse_fenced (levels : Nat) {rule : Rule} (steady : rule.steady = true)
    (fenced : rule.fenced = true) : (rule.parse levels).Fenced :=
  Rule.parseWith_fenced (Construct.parse_fenced levels) steady fenced

theorem Grammar.catalogue_fenced : ∀ rule ∈ catalogue, rule.fenced = true := by
  decide +kernel

end ODataLiteral
