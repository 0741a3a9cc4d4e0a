import ODataLiteral.Proofs.Rule.Tiling

/-! The tokens inside a token, at any depth, and the rules that read them. What every token of a kind of rules shows
is shown by all tokens inside one, once the parts of such rules are such rules.
What a token looks like, its kind and the kind of its value, is known from its rule alone. -/
namespace ODataLiteral

theorem Value.children_of_bare {value : Value} (bare : value.bare = true) : value.children = [] := by
  cases value with
  | null | typed _ | srid _ | identifier _ | json _ => rfl
  | position _ _ | nested _ | items _ | fullGeo _ _ | enumeration _ _ | keyValue _ _ => cases bare

namespace Token

/-- A token that is another one or stands inside it, at any depth. -/
inductive Inside : Token → Token → Prop
  | self {token : Token} : Inside token token
  | child {inner child token : Token} (member : child ∈ token.children) (within : Inside inner child) :
      Inside inner token

/-- A property of a token and of all tokens inside it. -/
def Everywhere (shown : Token → Prop) (token : Token) : Prop :=
  ∀ inner : Token, inner.Inside token → shown inner

/-- A token that one of some rules reads somewhere in a source. -/
def ReadBy (source : Bytes) (rules : List Rule) (token : Token) : Prop :=
  ∃ rule ∈ rules, ∃ levels start stop, Place.In source start ∧ rule.parse levels start = some (token, stop)

theorem ReadBy.mono {source : Bytes} {rules more : List Rule} {token : Token} (read : token.ReadBy source rules)
    (among : rules ⊆ more) : token.ReadBy source more := by
  obtain ⟨rule, member, read⟩ := read
  exact ⟨rule, among member, read⟩

end Token

/-- The rules of the tokens directly inside the tokens of a rule, given those of the constructs. A type takes the
place of all that is inside. -/
def Rule.partsWith (construct : Construct → List Rule) : Rule → List Rule
  | lexeme _ _ _ | withType _ _ | never => []
  | enclosed _ _ inner _ => [inner]
  | pair _ _ first _ second => [first, second]
  | list _ _ item _ _ _ => [item]
  | enumeration _ _ member _ _ => [member]
  | withKind _ rule => rule.partsWith construct
  | orElse first second => first.partsWith construct ++ second.partsWith construct
  | .construct named => construct named

def Construct.parts (construct : Construct) : List Rule :=
  construct.body.partsWith fun _ => []

/-- The rules of the tokens directly inside the tokens of a rule. -/
def Rule.parts (rule : Rule) : List Rule :=
  rule.partsWith Construct.parts

namespace Rule

variable {source : Bytes} {levels : Nat} {rule : Rule} {shown : Token → Prop}

theorem shows_readBy (source : Bytes) (levels : Nat) (rule : Rule) :
    (rule.parse levels).Shows source (Token.ReadBy source [rule]) :=
  fun start _ stop inside read => ⟨rule, List.mem_singleton_self rule, levels, start, stop, inside, read⟩

theorem list_children {kind : Kind} {opening separator closing : Pattern} {item : Rule} {mayBeEmpty : Bool} :
    ((list kind opening item separator closing mayBeEmpty).parse levels).Shows source fun token =>
      ∀ child ∈ token.children, child.ReadBy source [item] := by
  intro start token stop inside read
  obtain ⟨_, _, tokens, opened, rfl, ⟨_, rfl, _⟩ | ⟨_, items⟩⟩ := Parser.list_iff.mp read
  · exact List.forall_mem_nil _
  · exact forall_of_items (shows_readBy source levels item)
      (inside.advances (Pattern.parse_advances opened)) (Parser.items_of_itemsWithin items)

/-- Every token directly inside a token of a rule is read by one of the rule's parts. -/
theorem children_readBy (source : Bytes) (levels : Nat) (rule : Rule) :
    (rule.parse levels).Shows source fun token => ∀ child ∈ token.children, child.ReadBy source rule.parts := by
  induction rule with
  | lexeme kind meaning pattern =>
    intro start token stop inside read
    obtain ⟨_, value, _, known, rfl⟩ := Parser.lexeme_iff.mp read
    have none : value.children = [] := Value.children_of_bare (Meaning.bare_of_value? known)
    rw [Token.children, none]
    exact List.forall_mem_nil _
  | enclosed kind opening inner closing _ =>
    intro start token stop inside read
    obtain ⟨_, _, child, _, _, opened, found, _, rfl⟩ := Parser.enclosed_iff.mp read
    have here := inside.advances (Pattern.parse_advances opened)
    exact List.forall_mem_singleton.mpr (shows_readBy source levels inner _ _ _ here found)
  | pair pairing opening first between second _ _ =>
    intro start token stop inside read
    obtain ⟨_, _, one, _, _, _, two, opened, readOne, separated, readTwo, rfl⟩ := Parser.pair_iff.mp read
    have atOne := inside.advances (Pattern.parse_advances opened)
    obtain ⟨_, on⟩ := Rule.parse_forward levels first _ _ _ readOne
    have atTwo := (atOne.advances on).advances (Pattern.parse_advances separated)
    have left := shows_readBy source levels first _ _ _ atOne readOne
    have right := shows_readBy source levels second _ _ _ atTwo readTwo
    rw [Token.children, Pairing.children_value]
    exact List.forall_mem_cons.mpr ⟨left.mono (by simp [parts, partsWith]),
      List.forall_mem_singleton.mpr (right.mono (by simp [parts, partsWith]))⟩
  | list kind opening item separator closing mayBeEmpty _ => exact list_children
  | enumeration typeName opening member separator closing _ =>
    intro start token stop inside read
    obtain ⟨_, _, _, _, _, _, named, opened, items, _, rfl⟩ := Parser.enumeration_iff.mp read
    have here := (inside.advances (Pattern.parse_advances named)).advances (Pattern.parse_advances opened)
    exact forall_of_items (shows_readBy source levels member) here (Parser.items_of_itemsWithin items)
  | withType type rule _ =>
    intro start token stop inside read
    obtain ⟨_, _, rfl⟩ := parse_withType_iff.mp read
    exact List.forall_mem_nil _
  | withKind kind rule ih =>
    intro start token stop inside read
    obtain ⟨child, found, rfl⟩ := parse_withKind_iff.mp read
    exact ih start child stop inside found
  | orElse first second ihFirst ihSecond =>
    refine Parser.Shows.or (ihFirst.mono fun token from_ child member => ?_)
      (ihSecond.mono fun token from_ child member => ?_)
    · exact (from_ child member).mono (List.subset_append_left _ _)
    · exact (from_ child member).mono (List.subset_append_right _ _)
  | never =>
    intro start token stop inside read
    cases read
  | construct named =>
    intro start token stop inside read
    obtain ⟨_, _, item, _, _, _, _, _, same, read⟩ := Construct.list_of_parse read
    have only : (Rule.construct named).parts = [item] := by
      simp only [parts, partsWith, Construct.parts, same]
    rw [only]
    exact list_children start token stop inside read

/-- What good rules hand down to the rules of the tokens inside theirs. The bodies of constructs are good. -/
structure Hereditary (good inherited : Rule → Prop) : Prop where
  enclosed : ∀ {kind opening inner closing}, good (enclosed kind opening inner closing) → inherited inner
  pair : ∀ {pairing opening first between second},
    good (pair pairing opening first between second) → inherited first ∧ inherited second
  list : ∀ {kind opening item separator closing mayBeEmpty},
    good (list kind opening item separator closing mayBeEmpty) → inherited item
  enumeration : ∀ {typeName opening member separator closing},
    good (enumeration typeName opening member separator closing) → inherited member
  withKind : ∀ {kind rule}, good (withKind kind rule) → good rule
  orElse : ∀ {first second}, good (orElse first second) → good first ∧ good second
  body : ∀ named : Construct, good named.body

section Hereditary

variable {good inherited : Rule → Prop}

theorem Hereditary.partsWith (hereditary : Hereditary good inherited) {construct : Construct → List Rule}
    (constructs : ∀ named, ∀ part ∈ construct named, inherited part) (fine : good rule) :
    ∀ part ∈ rule.partsWith construct, inherited part := by
  induction rule with
  | lexeme _ _ _ | withType _ _ _ | never => exact List.forall_mem_nil _
  | enclosed _ _ _ _ _ => exact List.forall_mem_singleton.mpr (hereditary.enclosed fine)
  | pair _ _ _ _ _ _ _ =>
    obtain ⟨left, right⟩ := hereditary.pair fine
    exact List.forall_mem_cons.mpr ⟨left, List.forall_mem_singleton.mpr right⟩
  | list _ _ _ _ _ _ _ => exact List.forall_mem_singleton.mpr (hereditary.list fine)
  | enumeration _ _ _ _ _ _ => exact List.forall_mem_singleton.mpr (hereditary.enumeration fine)
  | withKind _ _ ih => exact ih (hereditary.withKind fine)
  | orElse _ _ ihFirst ihSecond =>
    obtain ⟨left, right⟩ := hereditary.orElse fine
    exact List.forall_mem_append.mpr ⟨ihFirst left, ihSecond right⟩
  | construct named => exact constructs named

theorem Hereditary.parts (hereditary : Hereditary good inherited) (fine : good rule) :
    ∀ part ∈ rule.parts, inherited part :=
  hereditary.partsWith
    (fun named => hereditary.partsWith (fun _ => List.forall_mem_nil _) (hereditary.body named)) fine

end Hereditary

/-- What the tokens of good rules show, all tokens inside them show, where the parts of good rules are good. -/
theorem everywhere_of_parts {good : Rule → Prop} (closed : ∀ rule, good rule → ∀ part ∈ rule.parts, good part)
    (shows : ∀ rule levels, good rule → (rule.parse levels).Shows source shown) (fine : good rule) :
    (rule.parse levels).Shows source (Token.Everywhere shown) := by
  intro start token stop inside read inner within
  induction within generalizing rule levels start stop with
  | self => exact shows rule levels fine start _ stop inside read
  | child member _ ih =>
    obtain ⟨part, among, levels', start', stop', inside', read'⟩ :=
      children_readBy source levels rule start _ stop inside read _ member
    exact ih (closed rule fine part among) start' stop' inside' read'

end Rule

/-- What sort of value a value is, without the tokens in it. -/
inductive Value.Form where
  | null
  | typed (type : EdmType)
  | position
  | nested
  | items
  | srid
  | fullGeo
  | enumeration
  | identifier
  | keyValue
  | json
deriving DecidableEq

def Value.form : Value → Value.Form
  | null => .null
  | typed type => .typed type
  | position _ _ => .position
  | nested _ => .nested
  | items _ => .items
  | srid _ => .srid
  | fullGeo _ _ => .fullGeo
  | enumeration _ _ => .enumeration
  | identifier _ => .identifier
  | keyValue _ _ => .keyValue
  | json _ => .json

/-- The kind of a token and what sort of value it has. -/
def Token.form (token : Token) : Kind × Value.Form :=
  (token.kind, token.value.form)

def Meaning.form : Meaning → Value.Form
  | null => .null
  | typed type | integer type _ => .typed type
  | srid => .srid
  | name | term => .identifier
  | jsonString | jsonNumber | jsonBoolean _ | jsonNull => .json

def Pairing.form : Pairing → Value.Form
  | position => .position
  | fullGeo => .fullGeo
  | keyValue => .keyValue

/-- The forms that the tokens of a rule may have, given those of the constructs. -/
def Rule.formsWith (construct : Construct → List (Kind × Value.Form)) : Rule → List (Kind × Value.Form)
  | lexeme kind meaning _ => [(kind, meaning.form)]
  | enclosed kind _ _ _ => [(kind, .nested)]
  | pair pairing _ _ _ _ => [(pairing.kind, pairing.form)]
  | list kind _ _ _ _ _ => [(kind, .items)]
  | enumeration _ _ _ _ _ => [(.enumeration, .enumeration)]
  | withType type rule => (rule.formsWith construct).map fun form => (form.1, .typed type)
  | withKind kind rule => (rule.formsWith construct).map fun form => (kind, form.2)
  | orElse first second => first.formsWith construct ++ second.formsWith construct
  | never => []
  | .construct named => construct named

def Construct.forms (construct : Construct) : List (Kind × Value.Form) :=
  construct.body.formsWith fun _ => []

/-- The forms that the tokens of a rule may have. -/
def Rule.forms (rule : Rule) : List (Kind × Value.Form) :=
  rule.formsWith Construct.forms

theorem Meaning.form_of_value? {meaning : Meaning} {text : Text} {value : Value}
    (known : meaning.value? text = some value) : value.form = meaning.form := by
  cases meaning with
  | name | term | jsonString =>
    obtain ⟨_, _, rfl⟩ := Option.map_eq_some_iff.mp known
    rfl
  | integer type range =>
    simp only [value?] at known
    split at known <;> cases known
    rfl
  | null | typed _ | srid | jsonNumber | jsonBoolean _ | jsonNull =>
    cases known
    rfl

namespace Rule

variable {levels : Nat} {rule : Rule} {start stop : Place} {token : Token}

theorem list_form {kind : Kind} {opening separator closing : Pattern} {item : Rule} {mayBeEmpty : Bool}
    (read : (list kind opening item separator closing mayBeEmpty).parse levels start = some (token, stop)) :
    token.form = (kind, .items) := by
  obtain ⟨_, _, _, _, rfl, _⟩ := Parser.list_iff.mp read
  rfl

/-- A token looks like one of the forms that its rule allows. -/
theorem form_mem_forms (read : rule.parse levels start = some (token, stop)) : token.form ∈ rule.forms := by
  induction rule generalizing token with
  | lexeme kind meaning pattern =>
    obtain ⟨_, value, _, known, rfl⟩ := Parser.lexeme_iff.mp read
    exact List.mem_singleton.mpr (congrArg (Prod.mk kind) (Meaning.form_of_value? known))
  | enclosed kind opening inner closing _ =>
    obtain ⟨_, _, _, _, _, _, _, _, rfl⟩ := Parser.enclosed_iff.mp read
    exact List.mem_singleton_self _
  | pair pairing opening first between second _ _ =>
    obtain ⟨_, _, _, _, _, _, _, _, _, _, _, rfl⟩ := Parser.pair_iff.mp read
    cases pairing <;> exact List.mem_singleton_self _
  | list kind opening item separator closing mayBeEmpty _ => exact List.mem_singleton.mpr (list_form read)
  | enumeration typeName opening member separator closing _ =>
    obtain ⟨_, _, _, _, _, _, _, _, _, _, rfl⟩ := Parser.enumeration_iff.mp read
    exact List.mem_singleton_self _
  | withType type rule ih =>
    obtain ⟨child, found, rfl⟩ := parse_withType_iff.mp read
    exact List.mem_map.mpr ⟨_, ih found, rfl⟩
  | withKind kind rule ih =>
    obtain ⟨child, found, rfl⟩ := parse_withKind_iff.mp read
    exact List.mem_map.mpr ⟨_, ih found, rfl⟩
  | orElse first second ihFirst ihSecond =>
    rcases Option.or_eq_some_iff.mp read with read | ⟨_, read⟩
    · exact List.mem_append_left _ (ihFirst read)
    · exact List.mem_append_right _ (ihSecond read)
  | never => cases read
  | construct named =>
    obtain ⟨kind, _, _, _, _, _, _, _, same, read⟩ := Construct.list_of_parse read
    have only : (Rule.construct named).forms = [(kind, .items)] := by
      simp only [forms, formsWith, Construct.forms, same]
    rw [only]
    exact List.mem_singleton.mpr (list_form read)

theorem form_of_find? {source : Bytes} {offset : Nat} (found : rule.find? levels source offset = some token) :
    token.form ∈ rule.forms := by
  obtain ⟨⟨_, stop⟩, read, rfl⟩ := Option.map_eq_some_iff.mp found
  exact form_mem_forms read

end Rule

theorem Value.form_eq_json {value : Value} (json : value.form = .json) :
    ∃ primitive, value = .json primitive := by
  cases value with
  | json primitive => exact ⟨primitive, rfl⟩
  | null | typed _ | position _ _ | nested _ | items _ | srid _ | fullGeo _ _ | enumeration _ _
    | identifier _ | keyValue _ _ => cases json

end ODataLiteral
