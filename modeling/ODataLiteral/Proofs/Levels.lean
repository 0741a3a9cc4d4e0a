import ODataLiteral.Token
import ODataLiteral.Uri.Char

/-! How deeply tokens of a sort stand inside one another. The levels of a token are its own and the most that one of its
children has, which is the same as the most on any path down to a leaf. -/
namespace ODataLiteral

mutual

/-- The greatest number of tokens of a sort on a path from a token down to a leaf. -/
def Token.levels (opens : Token → Bool) : Token → Nat
  | ⟨kind, span, value⟩ => (if opens ⟨kind, span, value⟩ then 1 else 0) + value.levels opens

def Value.levels (opens : Token → Bool) : Value → Nat
  | .position longitude latitude => max (longitude.levels opens) (latitude.levels opens)
  | .nested inner => inner.levels opens
  | .items tokens => Token.mostLevels opens tokens
  | .fullGeo reference literal => max (reference.levels opens) (literal.levels opens)
  | .enumeration _ members => Token.mostLevels opens members
  | .keyValue key value => max (key.levels opens) (value.levels opens)
  | .null | .typed _ | .srid _ | .identifier _ | .json _ => 0

def Token.mostLevels (opens : Token → Bool) : List Token → Nat
  | [] => 0
  | token :: rest => max (token.levels opens) (Token.mostLevels opens rest)

end

namespace Token

/-- A path from a token down to a leaf. -/
inductive Path : Token → List Token → Prop
  | leaf {token : Token} (none : token.children = []) : Path token [token]
  | inner {token child : Token} {path : List Token} (member : child ∈ token.children)
      (below : Path child path) : Path token (token :: path)

/-- How many objects stand inside one another. -/
def objectLevels (token : Token) : Nat :=
  token.levels fun inner => inner.kind == .object

/-- How many collections stand inside one another. A collection is a token whose text starts with its keyword. -/
def collectionLevels (source : Bytes) (token : Token) : Nat :=
  token.levels fun inner =>
    (source.endOfPrefix? (Text.ofWord Shape.collection.name).bytes inner.span.start).isSome

end Token

variable {opens : Token → Bool}

theorem Value.levels_eq (value : Value) :
    value.levels opens = Token.mostLevels opens value.children := by
  cases value <;> simp [Value.levels, Value.children, Token.mostLevels]

namespace Token

theorem levels_eq (token : Token) :
    token.levels opens = (if opens token then 1 else 0) + mostLevels opens token.children := by
  cases token with
  | mk kind span value => rw [levels, Value.levels_eq]; rfl

theorem levels_le_mostLevels {tokens : List Token} {token : Token} (member : token ∈ tokens) :
    token.levels opens ≤ mostLevels opens tokens := by
  induction tokens with
  | nil => cases member
  | cons head rest ih =>
    rw [mostLevels]
    rcases List.mem_cons.mp member with rfl | member
    · exact Nat.le_max_left _ _
    · exact Nat.le_trans (ih member) (Nat.le_max_right _ _)

theorem exists_levels_eq_mostLevels {tokens : List Token} (filled : tokens ≠ []) :
    ∃ token ∈ tokens, token.levels opens = mostLevels opens tokens := by
  induction tokens with
  | nil => exact absurd rfl filled
  | cons head rest ih =>
    rw [mostLevels]
    cases rest with
    | nil => exact ⟨head, List.mem_cons_self, by simp [mostLevels]⟩
    | cons next others =>
      obtain ⟨token, member, most⟩ := ih (List.cons_ne_nil _ _)
      rcases Nat.le_total (head.levels opens) (mostLevels opens (next :: others)) with less | more
      · exact ⟨token, List.mem_cons_of_mem _ member, by rw [most, Nat.max_eq_right less]⟩
      · exact ⟨head, List.mem_cons_self, by rw [Nat.max_eq_left more]⟩

theorem sizeOf_child_lt {token child : Token} (member : child ∈ token.children) :
    sizeOf child < sizeOf token := by
  cases token with
  | mk kind span value =>
    have inside : sizeOf child < sizeOf value := by
      cases value with
      | items tokens | enumeration _ tokens =>
        have smaller : sizeOf child < sizeOf tokens := List.sizeOf_lt_of_mem member
        simp only [Value.items.sizeOf_spec, Value.enumeration.sizeOf_spec]
        omega
      | position first second | fullGeo first second | keyValue first second =>
        simp only [children, Value.children, List.mem_cons, List.not_mem_nil, or_false] at member
        rcases member with rfl | rfl <;>
          simp only [Value.position.sizeOf_spec, Value.fullGeo.sizeOf_spec,
            Value.keyValue.sizeOf_spec] <;> omega
      | nested inner =>
        simp only [children, Value.children, List.mem_cons, List.not_mem_nil, or_false] at member
        rw [member, Value.nested.sizeOf_spec]
        omega
      | null | typed _ | srid _ | identifier _ | json _ => cases member
    rw [Token.mk.sizeOf_spec]
    omega

theorem countP_le_levels {token : Token} {path : List Token} (down : Path token path) :
    path.countP opens ≤ token.levels opens := by
  induction down with
  | @leaf token none =>
    rw [levels_eq, none, List.countP_singleton]
    exact Nat.le_add_right _ _
  | @inner token child path member _ ih =>
    rw [levels_eq, List.countP_cons, Nat.add_comm]
    exact Nat.add_le_add_left (Nat.le_trans ih (levels_le_mostLevels member)) _

theorem exists_path (token : Token) :
    ∃ path, Path token path ∧ path.countP opens = token.levels opens := by
  rw [levels_eq]
  by_cases none : token.children = []
  · refine ⟨[token], .leaf none, ?_⟩
    rw [none, List.countP_singleton, mostLevels, Nat.add_zero]
  · obtain ⟨child, member, most⟩ := exists_levels_eq_mostLevels none
    obtain ⟨path, below, count⟩ := exists_path child
    refine ⟨token :: path, .inner member below, ?_⟩
    rw [List.countP_cons, count, most, Nat.add_comm]
termination_by sizeOf token
decreasing_by exact sizeOf_child_lt member

end Token

end ODataLiteral
