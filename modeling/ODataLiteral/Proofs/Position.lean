import ODataLiteral.Proofs.Rule.Shift

/-! Octets in front of a source are never looked at. With more of them, every rule and every pattern gives what it
gave without them, only further on, and past the end of the source this holds as well.
A rule reads the octets from an offset on and knows no more of the source than their place, so it is enough to move
that place. -/
namespace ODataLiteral

theorem Place.ofSource_append (before source : Bytes) (offset : Nat) :
    Place.ofSource (before ++ source) (before.length + offset) =
      (Place.ofSource source offset).shift before.length := by
  simp only [ofSource, Cursor.place, Cursor.ofSource, shift, List.drop_length_add_append,
    Nat.add_comm offset]

theorem Pattern.endAt_append (pattern : Pattern) (before source : Bytes) (offset : Nat) :
    pattern.endAt (before ++ source) (before.length + offset) =
      (pattern.endAt source offset).map (before.length + ·) := by
  unfold endAt
  rw [List.drop_length_add_append]
  cases pattern.scan (source.drop offset) with
  | none => rfl
  | some found => exact congrArg some (Nat.add_assoc _ _ _)

theorem Bytes.endOfPrefix?_append (expected before source : Bytes) (offset : Nat) :
    endOfPrefix? (before ++ source) expected (before.length + offset) =
      (source.endOfPrefix? expected offset).map (before.length + ·) := by
  simp only [endOfPrefix?, List.drop_length_add_append, List.length_append, Nat.add_le_add_iff_left]
  split
  · exact congrArg some (Nat.add_assoc _ _ _)
  · rfl

namespace Rule

variable {rule : Rule}

theorem find?_append (levels : Nat) (before source : Bytes) (offset : Nat) :
    rule.find? levels (before ++ source) (before.length + offset) =
      (rule.find? levels source offset).map (Token.shift before.length) := by
  unfold find?
  rw [Place.ofSource_append, parse_uniform levels rule, Option.map_map, Option.map_map]
  rfl

theorem tokenAt?_append (steady : rule.steady = true) (fits : rule.Fits) (before source : Bytes) (offset : Nat) :
    rule.tokenAt? (before ++ source) (before.length + offset) =
      (rule.tokenAt? source offset).map (Token.shift before.length) := by
  rw [tokenAt?_eq steady fits, tokenAt?_eq steady fits, find?_append]

end Rule

namespace Grammar

/-- What stands before a source moves what is found in it, and does nothing else. -/
theorem position_independent (before source : Bytes) (offset : Nat) :
    (∀ rule ∈ catalogue, rule.tokenAt? (before ++ source) (before.length + offset) =
      (rule.tokenAt? source offset).map (Token.shift before.length)) ∧
    (∀ pattern : Pattern, pattern.endAt (before ++ source) (before.length + offset) =
      (pattern.endAt source offset).map (before.length + ·)) ∧
    ∀ expected : Bytes, Bytes.endOfPrefix? (before ++ source) expected (before.length + offset) =
      (source.endOfPrefix? expected offset).map (before.length + ·) := by
  refine ⟨fun rule member => ?_, fun pattern => ?_, fun expected => ?_⟩
  · exact Rule.tokenAt?_append (catalogue_steady rule member) (catalogue_fits rule member) before source offset
  · exact pattern.endAt_append before source offset
  · exact Bytes.endOfPrefix?_append expected before source offset

/-- The data of the point `(1.0 NaN)` is found after the keyword too. -/
theorem position_independent_keyword :
    let before : Bytes := [0x50, 0x6F, 0x69, 0x6E, 0x74]
    let source : Bytes := [0x28, 0x31, 0x2E, 0x30, 0x20, 0x4E, 0x61, 0x4E, 0x29]
    pointData ∈ catalogue ∧ (pointData.tokenAt? source 0).isSome = true ∧
      pointData.tokenAt? (before ++ source) (before.length + 0) =
        (pointData.tokenAt? source 0).map (Token.shift before.length) := by
  intro before source
  have member : pointData ∈ catalogue := by simp [catalogue, geoCatalogue]
  have found : (pointData.tokenAt? source 0).isSome = true := by rfl
  exact ⟨member, found, (position_independent before source 0).1 pointData member⟩

end Grammar

end ODataLiteral
