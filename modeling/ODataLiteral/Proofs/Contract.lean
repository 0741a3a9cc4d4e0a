import ODataLiteral.Proofs.Rule.Reading

/-! The contract of every rule that a caller may ask for: whatever the source holds and wherever the rule is asked
for, no check of the reader fails, and a token starts where it was asked for, takes at least one octet, and
ends inside the source. -/
namespace ODataLiteral

theorem Rule.span_of_find? {levels : Nat} {rule : Rule} {source : Bytes} {offset : Nat} {token : Token}
    (steady : rule.steady = true) (found : rule.find? levels source offset = some token) :
    token.span.start = offset ∧ offset < token.span.stop ∧ token.span.stop ≤ source.length := by
  obtain ⟨⟨_, stop⟩, read, rfl⟩ := Option.map_eq_some_iff.mp found
  have span := Rule.parse_spans levels rule _ _ _ read
  obtain ⟨text, filled, on⟩ := Rule.parse_strict levels steady _ _ _ read
  have inside := (Rule.ofSource_at source offset).holds filled on |>.inside
  have long := Text.width_pos_of_ne_nil filled
  have further : stop.offset = offset + Text.width text := on.offset
  have within : offset + Text.width text ≤ source.length := inside
  rw [span]
  refine ⟨rfl, ?_, ?_⟩
  · show offset < stop.offset
    omega
  · show stop.offset ≤ source.length
    omega

namespace Grammar

/-- Every rule keeps the contract at every offset of every source, past the end included. -/
theorem attempt_contract {rule : Rule} (member : rule ∈ catalogue) (source : Bytes) (offset : Nat) :
    (∀ fault, (rule.attempt source offset 0).1 ≠ .fault fault) ∧
      ∀ token, (rule.attempt source offset 0).1 = .done token →
        token.span.start = offset ∧ offset < token.span.stop ∧ token.span.stop ≤ source.length := by
  have steady := catalogue_steady rule member
  rw [Rule.attempt_eq steady (catalogue_fits rule member)]
  cases found : rule.find? (maxDepth - 0) source offset with
  | none => exact ⟨nofun, nofun⟩
  | some token =>
    refine ⟨nofun, ?_⟩
    rintro _ ⟨⟩
    exact Rule.span_of_find? steady found

/-- An octet that is no valid UTF-8 ends an integer of one digit. -/
theorem attempt_contract_integer :
    int64 ∈ catalogue ∧
      (∀ fault, (int64.attempt [0x37, 0xFF] 0 0).1 ≠ .fault fault) ∧
      (int64.attempt [0x37, 0xFF] 0 0).1 =
        .done { kind := .literal, span := { start := 0, stop := 1 }, value := .typed .int64 } ∧
      0 < 1 ∧ 1 ≤ [0x37, 0xFF].length := by
  have member : int64 ∈ catalogue := by simp [catalogue, primitiveCatalogue]
  have contract := attempt_contract member [0x37, 0xFF] 0
  have found : (int64.attempt [0x37, 0xFF] 0 0).1 =
      .done { kind := .literal, span := { start := 0, stop := 1 }, value := .typed .int64 } := by rfl
  exact ⟨member, contract.1, found, (contract.2 _ found).2⟩

end Grammar

end ODataLiteral
