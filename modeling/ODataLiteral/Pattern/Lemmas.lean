import ODataLiteral.Pattern

/-! Reading a pattern loses nothing: the text taken and the octets left make up the buffer.
The same holds of every piece of a repetition. -/
namespace ODataLiteral.Pattern

/-- What a step takes from the front of a buffer and what it leaves make up the buffer. -/
def Lossless (step : Bytes → Option (Text × Bytes)) : Prop :=
  ∀ source taken rest, step source = some (taken, rest) → taken.bytes ++ rest = source

theorem repeatStep_lossless {step : Bytes → Option (Text × Bytes)} (lossless : Lossless step)
    (budget : Bytes) (most : Option Nat) (pieces : List Text) (source : Bytes) :
    Text.bytes (repeatStep step budget most pieces source).1.flatten ++
      (repeatStep step budget most pieces source).2 =
        Text.bytes pieces.reverse.flatten ++ source := by
  induction budget generalizing most pieces source with
  | nil => rfl
  | cons _ budget ih =>
    unfold repeatStep
    split
    · rfl
    · split
      · rename_i piece rest taken
        rw [ih, ← lossless _ _ _ taken]
        simp [Text.bytes_append, List.append_assoc]
      · rfl

theorem scan_lossless (pattern : Pattern) : Lossless pattern.scan := by
  induction pattern with
  | empty =>
    intro source taken rest read
    cases read
    rfl
  | char accepts =>
    intro source taken rest read
    simp only [scan] at read
    split at read
    · rename_i character after next
      split at read
      · cases read
        simpa [Text.bytes] using UriChar.bytes_of_next? next
      · cases read
    · cases read
  | seq first second ihFirst ihSecond =>
    intro source taken rest read
    simp only [scan] at read
    split at read
    · rename_i before middle one
      split at read
      · rename_i after remaining two
        cases read
        rw [Text.bytes_append, List.append_assoc, ihSecond _ _ _ two, ihFirst _ _ _ one]
      · cases read
    · cases read
  | alt first second ihFirst ihSecond =>
    intro source taken rest read
    simp only [scan] at read
    split at read
    · rename_i outcome one
      cases read
      exact ihFirst _ _ _ one
    · exact ihSecond _ _ _ read
  | times least most body ih =>
    intro source taken rest read
    simp only [scan] at read
    have whole := repeatStep_lossless ih source most [] source
    split at read
    · cases read
      simpa [Text.bytes] using whole
    · cases read
  | notBefore ahead =>
    intro source taken rest read
    simp only [scan] at read
    split at read <;> cases read
    rfl

/-- The place after a pattern is as far on as the text that it took is wide. -/
theorem length_of_scan {pattern : Pattern} {source rest : Bytes} {taken : Text}
    (read : pattern.scan source = some (taken, rest)) :
    taken.width + rest.length = source.length := by
  rw [← scan_lossless pattern source taken rest read, List.length_append, Text.length_bytes]

end ODataLiteral.Pattern
