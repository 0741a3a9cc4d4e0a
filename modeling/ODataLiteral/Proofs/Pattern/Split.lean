import ODataLiteral.Pattern.Lemmas
import ODataLiteral.Proofs.Characters

/-! How a pattern splits a text into the part that it takes and the rest.
This is the reader of patterns said about characters instead of octets. Both agree on every pattern whose
repetitions go forward, and a repetition then stops where its body stops or its bound is met. -/
namespace ODataLiteral.Pattern

/-- The pieces that a step takes one after another, at most `most` of them, and what is left. -/
def repeatSplit (step : Text → Option (Text × Text)) :
    (budget : Text) → (most : Option Nat) → Text → List Text × Text
  | [], _, text => ([], text)
  | _ :: budget, most, text =>
    if most = some 0 then ([], text)
    else match step text with
      | some (piece, rest) =>
        let (pieces, last) := repeatSplit step budget (most.map (· - 1)) rest
        (piece :: pieces, last)
      | none => ([], text)

def split : Pattern → Text → Option (Text × Text)
  | empty, text => some ([], text)
  | char accepts, text =>
    match text with
    | [] => none
    | character :: rest => if accepts character then some ([character], rest) else none
  | seq first second, text =>
    match first.split text with
    | some (before, middle) => (second.split middle).map fun (after, rest) => (before ++ after, rest)
    | none => none
  | alt first second, text => (first.split text).or (second.split text)
  | times least most body, text =>
    let (pieces, rest) := repeatSplit body.split text most text
    if least ≤ pieces.length then some (pieces.flatten, rest) else none
  | notBefore ahead, text => if (ahead.split text).isSome then none else some ([], text)

/-- Patterns that may take nothing. -/
def nullable : Pattern → Bool
  | empty | notBefore _ => true
  | char _ => false
  | seq first second => first.nullable && second.nullable
  | alt first second => first.nullable || second.nullable
  | times least _ body => least == 0 || body.nullable

/-- Patterns whose repetitions go forward with every piece. -/
def steady : Pattern → Bool
  | empty | char _ => true
  | seq first second | alt first second => first.steady && second.steady
  | times _ _ body => !body.nullable && body.steady
  | notBefore ahead => ahead.steady

/-- A run of a step: it takes piece after piece until it is refused or has no room for one more. -/
inductive Repeats (step : Text → Option (Text × Text)) : Option Nat → Text → List Text → Text → Prop
  | stop {most : Option Nat} {text : Text} (halt : most = some 0 ∨ step text = none) :
      Repeats step most text [] text
  | more {most : Option Nat} {text piece middle rest : Text} {pieces : List Text}
      (room : most ≠ some 0) (read : step text = some (piece, middle))
      (others : Repeats step (most.map (· - 1)) middle pieces rest) :
      Repeats step most text (piece :: pieces) rest

section Split

variable {first second body ahead : Pattern} {text taken rest : Text}

@[simp] theorem split_empty : empty.split text = some ([], text) := rfl

@[simp] theorem split_char_nil {accepts : UriChar → Bool} : (char accepts).split [] = none := rfl

@[simp] theorem split_char_cons {accepts : UriChar → Bool} {character : UriChar} :
    (char accepts).split (character :: rest) =
      if accepts character then some ([character], rest) else none := rfl

theorem split_seq : (seq first second).split text =
    match first.split text with
    | some (before, middle) => (second.split middle).map fun (after, rest) => (before ++ after, rest)
    | none => none := rfl

theorem split_alt :
    (alt first second).split text = (first.split text).or (second.split text) := rfl

theorem split_times {least : Nat} {most : Option Nat} : (times least most body).split text =
    if least ≤ (repeatSplit body.split text most text).1.length then
      some ((repeatSplit body.split text most text).1.flatten, (repeatSplit body.split text most text).2)
    else none := rfl

theorem split_notBefore :
    (notBefore ahead).split text = if (ahead.split text).isSome then none else some ([], text) := rfl

theorem repeatSplit_cons {step : Text → Option (Text × Text)} {character : UriChar} {budget : Text}
    {most : Option Nat} : repeatSplit step (character :: budget) most text =
      if most = some 0 then ([], text)
      else match step text with
        | some (piece, rest) =>
          (piece :: (repeatSplit step budget (most.map (· - 1)) rest).1,
            (repeatSplit step budget (most.map (· - 1)) rest).2)
        | none => ([], text) := rfl

theorem split_char_iff {accepts : UriChar → Bool} :
    (char accepts).split text = some (taken, rest) ↔
      ∃ character, accepts character = true ∧ taken = [character] ∧ text = character :: rest := by
  cases text with
  | nil => simp
  | cons character tail =>
    rw [split_char_cons]
    constructor
    · intro read
      split at read
      · rename_i accepted
        cases read
        exact ⟨character, accepted, rfl, rfl⟩
      · cases read
    · rintro ⟨other, accepted, rfl, same⟩
      cases same
      rw [if_pos accepted]

theorem split_seq_iff :
    (seq first second).split text = some (taken, rest) ↔
      ∃ before middle after, first.split text = some (before, middle) ∧
        second.split middle = some (after, rest) ∧ taken = before ++ after := by
  rw [split_seq]
  cases one : first.split text with
  | none => simp
  | some found =>
    obtain ⟨before, middle⟩ := found
    constructor
    · intro read
      obtain ⟨⟨after, last⟩, two, same⟩ := Option.map_eq_some_iff.mp read
      cases same
      exact ⟨before, middle, after, rfl, two, rfl⟩
    · rintro ⟨before', middle', after, same, two, rfl⟩
      cases same
      simp only [two, Option.map_some]

theorem split_seq_of_refused (refused : first.split text = none) : (seq first second).split text = none := by
  rw [split_seq, refused]

theorem split_seq_of_refused_after {middle : Text} (read : first.split text = some (taken, middle))
    (refused : second.split middle = none) : (seq first second).split text = none := by
  rw [split_seq, read]
  exact congrArg (Option.map _) refused

theorem split_alt_iff :
    (alt first second).split text = some (taken, rest) ↔
      first.split text = some (taken, rest) ∨
        first.split text = none ∧ second.split text = some (taken, rest) := by
  rw [split_alt]
  cases first.split text <;> simp

theorem isSome_split_alt :
    ((alt first second).split text).isSome =
      ((first.split text).isSome || (second.split text).isSome) := by
  rw [split_alt, Option.isSome_or]

theorem split_notBefore_iff :
    (notBefore ahead).split text = some (taken, rest) ↔
      ahead.split text = none ∧ taken = [] ∧ text = rest := by
  rw [split_notBefore]
  cases ahead.split text with
  | none => simp [eq_comm]
  | some found => simp

theorem split_append {pattern : Pattern} (read : pattern.split text = some (taken, rest)) :
    text = taken ++ rest := by
  induction pattern generalizing text taken rest with
  | empty => cases read; rfl
  | char accepts =>
    obtain ⟨character, _, rfl, rfl⟩ := split_char_iff.mp read
    rfl
  | seq first second ihFirst ihSecond =>
    obtain ⟨before, middle, after, one, two, rfl⟩ := split_seq_iff.mp read
    rw [List.append_assoc, ← ihSecond two, ihFirst one]
  | alt first second ihFirst ihSecond =>
    rcases split_alt_iff.mp read with one | ⟨_, two⟩
    · exact ihFirst one
    · exact ihSecond two
  | times least most body ih =>
    have whole (budget : Text) (most : Option Nat) (text : Text) :
        text = (repeatSplit body.split budget most text).1.flatten ++
          (repeatSplit body.split budget most text).2 := by
      induction budget generalizing most text with
      | nil => rfl
      | cons _ budget ihBudget =>
        simp only [repeatSplit_cons]
        split
        · rfl
        · split
          · rename_i piece middle one
            rw [List.flatten_cons, List.append_assoc, ← ihBudget, ← ih one]
          · rfl
    rw [split_times] at read
    split at read
    · cases read
      exact whole text most text
    · cases read
  | notBefore ahead =>
    obtain ⟨_, rfl, rfl⟩ := split_notBefore_iff.mp read
    rfl

end Split

section Repetition

variable {step : Text → Option (Text × Text)}

/-- A step that goes forward leaves fewer characters than it finds. -/
def Shrinks (step : Text → Option (Text × Text)) : Prop :=
  ∀ text piece rest, step text = some (piece, rest) → rest.length < text.length

theorem Repeats.unique {most : Option Nat} {text rest rest' : Text} {pieces pieces' : List Text}
    (first : Repeats step most text pieces rest) (second : Repeats step most text pieces' rest') :
    pieces = pieces' ∧ rest = rest' := by
  induction first generalizing pieces' rest' with
  | stop halt =>
    cases second with
    | stop _ => exact ⟨rfl, rfl⟩
    | more room read _ =>
      rcases halt with full | refused
      · exact absurd full room
      · rw [refused] at read
        cases read
  | more room read _ ih =>
    cases second with
    | stop halt =>
      rcases halt with full | refused
      · exact absurd full room
      · rw [refused] at read
        cases read
    | more _ read' others =>
      rw [read] at read'
      cases read'
      obtain ⟨rfl, rfl⟩ := ih others
      exact ⟨rfl, rfl⟩

/-- The budget only has to be as long as the text. -/
theorem repeats_repeatSplit (shrinks : Shrinks step) (budget : Text) (most : Option Nat)
    (text : Text) (enough : text.length ≤ budget.length) :
    Repeats step most text (repeatSplit step budget most text).1
      (repeatSplit step budget most text).2 := by
  induction budget generalizing most text with
  | nil =>
    have empty : text = [] := List.eq_nil_of_length_eq_zero (Nat.le_zero.mp enough)
    subst empty
    apply Repeats.stop
    right
    cases read : step [] with
    | none => rfl
    | some found => exact absurd (shrinks _ _ _ read) (Nat.not_lt_zero _)
  | cons _ budget ih =>
    simp only [repeatSplit_cons]
    split
    · exact .stop (.inl ‹_›)
    · split
      · rename_i room _ piece rest read
        have shorter := shrinks _ _ _ read
        simp only [List.length_cons] at enough
        exact .more room read (ih _ _ (by omega))
      · exact .stop (.inr ‹_›)

theorem repeatSplit_eq_iff (shrinks : Shrinks step) {budget text rest : Text} {most : Option Nat}
    {pieces : List Text} (enough : text.length ≤ budget.length) :
    repeatSplit step budget most text = (pieces, rest) ↔ Repeats step most text pieces rest := by
  have run := repeats_repeatSplit shrinks budget most text enough
  constructor
  · intro same
    rwa [same] at run
  · intro other
    obtain ⟨samePieces, sameRest⟩ := run.unique other
    exact Prod.ext samePieces sameRest

end Repetition

theorem ne_nil_of_split {pattern : Pattern} {text taken rest : Text}
    (filled : pattern.nullable = false) (read : pattern.split text = some (taken, rest)) :
    taken ≠ [] := by
  induction pattern generalizing text taken rest with
  | empty => cases filled
  | char accepts =>
    obtain ⟨character, _, rfl, rfl⟩ := split_char_iff.mp read
    exact List.cons_ne_nil _ _
  | seq first second ihFirst ihSecond =>
    obtain ⟨before, middle, after, one, two, rfl⟩ := split_seq_iff.mp read
    simp only [nullable, Bool.and_eq_false_iff] at filled
    rcases filled with filled | filled
    · exact List.append_ne_nil_of_left_ne_nil (ihFirst filled one) _
    · exact List.append_ne_nil_of_right_ne_nil _ (ihSecond filled two)
  | alt first second ihFirst ihSecond =>
    simp only [nullable, Bool.or_eq_false_iff] at filled
    rcases split_alt_iff.mp read with one | ⟨_, two⟩
    · exact ihFirst filled.1 one
    · exact ihSecond filled.2 two
  | times least most body ih =>
    simp only [nullable, Bool.or_eq_false_iff, beq_eq_false_iff_ne] at filled
    have shrinks : Shrinks body.split := by
      intro text piece rest one
      have whole := congrArg List.length (split_append one)
      have piece := List.length_pos_iff.mpr (ih filled.2 one)
      rw [List.length_append] at whole
      omega
    rw [split_times] at read
    split at read
    · rename_i enough
      cases read
      have run := repeats_repeatSplit shrinks text most text (Nat.le_refl _)
      revert enough run
      generalize repeatSplit body.split text most text = outcome
      obtain ⟨pieces, last⟩ := outcome
      intro enough run
      cases run with
      | stop _ => exact absurd (Nat.le_zero.mp enough) filled.1
      | more _ one _ => exact List.append_ne_nil_of_left_ne_nil (ih filled.2 one) _
    · cases read
  | notBefore ahead => cases filled

theorem shrinks_split {pattern : Pattern} (filled : pattern.nullable = false) :
    Shrinks pattern.split := by
  intro text piece rest read
  have whole := congrArg List.length (split_append read)
  have piece := List.length_pos_iff.mpr (ne_nil_of_split filled read)
  rw [List.length_append] at whole
  omega

theorem split_times_iff {least : Nat} {most : Option Nat} {body : Pattern} {text taken rest : Text}
    (filled : body.nullable = false) :
    (times least most body).split text = some (taken, rest) ↔
      ∃ pieces, Repeats body.split most text pieces rest ∧ least ≤ pieces.length ∧
        taken = pieces.flatten := by
  rw [split_times]
  constructor
  · intro read
    split at read
    · rename_i enough
      cases read
      exact ⟨_, repeats_repeatSplit (shrinks_split filled) text most text (Nat.le_refl _), enough, rfl⟩
    · cases read
  · rintro ⟨pieces, run, enough, rfl⟩
    rw [(repeatSplit_eq_iff (shrinks_split filled) (Nat.le_refl _)).mpr run]
    simp only [if_pos enough]

section Octets

/-- A split of a buffer's text, given what is left of the buffer. -/
def inText (found : Text × Bytes) : Text × Text :=
  (found.1, Text.ofBytes found.2)

/-- On octets and on characters, a repetition takes the same pieces. -/
theorem repeats_repeatStep {body : Pattern} (filled : body.nullable = false)
    (agree : ∀ source, body.split (Text.ofBytes source) = (body.scan source).map inText)
    (budget : Bytes) (most : Option Nat) (taken : List Text) (source : Bytes)
    (enough : source.length ≤ budget.length) :
    ∃ pieces, (repeatStep body.scan budget most taken source).1 = taken.reverse ++ pieces ∧
      Repeats body.split most (Text.ofBytes source) pieces
        (Text.ofBytes (repeatStep body.scan budget most taken source).2) := by
  induction budget generalizing most taken source with
  | nil =>
    have empty : source = [] := List.eq_nil_of_length_eq_zero (Nat.le_zero.mp enough)
    subst empty
    refine ⟨[], by simp [repeatStep], .stop (.inr ?_)⟩
    cases read : body.split [] with
    | none => exact read
    | some found => exact absurd (shrinks_split filled _ _ _ read) (Nat.not_lt_zero _)
  | cons _ budget ih =>
    simp only [repeatStep]
    split
    · rename_i full
      exact ⟨[], by simp, .stop (.inl full)⟩
    · rename_i room
      have here := agree source
      split
      · rename_i piece rest read
        rw [read] at here
        have wide := length_of_scan read
        have long : 0 < piece.width := Text.width_pos_of_ne_nil (ne_nil_of_split filled here)
        simp only [List.length_cons] at enough
        obtain ⟨pieces, same, run⟩ := ih (most.map (· - 1)) (piece :: taken) rest (by omega)
        exact ⟨piece :: pieces, by simp [same], .more room here run⟩
      · rename_i refused
        rw [refused] at here
        exact ⟨[], by simp, .stop (.inr here)⟩

/-- Reading octets and splitting the characters that they spell come to the same. -/
theorem split_ofBytes {pattern : Pattern} (steady : pattern.steady = true) (source : Bytes) :
    pattern.split (Text.ofBytes source) = (pattern.scan source).map inText := by
  induction pattern generalizing source with
  | empty => rfl
  | char accepts =>
    simp only [scan]
    cases read : UriChar.next? source with
    | none =>
      rw [UriChar.next?_eq_none] at read
      subst read
      rfl
    | some found =>
      rw [Text.ofBytes_of_next? read, split_char_cons]
      dsimp only
      split <;> rfl
  | seq first second ihFirst ihSecond =>
    simp only [Pattern.steady, Bool.and_eq_true] at steady
    simp only [scan]
    rw [split_seq, ihFirst steady.1]
    cases one : first.scan source with
    | none => rfl
    | some found =>
      obtain ⟨before, middle⟩ := found
      simp only [Option.map_some, inText]
      rw [ihSecond steady.2]
      cases second.scan middle <;> rfl
  | alt first second ihFirst ihSecond =>
    simp only [Pattern.steady, Bool.and_eq_true] at steady
    simp only [scan]
    rw [split_alt, ihFirst steady.1, ihSecond steady.2]
    cases first.scan source <;> rfl
  | times least most body ih =>
    simp only [Pattern.steady, Bool.and_eq_true, Bool.not_eq_true'] at steady
    obtain ⟨pieces, same, run⟩ := repeats_repeatStep steady.1 (ih steady.2) source most [] source
      (Nat.le_refl _)
    simp only [scan]
    rw [split_times, (repeatSplit_eq_iff (shrinks_split steady.1) (Nat.le_refl _)).mpr run]
    rw [List.reverse_nil, List.nil_append] at same
    dsimp only
    rw [same]
    split <;> rfl
  | notBefore ahead ih =>
    simp only [scan]
    rw [split_notBefore, ih steady]
    cases ahead.scan source <;> rfl

end Octets

end ODataLiteral.Pattern
