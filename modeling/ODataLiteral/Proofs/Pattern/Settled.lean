import ODataLiteral.Proofs.Pattern.Firm

/-! Patterns that take the same when more text is put behind a text. Most of them decide by the next character, and some
need not even that. A pattern that looks further ahead is settled where a wall stands in the text that it leaves: a
character that none of its own tests accepts, which is like the end of the text to it. -/
namespace ODataLiteral

def Text.Filled (text : Text) : Prop :=
  text ≠ []

def Text.Meets (wall : UriChar → Bool) (text : Text) : Prop :=
  ∃ character ∈ text, wall character = true

namespace Pattern

/-- The pattern reads here, and what it leaves has a property. -/
def Before (pattern : Pattern) (ahead : Text → Prop) (text : Text) : Prop :=
  ∃ taken rest, pattern.split text = some (taken, rest) ∧ ahead rest

/-- A pattern that takes the same from every longer text where what it leaves has a property. -/
def Settled (pattern : Pattern) (ahead : Text → Prop) : Prop :=
  ∀ text taken rest, pattern.split text = some (taken, rest) → ahead rest →
    ∀ more, pattern.split (text ++ more) = some (taken, rest ++ more)

/-- No test in the pattern accepts a character of a class, not even one that only looks ahead. -/
def Refuses (wall : UriChar → Bool) : Pattern → Prop
  | empty => True
  | char accepts => UriChar.Apart wall accepts
  | seq first second | alt first second => first.Refuses wall ∧ second.Refuses wall
  | times _ _ body => body.Refuses wall
  | notBefore ahead => ahead.Refuses wall

/-- Whatever the pattern takes, a character of a class is part of it. -/
def Brings (wall : UriChar → Bool) : Pattern → Prop
  | char accepts => ∀ character, accepts character = true → wall character = true
  | seq first second => first.Brings wall ∨ second.Brings wall
  | empty | alt _ _ | times _ _ _ | notBefore _ => False

variable {pattern first second : Pattern} {ahead other : Text → Prop} {wall : UriChar → Bool}
  {text taken rest : Text}

section Wall

theorem repeatSplit_longer {step : Text → Option (Text × Text)} {gone : Text} (shrinks : Shrinks step)
    (blind : ∀ text, step (text ++ gone) = (step text).map fun (piece, rest) => (piece, rest ++ gone))
    (most : Option Nat) (text : Text) :
    repeatSplit step (text ++ gone) most (text ++ gone) =
      ((repeatSplit step text most text).1, (repeatSplit step text most text).2 ++ gone) := by
  have run := repeats_repeatSplit shrinks text most text (Nat.le_refl _)
  apply (repeatSplit_eq_iff shrinks (Nat.le_refl _)).mpr
  apply run.longer
  · intro text piece middle read
    rw [blind, read]
    rfl
  · apply run.halts.imp_right
    intro refused
    rw [blind, refused]
    rfl

/-- A wall is like the end of the text. -/
theorem split_wall (steady : pattern.steady = true) (refuses : pattern.Refuses wall) {character : UriChar}
    (stands : wall character = true) (text tail : Text) :
    pattern.split (text ++ character :: tail) =
      (pattern.split text).map fun (taken, rest) => (taken, rest ++ character :: tail) := by
  induction pattern generalizing text with
  | empty => rfl
  | char accepts =>
    cases text with
    | nil =>
      rw [List.nil_append, split_char_cons, refuses character stands]
      rfl
    | cons head others =>
      rw [List.cons_append, split_char_cons, split_char_cons]
      split <;> rfl
  | seq first second ihFirst ihSecond =>
    simp only [Pattern.steady, Bool.and_eq_true] at steady
    rw [split_seq, split_seq, ihFirst steady.1 refuses.1]
    cases first.split text with
    | none => rfl
    | some found =>
      simp only [Option.map_some, ihSecond steady.2 refuses.2, Option.map_map]
      rfl
  | alt first second ihFirst ihSecond =>
    simp only [Pattern.steady, Bool.and_eq_true] at steady
    rw [split_alt, split_alt, ihFirst steady.1 refuses.1, ihSecond steady.2 refuses.2, Option.map_or]
  | times least most body ih =>
    simp only [Pattern.steady, Bool.and_eq_true, Bool.not_eq_true'] at steady
    rw [split_times, split_times,
      repeatSplit_longer (shrinks_split steady.1) (ih steady.2 refuses) most text]
    split <;> rfl
  | notBefore ahead ih =>
    rw [split_notBefore, split_notBefore, ih steady refuses, Option.isSome_map]
    split <;> rfl

theorem settled_of_refuses (steady : pattern.steady = true) (refuses : pattern.Refuses wall)
    (meets : ∀ text, ahead text → text.Meets wall) : pattern.Settled ahead := by
  intro text taken rest read here more
  obtain ⟨character, member, stands⟩ := meets rest here
  -- The text before the wall is split in the same way, whatever stands behind the wall.
  obtain ⟨between, tail, rfl⟩ := List.append_of_mem member
  have whole := split_append read
  rw [← List.append_assoc] at whole
  subst whole
  rw [split_wall steady refuses stands] at read
  obtain ⟨⟨before, left⟩, short, same⟩ := Option.map_eq_some_iff.mp read
  obtain ⟨rfl, ends⟩ := Prod.mk.inj same
  obtain rfl := List.append_cancel_right ends
  rw [List.append_assoc, List.cons_append, split_wall steady refuses stands, short, Option.map_some,
    List.append_assoc, List.cons_append]

theorem meets_of_split (brings : pattern.Brings wall) (read : pattern.split text = some (taken, rest)) :
    taken.Meets wall := by
  induction pattern generalizing text taken rest with
  | char accepts =>
    obtain ⟨character, accepted, rfl, _⟩ := split_char_iff.mp read
    exact ⟨character, List.mem_singleton_self _, brings character accepted⟩
  | seq first second ihFirst ihSecond =>
    obtain ⟨before, middle, after, one, two, rfl⟩ := split_seq_iff.mp read
    rcases brings with brings | brings
    · obtain ⟨character, member, stands⟩ := ihFirst brings one
      exact ⟨character, List.mem_append_left after member, stands⟩
    · obtain ⟨character, member, stands⟩ := ihSecond brings two
      exact ⟨character, List.mem_append_right before member, stands⟩
  | empty | alt _ _ _ _ | times _ _ _ _ | notBefore _ _ => cases brings

theorem Before.meets (brings : pattern.Brings wall) (here : pattern.Before ahead text) : text.Meets wall := by
  obtain ⟨taken, rest, read, _⟩ := here
  obtain ⟨character, member, stands⟩ := meets_of_split brings read
  rw [split_append read]
  exact ⟨character, List.mem_append_left rest member, stands⟩

theorem Before.meets_rest (here : pattern.Before ahead text) (meets : ∀ text, ahead text → text.Meets wall) :
    text.Meets wall := by
  obtain ⟨taken, rest, read, behind⟩ := here
  obtain ⟨character, member, stands⟩ := meets rest behind
  rw [split_append read]
  exact ⟨character, List.mem_append_right taken member, stands⟩

end Wall

section Settled

theorem Settled.mono (settled : pattern.Settled other) (within : ∀ text, ahead text → other text) :
    pattern.Settled ahead :=
  fun text taken rest read here => settled text taken rest read (within rest here)

theorem settled_of_fixed (steady : pattern.steady = true) (fixed : pattern.fixed = true)
    (ahead : Text → Prop) : pattern.Settled ahead :=
  fun _ _ _ read _ _ => split_fixed steady fixed read

theorem settled_of_prompt (prompt : pattern.prompt = true) : pattern.Settled Text.Filled :=
  fun _ _ _ read filled _ => split_prompt prompt read filled

theorem settled_of_deterministic (steady : pattern.steady = true) (sure : pattern.Deterministic fun _ => true)
    (ahead : Text → Prop) : pattern.Settled ahead := by
  intro text taken rest read _ more
  have member := mem_language_of_split steady read
  rw [split_append read, List.append_assoc]
  exact split_of_mem steady sure member fun _ _ => rfl

theorem Settled.seq (settled : first.Settled (second.Before ahead)) (settledToo : second.Settled ahead) :
    (first ++ second).Settled ahead := by
  intro text taken rest read here more
  obtain ⟨before, middle, after, one, two, rfl⟩ := split_seq_iff.mp read
  have next : second.Before ahead middle := ⟨after, rest, two, here⟩
  exact split_seq_iff.mpr
    ⟨before, middle ++ more, after, settled _ _ _ one next more, settledToo _ _ _ two here more, rfl⟩

theorem Settled.alt (settled : first.Settled ahead) (settledToo : second.Settled ahead)
    (excludes : second.Excludes first) : (first <|> second).Settled ahead := by
  intro text taken rest read here more
  apply split_alt_iff.mpr
  rcases split_alt_iff.mp read with one | ⟨_, two⟩
  · exact .inl (settled _ _ _ one here more)
  · have again := settledToo _ _ _ two here more
    exact .inr ⟨excludes _ _ _ again, again⟩

end Settled

end Pattern

end ODataLiteral
