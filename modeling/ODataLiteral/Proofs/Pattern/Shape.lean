import ODataLiteral.Pattern.Terminals
import ODataLiteral.Proofs.Pattern.Split

/-! What the common patterns take: keywords, optional parts and rows of characters of one class.
A row is as long as it can be, so a character of its class follows only where its bound is met. -/
namespace ODataLiteral.Pattern

variable {text taken rest : Text}

theorem Repeats.of_mem {step : Text → Option (Text × Text)} {most : Option Nat} {pieces : List Text}
    (run : Repeats step most text pieces rest) {piece : Text} (member : piece ∈ pieces) :
    ∃ before after, step before = some (piece, after) := by
  induction run with
  | stop _ => exact absurd member List.not_mem_nil
  | more _ read _ ih =>
    rcases List.mem_cons.mp member with rfl | member
    · exact ⟨_, _, read⟩
    · exact ih member

/-- A pattern whose characters all have a property. What it only looks ahead at does not count. -/
def Spells (good : UriChar → Prop) : Pattern → Prop
  | empty | notBefore _ => True
  | char accepts => ∀ character, accepts character = true → good character
  | seq first second | alt first second => first.Spells good ∧ second.Spells good
  | times _ _ body => body.Spells good

theorem spells_of_split {good : UriChar → Prop} {pattern : Pattern} (steady : pattern.steady = true)
    (spells : pattern.Spells good) (read : pattern.split text = some (taken, rest)) :
    ∀ character ∈ taken, good character := by
  induction pattern generalizing text taken rest with
  | empty =>
    cases read
    exact fun _ member => absurd member List.not_mem_nil
  | char accepts =>
    obtain ⟨character, accepted, rfl, _⟩ := split_char_iff.mp read
    intro other member
    rw [List.mem_singleton.mp member]
    exact spells _ accepted
  | seq first second ihFirst ihSecond =>
    simp only [Pattern.steady, Bool.and_eq_true] at steady
    obtain ⟨before, middle, after, one, two, rfl⟩ := split_seq_iff.mp read
    intro character member
    rcases List.mem_append.mp member with member | member
    · exact ihFirst steady.1 spells.1 one character member
    · exact ihSecond steady.2 spells.2 two character member
  | alt first second ihFirst ihSecond =>
    simp only [Pattern.steady, Bool.and_eq_true] at steady
    rcases split_alt_iff.mp read with one | ⟨_, two⟩
    · exact ihFirst steady.1 spells.1 one
    · exact ihSecond steady.2 spells.2 two
  | times least most body ih =>
    simp only [Pattern.steady, Bool.and_eq_true, Bool.not_eq_true'] at steady
    obtain ⟨pieces, run, _, rfl⟩ := (split_times_iff steady.1).mp read
    have every (piece : Text) (member : piece ∈ pieces) : ∀ character ∈ piece, good character := by
      obtain ⟨_, _, one⟩ := run.of_mem member
      exact ih steady.2 spells one
    intro character member
    obtain ⟨piece, member, inside⟩ := List.mem_flatten.mp member
    exact every piece member character inside
  | notBefore ahead =>
    obtain ⟨_, rfl, _⟩ := split_notBefore_iff.mp read
    exact fun _ member => absurd member List.not_mem_nil

/-- Where all characters of a pattern are written in ASCII, so is what it takes. -/
theorem low_of_split {pattern : Pattern} (steady : pattern.steady = true)
    (low : pattern.Spells fun character => ∀ octet ∈ character.bytes, octet < 0x80)
    (read : pattern.split text = some (taken, rest)) : ∀ octet ∈ taken.bytes, octet < 0x80 := by
  intro octet inside
  obtain ⟨character, here, inside⟩ := List.mem_flatMap.mp inside
  exact spells_of_split steady low read character here octet inside

theorem split_text_iff {expected : Text} :
    (Pattern.text expected).split text = some (taken, rest) ↔
      taken = expected ∧ text = expected ++ rest := by
  induction expected generalizing text taken rest with
  | nil =>
    rw [Pattern.text, split_empty]
    simp [eq_comm]
  | cons character tail ih =>
    have single : (same character).split text = some (taken, rest) ↔
        taken = [character] ∧ text = character :: rest := by
      rw [same, split_char_iff]
      constructor
      · rintro ⟨other, equal, rfl, rfl⟩
        rw [beq_iff_eq] at equal
        exact ⟨by rw [equal], by rw [equal]⟩
      · rintro ⟨rfl, rfl⟩
        exact ⟨character, beq_self_eq_true _, rfl, rfl⟩
    cases tail with
    | nil => simpa [Pattern.text] using single
    | cons next others =>
      simp only [Pattern.text, append_eq_seq, split_seq_iff]
      constructor
      · rintro ⟨before, middle, after, one, two, rfl⟩
        rw [same, split_char_iff] at one
        obtain ⟨other, equal, rfl, rfl⟩ := one
        rw [beq_iff_eq] at equal
        obtain ⟨rfl, rfl⟩ := ih.mp two
        exact ⟨by rw [equal]; rfl, by rw [equal]; rfl⟩
      · rintro ⟨rfl, rfl⟩
        refine ⟨[character], next :: others ++ rest, next :: others, ?_, ih.mpr ⟨rfl, rfl⟩, rfl⟩
        rw [same, split_char_iff]
        exact ⟨character, beq_self_eq_true _, rfl, rfl⟩

theorem split_word_iff {keyword : String} :
    (word keyword).split text = some (taken, rest) ↔
      taken = Text.ofWord keyword ∧ text = Text.ofWord keyword ++ rest :=
  split_text_iff

theorem split_optional_iff {body : Pattern} (filled : body.nullable = false) :
    (optional body).split text = some (taken, rest) ↔
      body.split text = some (taken, rest) ∨ body.split text = none ∧ taken = [] ∧ text = rest := by
  rw [optional, split_times_iff filled]
  constructor
  · rintro ⟨pieces, run, _, rfl⟩
    cases run with
    | stop halt =>
      rcases halt with full | refused
      · cases full
      · exact .inr ⟨refused, rfl, rfl⟩
    | more _ read others =>
      cases others with
      | stop _ => exact .inl (by simpa using read)
      | more room _ _ => exact absurd rfl room
  · rintro (read | ⟨refused, rfl, rfl⟩)
    · exact ⟨[taken], .more nofun read (.stop (.inl rfl)), Nat.zero_le _, by simp⟩
    · exact ⟨[], .stop (.inr refused), Nat.zero_le _, rfl⟩

section Row

variable {accepts : UriChar → Bool}

/-- The characters that a row takes: all of a class, and no more of it follow below the bound. -/
structure Row (accepts : UriChar → Bool) (most : Option Nat) (taken rest : Text) : Prop where
  class_of : ∀ character ∈ taken, accepts character = true
  length_le : ∀ bound, most = some bound → taken.length ≤ bound
  stops : most = some taken.length ∨ ∀ character, rest.head? = some character →
    accepts character = false

theorem row_of_repeats {most : Option Nat} {pieces : List Text}
    (run : Repeats (char accepts).split most text pieces rest) :
    text = pieces.flatten ++ rest ∧ pieces.flatten.length = pieces.length ∧
      Row accepts most pieces.flatten rest := by
  induction run with
  | @stop most text halt =>
    refine ⟨rfl, rfl, fun _ member => absurd member List.not_mem_nil, fun _ _ => Nat.zero_le _, ?_⟩
    rcases halt with full | refused
    · exact .inl full
    · right
      rintro character first
      cases text with
      | nil => cases first
      | cons head tail =>
        cases first
        simpa using refused
  | @more most text piece middle rest pieces room read others ih =>
    obtain ⟨character, accepted, rfl, rfl⟩ := split_char_iff.mp read
    obtain ⟨rfl, count, row⟩ := ih
    refine ⟨rfl, by simp [count], ?_, ?_, ?_⟩
    · intro other member
      rcases List.mem_cons.mp member with rfl | member
      · exact accepted
      · exact row.class_of other member
    · rintro bound rfl
      have shorter := row.length_le (bound - 1) rfl
      have room : bound ≠ 0 := fun zero => room (by rw [zero])
      simp only [List.flatten_cons, List.length_append, List.length_singleton]
      omega
    · rcases row.stops with full | stops
      · left
        cases most with
        | none => cases full
        | some bound =>
          have full : bound - 1 = pieces.flatten.length := Option.some.inj full
          have room : bound ≠ 0 := fun zero => room (by rw [zero])
          simp only [List.flatten_cons, List.length_append, List.length_singleton]
          congr 1
          omega
      · exact .inr stops

theorem repeats_of_row {most : Option Nat} (row : Row accepts most taken rest) :
    Repeats (char accepts).split most (taken ++ rest) (taken.map fun character => [character]) rest := by
  induction taken generalizing most with
  | nil =>
    apply Repeats.stop
    rcases row.stops with full | stops
    · exact .inl full
    · right
      cases rest with
      | nil => rfl
      | cons head tail => simp [stops head rfl]
  | cons character tail ih =>
    have accepted := row.class_of character List.mem_cons_self
    refine .more ?_ (split_char_iff.mpr ⟨character, accepted, rfl, rfl⟩) (ih ⟨?_, ?_, ?_⟩)
    · rintro rfl
      exact absurd (row.length_le 0 rfl) (by simp)
    · exact fun other member => row.class_of other (List.mem_cons_of_mem _ member)
    · intro bound same
      cases most with
      | none => cases same
      | some most =>
        have shorter := row.length_le most rfl
        have same : most - 1 = bound := Option.some.inj same
        rw [List.length_cons] at shorter
        omega
    · rcases row.stops with rfl | stops
      · exact .inl rfl
      · exact .inr stops

theorem split_row_iff {least : Nat} {most : Option Nat} :
    (times least most (char accepts)).split text = some (taken, rest) ↔
      text = taken ++ rest ∧ least ≤ taken.length ∧ Row accepts most taken rest := by
  rw [split_times_iff rfl]
  constructor
  · rintro ⟨pieces, run, enough, rfl⟩
    obtain ⟨whole, count, row⟩ := row_of_repeats run
    exact ⟨whole, by rwa [count], row⟩
  · rintro ⟨rfl, enough, row⟩
    refine ⟨_, repeats_of_row row, by rwa [List.length_map], ?_⟩
    simp [List.flatten_eq_flatMap, List.flatMap_map]

end Row

end ODataLiteral.Pattern
