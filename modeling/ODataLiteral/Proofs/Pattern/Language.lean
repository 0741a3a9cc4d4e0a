import ODataLiteral.Proofs.Abnf
import ODataLiteral.Proofs.Rule.Lead

/-! The grammar of a pattern: every text that its parts could make up, whatever order and greed decide.
What a pattern takes is always such a text. It takes every such text when each of its choices is made by the next
character, and the character after the text is one that leaves no choice. -/
namespace ODataLiteral.Pattern

variable {text taken rest : Text}

/-- The texts of a pattern, without what it only looks ahead at. -/
def language : Pattern → Language UriChar
  | empty | notBefore _ => 1
  | char accepts => Abnf.character accepts
  | seq first second => first.language * second.language
  | alt first second => first.language + second.language
  | times least most body => Abnf.repeated least most body.language

theorem repeats_length_le {step : Text → Option (Text × Text)} {most : Option Nat}
    {pieces : List Text} (run : Repeats step most text pieces rest) {bound : Nat}
    (bounded : most = some bound) : pieces.length ≤ bound := by
  induction run generalizing bound with
  | stop _ => exact Nat.zero_le _
  | @more most text piece middle rest pieces room _ _ ih =>
    subst bounded
    have shorter : pieces.length ≤ bound - 1 := ih rfl
    have positive : bound ≠ 0 := fun zero => room (by rw [zero])
    rw [List.length_cons]
    omega

theorem mem_language_of_split {pattern : Pattern} (steady : pattern.steady = true)
    (read : pattern.split text = some (taken, rest)) : taken ∈ pattern.language := by
  induction pattern generalizing text taken rest with
  | empty =>
    cases read
    exact Language.nil_mem_one
  | char accepts =>
    obtain ⟨character, accepted, rfl, _⟩ := split_char_iff.mp read
    exact ⟨character, accepted, rfl⟩
  | seq first second ihFirst ihSecond =>
    simp only [Pattern.steady, Bool.and_eq_true] at steady
    obtain ⟨before, middle, after, one, two, rfl⟩ := split_seq_iff.mp read
    exact Language.append_mem_mul (ihFirst steady.1 one) (ihSecond steady.2 two)
  | alt first second ihFirst ihSecond =>
    simp only [Pattern.steady, Bool.and_eq_true] at steady
    rcases split_alt_iff.mp read with one | ⟨_, two⟩
    · exact (Language.mem_add _ _ _).mpr (.inl (ihFirst steady.1 one))
    · exact (Language.mem_add _ _ _).mpr (.inr (ihSecond steady.2 two))
  | times least most body ih =>
    simp only [Pattern.steady, Bool.and_eq_true, Bool.not_eq_true'] at steady
    obtain ⟨pieces, run, enough, rfl⟩ := (split_times_iff steady.1).mp read
    refine ⟨pieces, enough, fun _ => repeats_length_le run, fun piece member => ?_, rfl⟩
    obtain ⟨_, _, one⟩ := run.of_mem member
    exact ih steady.2 one
  | notBefore ahead =>
    obtain ⟨_, rfl, _⟩ := split_notBefore_iff.mp read
    exact Language.nil_mem_one

section Leads

theorem nullable_of_nil_mem {pattern : Pattern} (member : [] ∈ pattern.language) :
    pattern.nullable = true := by
  induction pattern with
  | empty | notBefore _ _ => rfl
  | char accepts =>
    obtain ⟨_, _, same⟩ := member
    cases same
  | seq first second ihFirst ihSecond =>
    obtain ⟨before, one, after, two, same⟩ := Language.mem_mul.mp member
    obtain ⟨rfl, rfl⟩ := List.append_eq_nil_iff.mp same
    rw [nullable, ihFirst one, ihSecond two]
    rfl
  | alt first second ihFirst ihSecond =>
    rw [nullable, Bool.or_eq_true]
    exact ((Language.mem_add _ _ _).mp member).imp ihFirst ihSecond
  | times least most body ih =>
    obtain ⟨parts, enough, _, every, same⟩ := member
    rw [nullable, Bool.or_eq_true, beq_iff_eq]
    cases parts with
    | nil => exact .inl (Nat.le_zero.mp enough)
    | cons one others =>
      obtain ⟨rfl, _⟩ := List.append_eq_nil_iff.mp same.symm
      exact .inr (ih (every _ List.mem_cons_self))

theorem ne_nil_of_mem {pattern : Pattern} (filled : pattern.nullable = false)
    (member : text ∈ pattern.language) : text ≠ [] := by
  rintro rfl
  rw [nullable_of_nil_mem member] at filled
  cases filled

theorem leads_of_mem {pattern : Pattern} {character : UriChar}
    (member : character :: text ∈ pattern.language) : pattern.leads character = true := by
  induction pattern generalizing text with
  | empty | notBefore _ _ => cases member
  | char accepts =>
    obtain ⟨_, accepted, same⟩ := member
    cases same
    exact accepted
  | seq first second ihFirst ihSecond =>
    obtain ⟨before, one, after, two, same⟩ := Language.mem_mul.mp member
    simp only [leads, Bool.or_eq_true, Bool.and_eq_true]
    cases before with
    | nil =>
      rw [List.nil_append] at same
      subst same
      exact .inr ⟨nullable_of_nil_mem one, ihSecond two⟩
    | cons head tail =>
      cases same
      exact .inl (ihFirst one)
  | alt first second ihFirst ihSecond =>
    rw [leads, Bool.or_eq_true]
    exact ((Language.mem_add _ _ _).mp member).imp ihFirst ihSecond
  | times least most body ih =>
    obtain ⟨parts, -, -, every, same⟩ := member
    induction parts with
    | nil => cases same
    | cons one others ihParts =>
      cases one with
      | nil => exact ihParts (fun part inside => every part (List.mem_cons_of_mem _ inside)) same
      | cons head tail =>
        cases same
        exact ih (every _ List.mem_cons_self)

end Leads

section Deterministic

/-- The next character, if there is one, is in a class. -/
def HeadIn (follow : UriChar → Bool) (tail : Text) : Prop :=
  ∀ character, tail.head? = some character → follow character = true

/-- A pattern whose choices are all made by the next character, when a character of a class or the end of the
text follows. -/
def Deterministic : Pattern → (UriChar → Bool) → Prop
  | empty, _ | char _, _ => True
  | seq first second, follow =>
    first.Deterministic (fun character =>
        second.leads character || second.nullable && follow character) ∧
      second.Deterministic follow
  | alt first second, follow =>
    (first.Deterministic follow ∧ second.Deterministic follow) ∧ first.nullable = false ∧
      UriChar.Apart second.leads first.leads ∧
      (second.nullable = true → UriChar.Apart follow first.leads)
  | times least most body, follow =>
    body.Deterministic (fun character => body.leads character || follow character) ∧
      body.nullable = false ∧ (most = some least ∨ UriChar.Apart follow body.leads)
  | notBefore ahead, follow => ahead.nullable = false ∧ UriChar.Apart follow ahead.leads

variable {pattern : Pattern} {follow : UriChar → Bool} {tail : Text}

theorem split_eq_none_of_head (steady : pattern.steady = true) (filled : pattern.nullable = false)
    (other : ∀ character, text.head? = some character → pattern.leads character = false) :
    pattern.split text = none := by
  cases read : pattern.split text with
  | none => rfl
  | some pair =>
    obtain ⟨taken, rest⟩ := pair
    obtain ⟨head, others, rfl⟩ := List.exists_cons_of_ne_nil (ne_nil_of_split filled read)
    have lead := leads_of_split steady read
    rw [other head (by rw [split_append read]; rfl)] at lead
    cases lead

/-- A row of so many characters is not there where other characters follow earlier. -/
theorem exactly_refuses {accepts : UriChar → Bool} {count : Nat} {front behind : Text} (few : front.length < count)
    (ends : HeadIn (fun character => !accepts character) behind) :
    (exactly count (char accepts)).split (front ++ behind) = none := by
  rw [Option.eq_none_iff_forall_ne_some]
  rintro ⟨taken, left⟩ read
  obtain ⟨whole, enough, row⟩ := split_row_iff.mp read
  rcases List.append_eq_append_iff.mp whole with ⟨more, rfl, rfl⟩ | ⟨more, rfl, _⟩
  · cases more with
    | nil => simp at enough; omega
    | cons character others =>
      have other : (!accepts character) = true := ends character rfl
      rw [row.class_of character (by simp)] at other
      cases other
  · rw [List.length_append] at few
    omega

theorem HeadIn.append {second : Pattern} (here : HeadIn follow tail) (member : text ∈ second.language) :
    HeadIn (fun character => second.leads character || second.nullable && follow character)
      (text ++ tail) := by
  intro character first
  rw [Bool.or_eq_true, Bool.and_eq_true]
  cases text with
  | nil => exact .inr ⟨nullable_of_nil_mem member, here character first⟩
  | cons head others =>
    cases first
    exact .inl (leads_of_mem member)

/-- Part after part is taken, until there are as many as there may be or another character follows. -/
theorem repeats_of_parts {body : Pattern} {most : Option Nat} {parts : List Text}
    (takes : ∀ one ∈ body.language, ∀ tail,
      HeadIn (fun character => body.leads character || follow character) tail →
        body.split (one ++ tail) = some (one, tail))
    (filled : body.nullable = false) (every : ∀ one ∈ parts, one ∈ body.language)
    (few : ∀ bound, most = some bound → parts.length ≤ bound)
    (stops : most = some parts.length ∨ body.split tail = none) (here : HeadIn follow tail) :
    Repeats body.split most (parts.flatten ++ tail) parts tail := by
  induction parts generalizing most with
  | nil => exact .stop stops
  | cons one others ih =>
    have first := every one List.mem_cons_self
    have rest := fun part inside => every part (List.mem_cons_of_mem _ inside)
    rw [List.flatten_cons, List.append_assoc]
    refine .more ?_ (takes one first _ ?_) (ih rest ?_ ?_)
    · rintro rfl
      exact absurd (few 0 rfl) (by simp)
    · intro character next
      rw [Bool.or_eq_true]
      cases others with
      | nil => exact .inr (here character next)
      | cons part _ =>
        obtain ⟨head, _, rfl⟩ :=
          List.exists_cons_of_ne_nil (ne_nil_of_mem filled (rest part List.mem_cons_self))
        cases next
        exact .inl (leads_of_mem (rest _ List.mem_cons_self))
    · rintro bound less
      obtain ⟨before, rfl, rfl⟩ := Option.map_eq_some_iff.mp less
      have short := few before rfl
      rw [List.length_cons] at short
      omega
    · refine stops.imp_left ?_
      rintro rfl
      simp

/-- A deterministic pattern takes every text of its grammar. -/
theorem split_of_mem (steady : pattern.steady = true) (sure : pattern.Deterministic follow)
    (member : text ∈ pattern.language) (here : HeadIn follow tail) :
    pattern.split (text ++ tail) = some (text, tail) := by
  induction pattern generalizing follow text tail with
  | empty =>
    obtain rfl := (Language.mem_one _).mp member
    rfl
  | char accepts =>
    obtain ⟨character, accepted, rfl⟩ := member
    exact split_char_iff.mpr ⟨character, accepted, rfl, rfl⟩
  | seq first second ihFirst ihSecond =>
    simp only [Pattern.steady, Bool.and_eq_true] at steady
    obtain ⟨before, one, after, two, rfl⟩ := Language.mem_mul.mp member
    have readFirst := ihFirst steady.1 sure.1 one (here.append two)
    rw [← List.append_assoc] at readFirst
    exact split_seq_iff.mpr ⟨before, after ++ tail, after, readFirst, ihSecond steady.2 sure.2 two here, rfl⟩
  | alt first second ihFirst ihSecond =>
    simp only [Pattern.steady, Bool.and_eq_true] at steady
    obtain ⟨⟨sureFirst, sureSecond⟩, filled, apart, apartToo⟩ := sure
    rcases (Language.mem_add _ _ _).mp member with one | two
    · exact split_alt_iff.mpr (.inl (ihFirst steady.1 sureFirst one here))
    · refine split_alt_iff.mpr (.inr ⟨?_, ihSecond steady.2 sureSecond two here⟩)
      refine split_eq_none_of_head steady.1 filled fun character first => ?_
      have next := here.append two character first
      rw [Bool.or_eq_true, Bool.and_eq_true] at next
      rcases next with lead | ⟨empty, next⟩
      · exact apart character lead
      · exact apartToo empty character next
  | times least most body ih =>
    simp only [Pattern.steady, Bool.and_eq_true, Bool.not_eq_true'] at steady
    obtain ⟨sureBody, filled, exact_⟩ := sure
    obtain ⟨parts, enough, few, every, rfl⟩ := member
    refine (split_times_iff filled).mpr ⟨parts, ?_, enough, rfl⟩
    refine repeats_of_parts (fun _ one _ => ih steady.2 sureBody one) filled every few ?_ here
    rcases exact_ with rfl | apart
    · exact .inl (by rw [Nat.le_antisymm enough (few least rfl)])
    · refine .inr (split_eq_none_of_head steady.2 filled fun character first => ?_)
      exact apart character (here character first)
  | notBefore ahead _ =>
    obtain rfl := (Language.mem_one _).mp member
    refine split_notBefore_iff.mpr ⟨?_, rfl, rfl⟩
    exact split_eq_none_of_head steady sure.1 fun character first =>
      sure.2 character (here character first)

end Deterministic

end ODataLiteral.Pattern
