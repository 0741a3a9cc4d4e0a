import ODataLiteral.Proofs.Literal.Exclusion
import ODataLiteral.Proofs.Rule.Completeness

/-! Patterns that take as much as their grammar allows: where a text begins with one of the grammar, the pattern reads
and takes no less than that. A pattern does so when the next character makes each of its choices and nothing that it
only looks ahead at can refuse, and also when its alternatives exclude each other. -/
namespace ODataLiteral.Pattern

variable {pattern first second body : Pattern} {follow : UriChar → Bool} {text taken rest : Text}

/-- Where a text begins with one of the grammar, the pattern reads and takes no less. -/
def Maximal (pattern : Pattern) : Prop :=
  ∀ text front, front ∈ pattern.language → front <+: text →
    ∃ taken rest, pattern.split text = some (taken, rest) ∧ front.length ≤ taken.length

/-- Patterns that look at nothing behind what they take. -/
def unguarded : Pattern → Bool
  | empty | char _ => true
  | seq first second | alt first second => first.unguarded && second.unguarded
  | times _ _ body => body.unguarded
  | notBefore _ => false

/-- A maximal pattern takes the longest of all texts of its grammar that stand here. -/
theorem Maximal.split_iff (maximal : pattern.Maximal) (steady : pattern.steady = true) :
    pattern.split text = some (taken, rest) ↔ taken ∈ pattern.language ∧ text = taken ++ rest ∧
      ∀ front ∈ pattern.language, front <+: text → front.length ≤ taken.length := by
  constructor
  · intro read
    refine ⟨mem_language_of_split steady read, split_append read, fun front member begins => ?_⟩
    obtain ⟨_, _, again, longer⟩ := maximal text front member begins
    cases read.symm.trans again
    exact longer
  · rintro ⟨member, rfl, longest⟩
    obtain ⟨other, left, read, longer⟩ := maximal _ taken member (List.prefix_append _ _)
    have whole := split_append read
    have shorter := longest other (mem_language_of_split steady read) ⟨left, whole.symm⟩
    obtain ⟨rfl, rfl⟩ := List.append_inj whole (Nat.le_antisymm longer shorter)
    exact read

section Parts

theorem maximal_empty : empty.Maximal := by
  intro text front member _
  obtain rfl := (Language.mem_one _).mp member
  exact ⟨[], text, rfl, Nat.le_refl _⟩

theorem maximal_char (accepts : UriChar → Bool) : (char accepts).Maximal := by
  rintro _ _ ⟨character, accepted, rfl⟩ ⟨tail, rfl⟩
  exact ⟨[character], tail, if_pos accepted, Nat.le_refl _⟩

theorem Maximal.seq (one : first.Maximal) (two : second.Maximal) (takes : first.Takes second.leads) :
    (first ++ second).Maximal := by
  intro text front member begins
  obtain ⟨before, memberFirst, after, memberSecond, rfl⟩ := Language.mem_mul.mp member
  obtain ⟨tail, rfl⟩ := begins
  rw [List.append_assoc]
  cases after with
  | nil =>
    obtain ⟨taken, middle, read, longer⟩ := one _ before memberFirst (List.prefix_append _ ([] ++ tail))
    obtain ⟨more, rest, readToo, _⟩ := two middle [] memberSecond List.nil_prefix
    refine ⟨taken ++ more, rest, split_seq_iff.mpr ⟨taken, middle, more, read, readToo, rfl⟩, ?_⟩
    rw [List.append_nil, List.length_append]
    exact Nat.le_trans longer (Nat.le_add_right _ _)
  | cons head others =>
    -- The second part takes something, so the first one stops right before it.
    have here : HeadIn second.leads (head :: others ++ tail) := by
      rintro _ ⟨⟩
      exact leads_of_mem memberSecond
    have read := takes before memberFirst _ here
    obtain ⟨more, rest, readToo, longer⟩ := two _ _ memberSecond (List.prefix_append _ tail)
    refine ⟨before ++ more, rest, split_seq_iff.mpr ⟨before, _, more, read, readToo, rfl⟩, ?_⟩
    rw [List.length_append, List.length_append]
    exact Nat.add_le_add_left longer _

theorem Maximal.alt (one : first.Maximal) (two : second.Maximal)
    (outdoes : ∀ text taken rest front, first.split text = some (taken, rest) → front ∈ second.language →
      front <+: text → front.length ≤ taken.length) : (first.alt second).Maximal := by
  intro text front member begins
  cases read : first.split text with
  | some found =>
    obtain ⟨taken, rest⟩ := found
    refine ⟨taken, rest, split_alt_iff.mpr (.inl read), ?_⟩
    rcases (Language.mem_add _ _ _).mp member with member | member
    · obtain ⟨_, _, again, longer⟩ := one text front member begins
      cases read.symm.trans again
      exact longer
    · exact outdoes text taken rest front read member begins
  | none =>
    rcases (Language.mem_add _ _ _).mp member with member | member
    · obtain ⟨_, _, again, _⟩ := one text front member begins
      cases read.symm.trans again
    · obtain ⟨taken, rest, readToo, longer⟩ := two text front member begins
      exact ⟨taken, rest, split_alt_iff.mpr (.inr ⟨read, readToo⟩), longer⟩

/-- Alternatives that may begin alike, but that never both read. -/
theorem Maximal.alt_of_excludes (one : first.Maximal) (two : second.Maximal)
    (excludes : first.Excludes second) : (first.alt second).Maximal := by
  refine one.alt two fun text taken rest front read member begins => ?_
  obtain ⟨_, _, readToo, _⟩ := two text front member begins
  cases (excludes _ _ _ read).symm.trans readToo

/-- Parts in a row are taken one by one, and the last of them or more. -/
theorem Repeats.longest {most : Option Nat} {parts pieces : List Text} (maximal : body.Maximal)
    (takes : body.Takes body.leads) (filled : body.nullable = false) (every : ∀ one ∈ parts, one ∈ body.language)
    (few : ∀ bound, most = some bound → parts.length ≤ bound) (begins : parts.flatten <+: text)
    (run : Repeats body.split most text pieces rest) :
    parts.length ≤ pieces.length ∧ parts.flatten.length ≤ pieces.flatten.length := by
  induction parts generalizing most text pieces with
  | nil => exact ⟨Nat.zero_le _, Nat.zero_le _⟩
  | cons one others ih =>
    obtain ⟨member, everyOther⟩ := List.forall_mem_cons.mp every
    obtain ⟨tail, rfl⟩ := begins
    rw [List.flatten_cons, List.append_assoc] at run
    obtain ⟨taken, left, read, longer⟩ := maximal _ one member (List.prefix_append one _)
    cases run with
    | stop halt =>
      rcases halt with full | refused
      · exact absurd (few 0 full) (by simp)
      · cases refused.symm.trans read
    | @more _ _ piece middle _ pieces _ readToo run =>
      cases readToo.symm.trans read
      cases others with
      | nil =>
        refine ⟨Nat.succ_le_succ (Nat.zero_le _), ?_⟩
        rw [List.flatten_singleton, List.flatten_cons, List.length_append]
        exact Nat.le_trans longer (Nat.le_add_right _ _)
      | cons next further =>
        -- Another part follows, so this one is taken as it is.
        have here : HeadIn body.leads ((next :: further).flatten ++ tail) := by
          obtain ⟨head, _, rfl⟩ :=
            List.exists_cons_of_ne_nil (ne_nil_of_mem filled (everyOther next List.mem_cons_self))
          rintro _ ⟨⟩
          exact leads_of_mem (everyOther _ List.mem_cons_self)
        cases (takes one member _ here).symm.trans read
        have fewer (bound : Nat) (less : most.map (· - 1) = some bound) : (next :: further).length ≤ bound := by
          obtain ⟨before, rfl, rfl⟩ := Option.map_eq_some_iff.mp less
          exact Nat.le_sub_one_of_lt (few before rfl)
        obtain ⟨count, length⟩ := ih everyOther fewer (List.prefix_append _ _) run
        refine ⟨Nat.succ_le_succ count, ?_⟩
        simp only [List.flatten_cons, List.length_append] at length ⊢
        exact Nat.add_le_add_left length _

theorem Maximal.times {least : Nat} {most : Option Nat} (maximal : body.Maximal) (takes : body.Takes body.leads)
    (filled : body.nullable = false) : (times least most body).Maximal := by
  rintro text _ ⟨parts, enough, few, every, rfl⟩ begins
  have run := repeats_repeatSplit (shrinks_split filled) text most text (Nat.le_refl _)
  obtain ⟨count, longer⟩ := run.longest maximal takes filled every few begins
  exact ⟨_, _, (split_times_iff filled).mpr ⟨_, run, Nat.le_trans enough count, rfl⟩, longer⟩

end Parts

/-- A pattern whose choices are all made by the next character takes the longest text. -/
theorem maximal_of_deterministic (steady : pattern.steady = true) (free : pattern.unguarded = true)
    (sure : pattern.Deterministic follow) : pattern.Maximal := by
  induction pattern generalizing follow with
  | empty => exact maximal_empty
  | char accepts => exact maximal_char accepts
  | seq first second ihFirst ihSecond =>
    simp only [Pattern.steady, Bool.and_eq_true] at steady
    simp only [Pattern.unguarded, Bool.and_eq_true] at free
    refine (ihFirst steady.1 free.1 sure.1).seq (ihSecond steady.2 free.2 sure.2) fun text member tail here => ?_
    exact split_of_mem steady.1 sure.1 member (here.mono fun _ lead => by rw [lead, Bool.true_or])
  | alt first second ihFirst ihSecond =>
    simp only [Pattern.steady, Bool.and_eq_true] at steady
    simp only [Pattern.unguarded, Bool.and_eq_true] at free
    obtain ⟨⟨sureFirst, sureSecond⟩, filled, apart, -⟩ := sure
    refine (ihFirst steady.1 free.1 sureFirst).alt (ihSecond steady.2 free.2 sureSecond) ?_
    intro text taken rest front read member begins
    cases front with
    | nil => exact Nat.zero_le _
    | cons head others =>
      -- What the second alternative begins with, the first one does not.
      obtain ⟨_, _, rfl⟩ := List.exists_cons_of_ne_nil (ne_nil_of_split filled read)
      obtain ⟨tail, rfl⟩ := begins
      have lead := leads_of_split steady.1 read
      obtain ⟨rfl, -⟩ := List.cons.inj (split_append read)
      rw [apart head (leads_of_mem member)] at lead
      cases lead
  | times least most body ih =>
    simp only [Pattern.steady, Bool.and_eq_true, Bool.not_eq_true'] at steady
    obtain ⟨sureBody, filled, -⟩ := sure
    refine (ih steady.2 free sureBody).times (fun text member tail here => ?_) filled
    exact split_of_mem steady.2 sureBody member (here.mono fun _ lead => by rw [lead, Bool.true_or])
  | notBefore _ _ => cases free

end ODataLiteral.Pattern
