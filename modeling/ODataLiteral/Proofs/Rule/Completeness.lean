import ODataLiteral.Proofs.Pattern.Language
import ODataLiteral.Proofs.Rule.Lead

/-! From grammars to parsing: a parser is complete for a grammar when it reads every text of it. It need not do so
before every character, for a text may be read on where another text could begin. -/
namespace ODataLiteral

open Pattern

/-- Any character at all. -/
abbrev Grammar.anything : UriChar → Bool := fun _ => true

theorem Pattern.parse_of_split {pattern : Pattern} {start : Place} {text rest : Text}
    (read : pattern.split start.rest = some (text, rest)) :
    ∃ stop, pattern.parse start = some (text, stop) ∧ stop.rest = rest :=
  ⟨⟨start.offset + text.width, rest⟩, Pattern.parse_iff.mpr ⟨read, rfl⟩, rfl⟩

theorem Pattern.HeadIn.nil (follow : UriChar → Bool) : HeadIn follow [] :=
  nofun

theorem Pattern.HeadIn.mono {follow other : UriChar → Bool} {tail : Text} (here : HeadIn follow tail)
    (within : ∀ character, follow character = true → other character = true) : HeadIn other tail :=
  fun character first => within character (here character first)

/-- A pattern that takes every text of its grammar that a character of a class follows, or nothing. -/
def Pattern.Takes (pattern : Pattern) (follow : UriChar → Bool) : Prop :=
  ∀ text ∈ pattern.language, ∀ tail, HeadIn follow tail → pattern.split (text ++ tail) = some (text, tail)

theorem Pattern.takes_of_deterministic {pattern : Pattern} {follow : UriChar → Bool}
    (steady : pattern.steady = true) (sure : pattern.Deterministic follow) : pattern.Takes follow :=
  fun _ member _ here => split_of_mem steady sure member here

/-- What comes next is the first character of a part that cannot be empty. -/
theorem Pattern.leads_of_next {second : Pattern} {character : UriChar} {other : Bool}
    (filled : second.nullable = false) (next : (second.leads character || second.nullable && other) = true) :
    second.leads character = true := by
  rwa [filled, Bool.false_and, Bool.or_false] at next

/-- A part that is taken before whatever the rest may begin with, and then the rest. -/
theorem Pattern.Takes.seq {first second : Pattern} {follow inner : UriChar → Bool} (one : first.Takes inner)
    (two : second.Takes follow)
    (ends : ∀ character, (second.leads character || second.nullable && follow character) = true →
      inner character = true) : (first ++ second).Takes follow := by
  rintro _ ⟨before, member, after, memberToo, rfl⟩ tail here
  have read := one before member (after ++ tail) ((here.append memberToo).mono ends)
  rw [← List.append_assoc] at read
  exact split_seq_iff.mpr ⟨before, after ++ tail, after, read, two after memberToo tail here, rfl⟩

/-- Alternatives that begin with different characters. -/
theorem Pattern.Takes.alt {first second : Pattern} {follow : UriChar → Bool} (one : first.Takes follow)
    (two : second.Takes follow) (steady : first.steady = true) (filled : first.nullable = false)
    (filledToo : second.nullable = false) (apart : UriChar.Apart second.leads first.leads) :
    (first <|> second).Takes follow := by
  intro text member tail here
  rw [orElse_eq_alt, split_alt_iff]
  rcases (Language.mem_add _ _ _).mp member with member | member
  · exact .inl (one text member tail here)
  · refine .inr ⟨split_eq_none_of_head steady filled fun character next => ?_, two text member tail here⟩
    obtain ⟨_, _, rfl⟩ := List.exists_cons_of_ne_nil (ne_nil_of_mem filledToo member)
    obtain ⟨⟩ := next
    exact apart _ (leads_of_mem member)

namespace Parser

variable {grammar first second : Language UriChar} {follow other : UriChar → Bool} {one two : Parser}

/-- A parser reads every text of a grammar that a character of a class follows, or nothing. -/
def Complete (grammar : Language UriChar) (follow : UriChar → Bool) (parser : Parser) : Prop :=
  ∀ (start : Place) (text tail : Text), start.rest = text ++ tail → text ∈ grammar → HeadIn follow tail →
    ∃ token stop, parser start = some (token, stop) ∧ stop.rest = tail

theorem Complete.mono (complete : one.Complete second other) (within : first ≤ second)
    (fewer : ∀ character, follow character = true → other character = true) :
    one.Complete first follow :=
  fun start text tail same member here => complete start text tail same (within member) (here.mono fewer)

/-- Two parsers that stop at the same place wherever both of them read. -/
def Agree (one two : Parser) : Prop :=
  ∀ start found foundToo, one start = some found → two start = some foundToo → found.2.rest = foundToo.2.rest

theorem agree_of_excludes (excludes : ∀ start token stop, one start = some (token, stop) → two start = none) :
    Agree one two := by
  intro start found foundToo read readToo
  rw [excludes _ _ _ read] at readToo
  cases readToo

theorem Agree.or {three : Parser} (agree : Agree one two) (agreeToo : Agree one three) :
    Agree one fun start => (two start).or (three start) := by
  intro start found foundToo read readToo
  rcases Option.or_eq_some_iff.mp readToo with readToo | ⟨_, readToo⟩
  · exact agree start found foundToo read readToo
  · exact agreeToo start found foundToo read readToo

theorem agree_none : Agree one fun _ => none :=
  agree_of_excludes fun _ _ _ _ => rfl

/-- The first alternative may win where the second one was meant, as long as it stops at the same place. -/
theorem or_complete (complete : one.Complete first follow) (completeToo : two.Complete second follow)
    (agree : Agree one two) :
    Complete (first + second) follow fun start => (one start).or (two start) := by
  intro start text tail same member here
  rcases (Language.mem_add _ _ _).mp member with member | member
  · obtain ⟨token, stop, read, rest⟩ := complete start text tail same member here
    exact ⟨token, stop, by simp only [read, Option.some_or], rest⟩
  · obtain ⟨token, stop, read, rest⟩ := completeToo start text tail same member here
    cases winner : one start with
    | none => exact ⟨token, stop, by simpa only [winner, Option.none_or] using read, rest⟩
    | some found =>
      refine ⟨found.1, found.2, by simp only [winner, Option.some_or], ?_⟩
      rw [agree start found _ winner read]
      exact rest

section Items

variable {separators closers : Language UriChar} {separator closing : Pattern} {item : Parser}

/-- What the patterns of a row must do with the text around its items. What separates two of them does not close the
row, and of the next item it may take what the grammar has it take, as long as the rest is an item, too. -/
structure Framed (grammar separators closers : Language UriChar) (follow : UriChar → Bool)
    (separator closing : Pattern) : Prop where
  closes : ∀ last ∈ closers, ∀ tail,
    HeadIn follow (last ++ tail) ∧ closing.split (last ++ tail) = some (last, tail)
  goesOn : ∀ gap ∈ separators, ∀ rest, HeadIn follow (gap ++ rest) ∧ closing.split (gap ++ rest) = none
  separates : ∀ gap ∈ separators, ∀ next ∈ grammar, ∀ rest, ∃ taken other,
    separator.split (gap ++ (next ++ rest)) = some (taken, other ++ rest) ∧ other ∈ grammar

theorem items_complete (complete : item.Complete grammar follow)
    (framed : Framed grammar separators closers follow separator closing) {last : Text} (closed : last ∈ closers)
    {text tail : Text} {parts : List Text} (member : text ∈ grammar)
    (every : ∀ part ∈ parts, part ∈ separators * grammar) {start : Place}
    (here : start.rest = text ++ (parts.flatten ++ (last ++ tail))) :
    ∃ tokens stop, Items item separator closing start tokens stop ∧ stop.rest = tail := by
  induction parts generalizing text start with
  | nil =>
    rw [List.flatten_nil, List.nil_append] at here
    obtain ⟨follows, final⟩ := framed.closes last closed tail
    obtain ⟨token, after, read, rest⟩ := complete start text _ here member follows
    rw [← rest] at final
    obtain ⟨stop, closed, rest⟩ := Pattern.parse_of_split final
    exact ⟨[token], stop, .last read closed, rest⟩
  | cons part parts ih =>
    obtain ⟨⟨gap, isGap, next, memberToo, rfl⟩, others⟩ := List.forall_mem_cons.mp every
    have here : start.rest = text ++ (gap ++ (next ++ (parts.flatten ++ (last ++ tail)))) := by
      rw [here]
      simp
    obtain ⟨follows, goesOn⟩ := framed.goesOn gap isGap (next ++ (parts.flatten ++ (last ++ tail)))
    obtain ⟨token, after, read, rest⟩ := complete start text _ here member follows
    obtain ⟨taken, other, between, memberOther⟩ :=
      framed.separates gap isGap next memberToo (parts.flatten ++ (last ++ tail))
    rw [← rest] at goesOn between
    obtain ⟨afterGap, between, restNext⟩ := Pattern.parse_of_split between
    obtain ⟨tokens, stop, run, final⟩ := ih memberOther others restNext
    exact ⟨token :: tokens, stop, .more read (Pattern.parse_eq_none.mpr goesOn) between run, final⟩

end Items

theorem lexeme_complete_of_takes {kind : Kind} {meaning : Meaning} {pattern : Pattern}
    (takes : pattern.Takes follow)
    (means : ∀ text ∈ grammar, text ∈ pattern.language ∧ (meaning.value? text).isSome = true) :
    (Parser.lexeme kind meaning pattern).Complete grammar follow := by
  intro start text tail same member here
  obtain ⟨spelled, known⟩ := means text member
  obtain ⟨value, known⟩ := Option.isSome_iff_exists.mp known
  have taken := takes text spelled tail here
  rw [← same] at taken
  obtain ⟨stop, read, rest⟩ := Pattern.parse_of_split taken
  exact ⟨_, stop, lexeme_iff.mpr ⟨text, value, read, known, rfl⟩, rest⟩

theorem lexeme_complete {kind : Kind} {meaning : Meaning} {pattern : Pattern}
    (steady : pattern.steady = true) (sure : pattern.Deterministic follow)
    (means : ∀ text ∈ grammar, text ∈ pattern.language ∧ (meaning.value? text).isSome = true) :
    (Parser.lexeme kind meaning pattern).Complete grammar follow :=
  lexeme_complete_of_takes (Pattern.takes_of_deterministic steady sure) means

end Parser

namespace Rule

variable {one two : Rule} {levels : Nat} {first second : Language UriChar} {follow : UriChar → Bool}

theorem never_complete (levels : Nat) : (never.parse levels).Complete 0 follow :=
  fun _ _ _ _ member => absurd member (Language.notMem_zero _)

theorem orElse_complete (complete : (one.parse levels).Complete first follow)
    (completeToo : (two.parse levels).Complete second follow) (steady : one.steady = true)
    (steadyToo : two.steady = true) (apart : UriChar.Apart one.leads two.leads) :
    ((orElse one two).parse levels).Complete (first + second) follow :=
  Parser.or_complete complete completeToo <| Parser.agree_of_excludes fun _ _ _ read =>
    Rule.parse_eq_none_of_apart steady steadyToo apart read levels

section Delimited

variable {opening between closing : Pattern} {inner : UriChar → Bool}

theorem enclosed_complete (opens : opening.Takes Grammar.anything)
    (complete : (one.parse levels).Complete first inner) (closes : closing.Takes follow)
    (ends : ∀ character, (closing.leads character || closing.nullable && follow character) = true →
      inner character = true) (kind : Kind) :
    ((enclosed kind opening one closing).parse levels).Complete
      (opening.language * first * closing.language) follow := by
  rintro start _ tail here ⟨_, ⟨before, opened, text, member, rfl⟩, after, closed, rfl⟩ follows
  have here : start.rest = before ++ (text ++ (after ++ tail)) := by
    rw [here]
    simp
  have read := opens before opened (text ++ (after ++ tail)) fun _ _ => rfl
  rw [← here] at read
  obtain ⟨left, opening, rest⟩ := Pattern.parse_of_split read
  obtain ⟨token, right, read, rest⟩ :=
    complete left text _ rest member ((HeadIn.append follows closed).mono ends)
  have closing := closes after closed tail follows
  rw [← rest] at closing
  obtain ⟨stop, closing, rest⟩ := Pattern.parse_of_split closing
  exact ⟨_, stop, Parser.enclosed_iff.mpr ⟨_, left, token, right, _, opening, read, closing, rfl⟩, rest⟩

theorem pair_complete (opens : opening.Takes Grammar.anything)
    (complete : (one.parse levels).Complete first inner) (separates : between.Takes Grammar.anything)
    (ends : ∀ character, (between.leads character || between.nullable) = true → inner character = true)
    (completeToo : (two.parse levels).Complete second follow) (pairing : Pairing) :
    ((pair pairing opening one between two).parse levels).Complete
      (opening.language * first * between.language * second) follow := by
  rintro start _ tail here ⟨_, ⟨_, ⟨before, opened, text, member, rfl⟩, gap, separated, rfl⟩, more,
    memberToo, rfl⟩ follows
  have here : start.rest = before ++ (text ++ (gap ++ (more ++ tail))) := by
    rw [here]
    simp
  have read := opens before opened (text ++ (gap ++ (more ++ tail))) fun _ _ => rfl
  rw [← here] at read
  obtain ⟨left, opening, rest⟩ := Pattern.parse_of_split read
  have any : HeadIn Grammar.anything (more ++ tail) := fun _ _ => rfl
  have next : HeadIn inner (gap ++ (more ++ tail)) :=
    (HeadIn.append any separated).mono fun character accepted => ends character (by simpa using accepted)
  obtain ⟨token, middle, read, rest⟩ := complete left text _ rest member next
  have between := separates gap separated (more ++ tail) any
  rw [← rest] at between
  obtain ⟨right, between, rest⟩ := Pattern.parse_of_split between
  obtain ⟨last, stop, readToo, rest⟩ := completeToo right more tail rest memberToo follows
  exact ⟨_, stop, Parser.pair_iff.mpr
    ⟨_, left, token, middle, _, right, last, opening, read, between, readToo, rfl⟩, rest⟩

end Delimited

/-- A parser that goes forward is complete for no grammar in which nothing is a text. -/
theorem nil_notMem_of_complete (steady : one.steady = true)
    (complete : (one.parse levels).Complete first follow) : [] ∉ first := by
  intro member
  obtain ⟨token, stop, read, _⟩ := complete ⟨0, []⟩ [] [] rfl member (HeadIn.nil _)
  rw [(Rule.parse_strict levels steady).eq_none rfl] at read
  cases read

end Rule

end ODataLiteral
