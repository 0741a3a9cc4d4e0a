import Mathlib.Data.List.Infix
import Mathlib.Data.List.TakeWhile
import ODataLiteral.Command

/-! The report on a source, line by line. Its lines are what stands between its newlines. Two sources with a newline
between them are reported on as each of them is alone, except that the lines of the second one have higher numbers. So a
report is told from the single lines, and a carriage return in front of every newline makes no difference to it. -/
namespace ODataLiteral

theorem newline_notMem_takeWhile (source : Bytes) : newline ∉ source.takeWhile (· != newline) := by
  intro member
  have other := List.mem_takeWhile_imp member
  simp at other

theorem splitLines_eq (source : Bytes) : splitLines source = source.splitOn newline := by
  fun_induction splitLines source with
  | case1 source line left =>
    have free : newline ∉ source := by
      intro member
      have other := List.dropWhile_eq_nil_iff.mp left newline member
      simp at other
    have whole : line = source := List.takeWhile_eq_self_iff.mpr (List.dropWhile_eq_nil_iff.mp left)
    rw [whole, List.splitOn_eq_singleton free]
  | case2 source line octet after left ih =>
    have stops : octet = newline := by
      have other := List.head_dropWhile_not (· != newline) (by rw [left]; exact List.cons_ne_nil octet after)
      simpa [left] using other
    have whole : line ++ newline :: after = source := by
      rw [← stops, ← left]
      exact List.takeWhile_append_dropWhile
    rw [ih, ← List.splitOn_append_cons_self_of_not_mem (newline_notMem_takeWhile source), whole]

/-- A source is one line, or a line and a newline in front of another source. -/
theorem lines_induction {motive : Bytes → Prop} (last : ∀ line, newline ∉ line → motive line)
    (more : ∀ line after, newline ∉ line → motive after → motive (line ++ newline :: after)) (source : Bytes) :
    motive source := by
  by_cases inside : newline ∈ source
  · obtain ⟨line, after, same, free⟩ := List.eq_append_cons_of_mem inside
    rw [same]
    exact more line after free (lines_induction last more after)
  · exact last source inside
termination_by source.length
decreasing_by
  rw [same, List.length_append, List.length_cons]
  omega

theorem length_splitOn (source : Bytes) : (source.splitOn newline).length = source.count newline + 1 := by
  induction source using lines_induction with
  | last line free =>
    rw [List.splitOn_eq_singleton free, List.count_eq_zero_of_not_mem free]
    rfl
  | more line after free ih =>
    rw [List.splitOn_append_cons_self_of_not_mem free, List.length_cons, ih, List.count_append, List.count_cons_self,
      List.count_eq_zero_of_not_mem free, Nat.zero_add]

/-- A line and its number. It reaches from one newline to the next, or to an end of the source, and it is one more than
the newlines before it. -/
def Bytes.IsLine (source : Bytes) (number : Nat) (line : Bytes) : Prop :=
  ∃ before after, source = before ++ line ++ after ∧ newline ∉ line ∧
    (before = [] ∨ before.getLast? = some newline) ∧ (after = [] ∨ after.head? = some newline) ∧
    number = before.count newline + 1

/-- A literal is its line, or all of it but one carriage return at the end. -/
def IsLiteralOf (line literal : Bytes) : Prop :=
  line = literal ++ [carriageReturn] ∨ line = literal ∧ line.getLast? ≠ some carriageReturn

instance (line literal : Bytes) : Decidable (IsLiteralOf line literal) :=
  inferInstanceAs (Decidable (_ ∨ _ ∧ _))

/-- The literal that a line holds, if it holds one. -/
def literal? (line : Bytes) : Option Bytes :=
  line.inits.find? fun literal => literal ≠ [] ∧ IsLiteralOf line literal

/-- A carriage return in front of every newline. -/
def Bytes.withReturns (source : Bytes) : Bytes :=
  source.flatMap fun octet => if octet = newline then [carriageReturn, newline] else [octet]

/-- A failure further down. -/
def LineFailure.moveDown (lines : Nat) (failure : LineFailure) : LineFailure :=
  { failure with line := failure.line + lines }

section Lines

variable {source line literal : Bytes} {number : Nat}

theorem trimReturn_eq_iff : trimReturn line = literal ↔ IsLiteralOf line literal := by
  unfold trimReturn IsLiteralOf
  split
  · rename_i closed
    obtain ⟨front, rfl⟩ := List.getLast?_eq_some_iff.mp closed
    simp
  · rename_i other
    constructor
    · rintro rfl
      exact .inr ⟨rfl, other⟩
    · rintro (rfl | ⟨rfl, _⟩)
      · exact absurd List.getLast?_concat other
      · rfl

theorem trimReturn_eq_nil_iff : trimReturn line = [] ↔ line = [carriageReturn] ∨ line = [] := by
  rw [trimReturn_eq_iff, IsLiteralOf, List.nil_append]
  refine or_congr_right ⟨And.left, ?_⟩
  rintro rfl
  exact ⟨rfl, nofun⟩

theorem IsLiteralOf.unique {other : Bytes} (one : IsLiteralOf line literal) (two : IsLiteralOf line other) :
    literal = other :=
  (trimReturn_eq_iff.mpr one).symm.trans (trimReturn_eq_iff.mpr two)

theorem IsLiteralOf.begins (whole : IsLiteralOf line literal) : literal <+: line := by
  rcases whole with rfl | ⟨rfl, _⟩
  · exact List.prefix_append _ _
  · exact List.prefix_rfl

theorem literal?_eq_some_iff : literal? line = some literal ↔ literal ≠ [] ∧ IsLiteralOf line literal := by
  have accepted {other : Bytes} (found : literal? line = some other) : other ≠ [] ∧ IsLiteralOf line other := by
    simpa using List.find?_some found
  constructor
  · exact accepted
  · rintro ⟨filled, whole⟩
    have member : literal ∈ line.inits := (List.mem_inits _ _).mpr whole.begins
    have present : (literal? line).isSome = true :=
      List.find?_isSome.mpr ⟨literal, member, decide_eq_true ⟨filled, whole⟩⟩
    obtain ⟨other, found⟩ := Option.isSome_iff_exists.mp present
    rw [found, whole.unique (accepted found).2]

theorem literal?_eq (line : Bytes) :
    literal? line = if trimReturn line = [] then none else some (trimReturn line) := by
  ext literal
  rw [literal?_eq_some_iff, ← trimReturn_eq_iff]
  split
  · rename_i empty
    simp [empty, eq_comm]
  · rename_i filled
    rw [Option.some_inj]
    exact ⟨And.right, fun same => ⟨same ▸ filled, same⟩⟩

theorem literalLines_eq_filterMap (source : Bytes) : literalLines source =
    ((source.splitOn newline).zipIdx 1).filterMap fun line => (literal? line.1).map (line.2, ·) := by
  rw [literalLines, splitLines_eq, ← List.filterMap_eq_filter, List.filterMap_map]
  refine List.filterMap_congr fun line _ => ?_
  rw [literal?_eq]
  by_cases empty : trimReturn line.1 = []
  · simp [empty, Option.guard]
  · simp [empty, Option.guard]

/-- A line is the piece between two newlines that its number counts to. -/
theorem isLine_iff : source.IsLine number line ↔ (line, number) ∈ (source.splitOn newline).zipIdx 1 := by
  constructor
  · rintro ⟨before, after, rfl, free, starts, ends, rfl⟩
    have here : ∃ more, (line ++ after).splitOn newline = line :: more := by
      rcases ends with rfl | ends
      · exact ⟨[], by rw [List.append_nil, List.splitOn_eq_singleton free]⟩
      · obtain ⟨back, rfl⟩ := List.head?_eq_some_iff.mp ends
        exact ⟨_, List.splitOn_append_cons_self_of_not_mem free back⟩
    obtain ⟨more, here⟩ := here
    rw [List.append_assoc]
    rcases starts with rfl | starts
    · rw [List.nil_append, here]
      exact List.mem_cons_self
    · obtain ⟨front, rfl⟩ := List.getLast?_eq_some_iff.mp starts
      rw [List.append_assoc, List.singleton_append, List.splitOn_append_cons_self, here, List.zipIdx_append,
        length_splitOn, List.count_append, List.count_singleton_self, Nat.add_comm 1]
      exact List.mem_append_right _ List.mem_cons_self
  · intro member
    induction source using lines_induction generalizing number with
    | last whole free =>
      rw [List.splitOn_eq_singleton free, List.zipIdx_singleton, List.mem_singleton] at member
      cases member
      exact ⟨[], [], by simp, free, .inl rfl, .inl rfl, rfl⟩
    | more first after free ih =>
      rw [List.splitOn_append_cons_self_of_not_mem free, List.zipIdx_cons', List.mem_cons] at member
      rcases member with first | later
      · cases first
        exact ⟨[], newline :: after, by simp, free, .inl rfl, .inr rfl, rfl⟩
      · obtain ⟨⟨_, earlier⟩, member, same⟩ := List.mem_map.mp later
        cases same
        obtain ⟨before, behind, rfl, inside, starts, ends, rfl⟩ := ih member
        refine ⟨first ++ newline :: before, behind, by simp, inside, .inr ?_, ends, ?_⟩
        · rcases starts with rfl | starts
          · exact List.getLast?_concat
          · rw [List.getLast?_append, List.getLast?_cons, starts]
            rfl
        · rw [List.count_append, List.count_cons_self, List.count_eq_zero_of_not_mem free]
          simp

theorem mem_literalLines_iff :
    (number, literal) ∈ literalLines source ↔
      literal ≠ [] ∧ ∃ line, source.IsLine number line ∧ IsLiteralOf line literal := by
  simp only [literalLines_eq_filterMap, List.mem_filterMap, Option.map_eq_some_iff, literal?_eq_some_iff, Prod.exists,
    Prod.mk.injEq, isLine_iff]
  constructor
  · rintro ⟨line, _, member, _, ⟨filled, whole⟩, rfl, rfl⟩
    exact ⟨filled, line, member, whole⟩
  · rintro ⟨filled, line, member, whole⟩
    exact ⟨line, number, member, literal, ⟨filled, whole⟩, rfl, rfl⟩

theorem literalLines_pairwise (source : Bytes) :
    (literalLines source).Pairwise fun one two => one.1 < two.1 := by
  have numbers : (((splitLines source).zipIdx 1).map Prod.snd).Pairwise (· < ·) := by
    rw [List.zipIdx_map_snd]
    exact List.pairwise_lt_range'
  have numbered : ((splitLines source).zipIdx 1).Pairwise fun one two => one.2 < two.2 := List.pairwise_map.mp numbers
  refine List.Pairwise.filter _ ?_
  rw [List.pairwise_map]
  exact numbered

theorem literalLines_append (before after : Bytes) :
    literalLines (before ++ newline :: after) =
      literalLines before ++ (literalLines after).map (Prod.map (· + (1 + before.count newline)) id) := by
  have numbers : (after.splitOn newline).zipIdx (1 + (before.count newline + 1)) =
      ((after.splitOn newline).zipIdx 1).map (Prod.map id (· + (1 + before.count newline))) := by
    rw [List.map_snd_add_zipIdx_eq_zipIdx, Nat.add_assoc 1]
  simp only [literalLines, splitLines_eq, List.splitOn_append_cons_self, List.zipIdx_append, length_splitOn, numbers,
    List.map_append, List.filter_append, List.map_map, List.filter_map]
  rfl

theorem literalLines_of_free (free : newline ∉ line) :
    literalLines line = [(1, trimReturn line)].filter fun (_, literal) => !literal.isEmpty := by
  rw [literalLines, splitLines_eq, List.splitOn_eq_singleton free]
  rfl

theorem withReturns_of_free (free : newline ∉ line) : line.withReturns = line := by
  have same : ∀ octet ∈ line, (if octet = newline then [carriageReturn, newline] else [octet]) = [octet] := by
    intro octet member
    exact if_neg (ne_of_mem_of_not_mem member free)
  rw [Bytes.withReturns, List.flatMap_congr same]
  exact List.flatMap_singleton' line

theorem withReturns_append (before after : Bytes) :
    (before ++ newline :: after).withReturns =
      (before.withReturns ++ [carriageReturn]) ++ newline :: after.withReturns := by
  simp [Bytes.withReturns, List.flatMap_append]

theorem literalLines_withReturns (bare : carriageReturn ∉ source) :
    literalLines source.withReturns = literalLines source := by
  induction source using lines_induction with
  | last line free => rw [withReturns_of_free free]
  | more line after free ih =>
    obtain ⟨bareLine, bareAfter⟩ : carriageReturn ∉ line ∧ carriageReturn ∉ after := by
      constructor
      · exact fun member => bare (List.mem_append_left _ member)
      · exact fun member => bare (List.mem_append_right _ (List.mem_cons_of_mem _ member))
    have trimmed : trimReturn (line ++ [carriageReturn]) = trimReturn line := by
      rw [trimReturn_eq_iff.mpr (.inl rfl), trimReturn_eq_iff.mpr (.inr ⟨rfl, ?_⟩)]
      exact fun last => bareLine (List.mem_of_getLast? last)
    have freeToo : newline ∉ line ++ [carriageReturn] := by
      rw [List.mem_append, List.mem_singleton]
      exact not_or.mpr ⟨free, by decide⟩
    have first : literalLines (line ++ [carriageReturn]) = literalLines line := by
      rw [literalLines_of_free freeToo, literalLines_of_free free, trimmed]
    have count : (line ++ [carriageReturn]).count newline = line.count newline := by
      rw [List.count_eq_zero_of_not_mem freeToo, List.count_eq_zero_of_not_mem free]
    rw [withReturns_append, withReturns_of_free free, literalLines_append, literalLines_append, first, count,
      ih bareAfter]

end Lines

section Report

variable (rule : Rule) {source : Bytes}

/-- The failure of a line that holds a literal, if the rule does not take it as a whole. -/
def lineFailure? (line : Nat × Bytes) : Option LineFailure :=
  match rule.complete line.2 with
  | .ok _ => none
  | .error error => some { line := line.1, error }

theorem failures_eq (source : Bytes) :
    (checkSource rule source).failures = (literalLines source).filterMap (lineFailure? rule) := rfl

theorem lineFailure?_eq_some_iff {line : Nat × Bytes} {failure : LineFailure} :
    lineFailure? rule line = some failure ↔ line.1 = failure.line ∧ rule.complete line.2 = .error failure.error := by
  unfold lineFailure?
  cases rule.complete line.2 with
  | ok token => simp
  | error error =>
    obtain ⟨number, reason⟩ := failure
    simp

theorem lineFailure?_moveDown (lines : Nat) (line : Nat × Bytes) :
    lineFailure? rule (Prod.map (· + lines) id line) = (lineFailure? rule line).map (LineFailure.moveDown lines) := by
  simp only [lineFailure?, Prod.map_snd, id_eq]
  cases rule.complete line.2 <;> rfl

theorem failures_append (before after : Bytes) :
    (checkSource rule (before ++ newline :: after)).failures =
      (checkSource rule before).failures ++
        (checkSource rule after).failures.map (LineFailure.moveDown (1 + before.count newline)) := by
  simp only [failures_eq, literalLines_append, List.filterMap_append, List.filterMap_map, List.map_filterMap]
  congr 1
  exact List.filterMap_congr fun line _ => lineFailure?_moveDown rule _ line

theorem mem_failures_iff {failure : LineFailure} : failure ∈ (checkSource rule source).failures ↔
    ∃ line literal, source.IsLine failure.line line ∧ IsLiteralOf line literal ∧ literal ≠ [] ∧
      rule.complete literal = .error failure.error := by
  simp only [failures_eq, List.mem_filterMap, Prod.exists, lineFailure?_eq_some_iff]
  constructor
  · rintro ⟨_, literal, member, rfl, refused⟩
    obtain ⟨filled, line, stands, whole⟩ := mem_literalLines_iff.mp member
    exact ⟨line, literal, stands, whole, filled, refused⟩
  · rintro ⟨line, literal, stands, whole, filled, refused⟩
    exact ⟨failure.line, literal, mem_literalLines_iff.mpr ⟨filled, line, stands, whole⟩, rfl, refused⟩

theorem failures_pairwise (source : Bytes) :
    (checkSource rule source).failures.Pairwise fun one two => one.line < two.line := by
  refine List.Pairwise.filterMap _ ?_ (literalLines_pairwise source)
  intro one two before failure failed other failedToo
  obtain ⟨same, _⟩ := (lineFailure?_eq_some_iff rule).mp failed
  obtain ⟨sameToo, _⟩ := (lineFailure?_eq_some_iff rule).mp failedToo
  omega

theorem literals_eq (source : Bytes) :
    (checkSource rule source).literals =
      (source.splitOn newline).countP fun line => line ≠ [] ∧ line ≠ [carriageReturn] := by
  have pieces := List.zipIdx_map_fst 1 (source.splitOn newline)
  conv_rhs => rw [← pieces, List.countP_map]
  simp only [checkSource, literalLines, splitLines_eq, ← List.countP_eq_length_filter, List.countP_map]
  refine List.countP_congr ?_
  intro line _
  simp [trimReturn_eq_nil_iff, and_comm]

theorem checkSource_congr {other : Bytes} (same : literalLines source = literalLines other) :
    checkSource rule source = checkSource rule other := by
  simp only [checkSource, same]

end Report

/-- With a newline between them, two sources are reported on one after the other. The failures are the lines that hold a
literal which the rule does not take as a whole, from the top to the bottom, and the literals are counted. Carriage
returns in front of all newlines are no part of any literal. -/
theorem checkSource_lines (rule : Rule) :
    (∀ before after, checkSource rule (before ++ [newline] ++ after) =
      { literals := (checkSource rule before).literals + (checkSource rule after).literals
        failures := (checkSource rule before).failures ++
          (checkSource rule after).failures.map (LineFailure.moveDown (1 + before.count newline)) }) ∧
    (∀ source, (checkSource rule source).failures.Pairwise (fun one two => one.line < two.line) ∧
      ∀ failure, failure ∈ (checkSource rule source).failures ↔
        ∃ line literal, source.IsLine failure.line line ∧ IsLiteralOf line literal ∧ literal ≠ [] ∧
          rule.complete literal = .error failure.error) ∧
    (∀ source, (checkSource rule source).literals =
      (source.splitOn newline).countP fun line => line ≠ [] ∧ line ≠ [carriageReturn]) ∧
    ∀ source, carriageReturn ∉ source → checkSource rule source.withReturns = checkSource rule source := by
  refine ⟨?_, ?_, literals_eq rule, ?_⟩
  · intro before after
    rw [List.append_assoc, List.singleton_append, ← failures_append]
    have count : (checkSource rule (before ++ newline :: after)).literals =
        (checkSource rule before).literals + (checkSource rule after).literals := by
      rw [literals_eq, literals_eq, literals_eq, List.splitOn_append_cons_self, List.countP_append]
    rw [← count]
  · intro source
    exact ⟨failures_pairwise rule source, fun failure => mem_failures_iff rule⟩
  · intro source bare
    exact checkSource_congr rule (literalLines_withReturns bare)

/-- The third line is rejected, with and without carriage returns. -/
theorem checkSource_lines_blank :
    let source : Bytes := [0x31, 0x0A, 0x0A, 0x78]
    (carriageReturn ∉ source ∧
      checkSource Grammar.jsonValue [0x31, 0x0D, 0x0A, 0x0D, 0x0A, 0x78] = checkSource Grammar.jsonValue source) ∧
    (source.IsLine 3 [0x78] ∧ IsLiteralOf [0x78] [0x78] ∧ Grammar.jsonValue.complete [0x78] = .error (.noMatch 0) ∧
      { line := 3, error := .noMatch 0 } ∈ (checkSource Grammar.jsonValue source).failures) := by
  intro source
  obtain ⟨_, lines, _, returns⟩ := checkSource_lines Grammar.jsonValue
  have bare : carriageReturn ∉ source := by decide
  have third : source.IsLine 3 [0x78] := ⟨[0x31, 0x0A, 0x0A], [], by decide, by decide, .inr rfl, .inl rfl, by decide⟩
  have whole : IsLiteralOf [0x78] [0x78] := .inr ⟨rfl, by decide⟩
  have refused : Grammar.jsonValue.complete [0x78] = .error (.noMatch 0) := by rfl
  refine ⟨⟨bare, returns source bare⟩, third, whole, refused, ?_⟩
  exact ((lines source).2 _).mpr ⟨_, _, third, whole, List.cons_ne_nil _ _, refused⟩

end ODataLiteral
