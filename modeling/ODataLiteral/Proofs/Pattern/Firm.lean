import ODataLiteral.Proofs.Literal.Exclusion
import ODataLiteral.Proofs.Pattern.Language

/-! What a pattern takes when more text is put behind a text, and when some of it is cut off. A pattern that reads on
a text reads on every longer one, unless it looks out for what must not follow. A pattern is firm when no choice
that it made depends on the text which is cut off behind what it took. -/
namespace ODataLiteral.Pattern

/-- Patterns that take one character. -/
def single : Pattern → Bool
  | char _ => true
  | alt first second => first.single && second.single
  | empty | seq _ _ | times _ _ _ | notBefore _ => false

/-- Patterns that decide by the next character alone where they end. -/
def prompt : Pattern → Bool
  | empty | char _ => true
  | seq first second => first.prompt && second.prompt
  | alt first second => first.single && second.single
  | times _ _ body | notBefore body => body.single

/-- Patterns that do not need what follows to know where they end. -/
def fixed : Pattern → Bool
  | empty | char _ => true
  | seq first second => second.fixed && (first.fixed || first.prompt && !second.nullable)
  | alt first second => first.single && second.single
  | times least most body => most == some least && body.fixed
  | notBefore _ => false

/-- Patterns that always read. -/
def total : Pattern → Bool
  | empty => true
  | char _ | notBefore _ => false
  | seq first second => first.total && second.total
  | alt first second => first.total || second.total
  | times least _ _ => least == 0

/-- Patterns that read on every text that begins with one on which they read. -/
def grows : Pattern → Bool
  | empty | char _ => true
  | seq first second =>
    first.grows && second.total ||
      second.grows && (first.fixed || first.prompt && !second.nullable)
  | alt first second => first.grows && second.grows
  | times least _ body => least == 0 || body.fixed
  | notBefore _ => false

/-- Patterns that are firm whatever follows them. -/
def firm : Pattern → Bool
  | empty | char _ => true
  | seq first second => first.firm && second.firm
  | alt first second => first.firm && second.firm && first.grows
  | times _ _ body => body.firm && body.grows
  | notBefore ahead => ahead.grows

/-- Where the pattern reads, it reads in a longer text. -/
def Grows (pattern : Pattern) : Prop :=
  ∀ text gone, (pattern.split text).isSome = true → (pattern.split (text ++ gone)).isSome = true

/-- A pattern that takes the same when the text is cut off somewhere behind what it took, if a character of a class
or nothing follows there. An alternative that is refused must not come back, nor another piece of a repetition,
and what must not follow must not appear. -/
def Firm : Pattern → (UriChar → Bool) → Prop
  | empty, _ | char _, _ => True
  | seq first second, follow =>
    first.Firm (fun character => second.leads character || second.nullable && follow character) ∧
      second.Firm follow
  | alt first second, follow =>
    (first.Firm follow ∧ second.Firm follow) ∧ (first.Grows ∨ second.Excludes first)
  | times _ _ body, follow =>
    body.Firm (fun character => body.leads character || follow character) ∧
      (body.Grows ∨ UriChar.Apart follow body.leads)
  | notBefore ahead, _ => ahead.Grows

variable {pattern first second : Pattern} {follow : UriChar → Bool} {text taken rest gone : Text}

section Run

variable {most : Option Nat} {pieces : List Text}

theorem Repeats.halts {step : Text → Option (Text × Text)} (run : Repeats step most text pieces rest) :
    most = some pieces.length ∨ step rest = none := by
  induction run with
  | stop halt => exact halt
  | @more most _ _ _ _ pieces room _ _ ih =>
    refine ih.imp_left fun full => ?_
    obtain ⟨bound, rfl, less⟩ := Option.map_eq_some_iff.mp full
    have positive : bound ≠ 0 := fun zero => room (by rw [zero])
    rw [List.length_cons, ← less]
    exact congrArg some (by omega)

theorem Repeats.append {body : Pattern} (run : Repeats body.split most text pieces rest) :
    text = pieces.flatten ++ rest := by
  induction run with
  | stop _ => rfl
  | more _ read _ ih => rw [split_append read, ih, List.flatten_cons, List.append_assoc]

end Run

section Longer

theorem Repeats.longer {step : Text → Option (Text × Text)} {most : Option Nat} {pieces : List Text}
    (keeps : ∀ text piece middle, step text = some (piece, middle) →
      step (text ++ gone) = some (piece, middle ++ gone))
    (run : Repeats step most text pieces rest)
    (halts : most = some pieces.length ∨ step (rest ++ gone) = none) :
    Repeats step most (text ++ gone) pieces (rest ++ gone) := by
  induction run with
  | stop _ => exact .stop halts
  | @more most text piece middle rest pieces room read _ ih =>
    refine .more room (keeps _ _ _ read) (ih (halts.imp_left ?_))
    rintro rfl
    rfl

theorem split_single (single : pattern.single = true) (filled : text ≠ []) :
    pattern.split (text ++ gone) =
      (pattern.split text).map fun (taken, rest) => (taken, rest ++ gone) := by
  induction pattern with
  | char accepts =>
    obtain ⟨character, tail, rfl⟩ := List.exists_cons_of_ne_nil filled
    rw [List.cons_append, split_char_cons, split_char_cons]
    split <;> rfl
  | alt first second ihFirst ihSecond =>
    simp only [Pattern.single, Bool.and_eq_true] at single
    rw [split_alt, split_alt, ihFirst single.1, ihSecond single.2, Option.map_or]
  | empty | seq _ _ _ _ | times _ _ _ _ | notBefore _ _ => cases single

theorem nullable_of_single (single : pattern.single = true) : pattern.nullable = false := by
  induction pattern with
  | char accepts => rfl
  | alt first second ihFirst ihSecond =>
    simp only [Pattern.single, Bool.and_eq_true] at single
    rw [nullable, ihFirst single.1, ihSecond single.2]
    rfl
  | empty | seq _ _ _ _ | times _ _ _ _ | notBefore _ _ => cases single

theorem split_single_of_split (single : pattern.single = true)
    (read : pattern.split text = some (taken, rest)) :
    pattern.split (text ++ gone) = some (taken, rest ++ gone) := by
  have filled : text ≠ [] := by
    rintro rfl
    have nothing := (List.append_eq_nil_iff.mp (split_append read).symm).1
    exact absurd nothing (ne_nil_of_split (nullable_of_single single) read)
  rw [split_single single filled, read]
  rfl

theorem split_prompt (prompt : pattern.prompt = true) (read : pattern.split text = some (taken, rest))
    (left : rest ≠ []) : pattern.split (text ++ gone) = some (taken, rest ++ gone) := by
  have refused {body : Pattern} {text : Text} (single : body.single = true) (filled : text ≠ [])
      (none : body.split text = .none) : body.split (text ++ gone) = .none := by
    rw [split_single single filled, none]
    rfl
  induction pattern generalizing text taken rest with
  | empty =>
    cases read
    rfl
  | char accepts => exact split_single_of_split rfl read
  | seq first second ihFirst ihSecond =>
    simp only [Pattern.prompt, Bool.and_eq_true] at prompt
    obtain ⟨before, middle, after, one, two, rfl⟩ := split_seq_iff.mp read
    have leftToo : middle ≠ [] := by
      rw [split_append two]
      exact List.append_ne_nil_of_right_ne_nil _ left
    exact split_seq_iff.mpr
      ⟨before, middle ++ gone, after, ihFirst prompt.1 one leftToo, ihSecond prompt.2 two left, rfl⟩
  | alt first second _ _ =>
    exact @split_single_of_split (.alt first second) _ _ _ _ prompt read
  | times least most body _ =>
    have filled := nullable_of_single prompt
    obtain ⟨pieces, run, enough, rfl⟩ := (split_times_iff filled).mp read
    refine (split_times_iff filled).mpr ⟨pieces, ?_, enough, rfl⟩
    refine run.longer (fun _ _ _ one => split_single_of_split prompt one) ?_
    exact run.halts.imp_right (refused prompt left)
  | notBefore ahead _ =>
    obtain ⟨none, rfl, rfl⟩ := split_notBefore_iff.mp read
    exact split_notBefore_iff.mpr ⟨refused prompt left none, rfl, rfl⟩

/-- A prompt pattern ends where it ended before if something is taken behind it. -/
theorem split_prompt_before (prompt : first.prompt = true) (filled : second.nullable = false)
    {before middle after : Text} (one : first.split text = some (before, middle))
    (two : second.split middle = some (after, rest)) :
    first.split (text ++ gone) = some (before, middle ++ gone) := by
  refine split_prompt prompt one ?_
  rw [split_append two]
  exact List.append_ne_nil_of_left_ne_nil (ne_nil_of_split filled two) _

theorem split_fixed (steady : pattern.steady = true) (fixed : pattern.fixed = true)
    (read : pattern.split text = some (taken, rest)) :
    pattern.split (text ++ gone) = some (taken, rest ++ gone) := by
  induction pattern generalizing text taken rest with
  | empty =>
    cases read
    rfl
  | char accepts => exact split_single_of_split rfl read
  | seq first second ihFirst ihSecond =>
    simp only [Pattern.steady, Bool.and_eq_true] at steady
    simp only [Pattern.fixed, Bool.and_eq_true, Bool.or_eq_true, Bool.not_eq_true'] at fixed
    obtain ⟨before, middle, after, one, two, rfl⟩ := split_seq_iff.mp read
    have first : first.split (text ++ gone) = some (before, middle ++ gone) := by
      rcases fixed.2 with fixed | ⟨prompt, filled⟩
      · exact ihFirst steady.1 fixed one
      · exact split_prompt_before prompt filled one two
    exact split_seq_iff.mpr ⟨before, middle ++ gone, after, first, ihSecond steady.2 fixed.1 two, rfl⟩
  | alt first second _ _ =>
    exact @split_single_of_split (.alt first second) _ _ _ _ fixed read
  | times least most body ih =>
    simp only [Pattern.steady, Bool.and_eq_true, Bool.not_eq_true'] at steady
    simp only [Pattern.fixed, Bool.and_eq_true, beq_iff_eq] at fixed
    obtain ⟨pieces, run, enough, rfl⟩ := (split_times_iff steady.1).mp read
    have full : least = pieces.length := Nat.le_antisymm enough (repeats_length_le run fixed.1)
    refine (split_times_iff steady.1).mpr ⟨pieces, ?_, enough, rfl⟩
    exact run.longer (fun _ _ _ one => ih steady.2 fixed.2 one) (.inl (full ▸ fixed.1))
  | notBefore _ _ => cases fixed

theorem isSome_of_total (total : pattern.total = true) (text : Text) :
    (pattern.split text).isSome = true := by
  induction pattern generalizing text with
  | empty => rfl
  | char _ | notBefore _ _ => cases total
  | seq first second ihFirst ihSecond =>
    simp only [Pattern.total, Bool.and_eq_true] at total
    obtain ⟨⟨before, middle⟩, one⟩ := Option.isSome_iff_exists.mp (ihFirst total.1 text)
    obtain ⟨⟨after, rest⟩, two⟩ := Option.isSome_iff_exists.mp (ihSecond total.2 middle)
    rw [split_seq_iff.mpr ⟨before, middle, after, one, two, rfl⟩]
    rfl
  | alt first second ihFirst ihSecond =>
    simp only [Pattern.total, Bool.or_eq_true] at total
    rw [isSome_split_alt, Bool.or_eq_true]
    exact total.imp (ihFirst · text) (ihSecond · text)
  | times least most body _ =>
    have none : least = 0 := beq_iff_eq.mp total
    rw [split_times, if_pos (none ▸ Nat.zero_le _)]
    rfl

theorem Repeats.length_le {step : Text → Option (Text × Text)} {most : Option Nat}
    {pieces more : List Text} {last : Text}
    (keeps : ∀ text piece middle, step text = some (piece, middle) →
      step (text ++ gone) = some (piece, middle ++ gone))
    (run : Repeats step most text pieces rest) (longer : Repeats step most (text ++ gone) more last) :
    pieces.length ≤ more.length := by
  induction run generalizing more last with
  | stop _ => exact Nat.zero_le _
  | more room read _ ih =>
    cases longer with
    | stop halt =>
      rcases halt with full | refused
      · exact absurd full room
      · rw [keeps _ _ _ read] at refused
        cases refused
    | more _ readToo others =>
      rw [keeps _ _ _ read] at readToo
      cases readToo
      exact Nat.succ_le_succ (ih others)

theorem grows_of_grows (steady : pattern.steady = true) (grows : pattern.grows = true) :
    pattern.Grows := by
  induction pattern with
  | empty => exact fun _ _ _ => rfl
  | char accepts =>
    intro text gone reads
    obtain ⟨⟨taken, rest⟩, read⟩ := Option.isSome_iff_exists.mp reads
    rw [split_single_of_split rfl read]
    rfl
  | seq first second ihFirst ihSecond =>
    simp only [Pattern.steady, Bool.and_eq_true] at steady
    simp only [Pattern.grows, Bool.or_eq_true, Bool.and_eq_true, Bool.not_eq_true'] at grows
    intro text gone reads
    obtain ⟨⟨taken, rest⟩, read⟩ := Option.isSome_iff_exists.mp reads
    obtain ⟨before, middle, after, one, two, rfl⟩ := split_seq_iff.mp read
    -- Either the second part reads anywhere, or the first part ends where it ended before.
    have parts : ∃ before middle, first.split (text ++ gone) = some (before, middle) ∧
        (second.split middle).isSome = true := by
      rcases grows with ⟨grows, total⟩ | ⟨grows, either⟩
      · have reads := ihFirst steady.1 grows text gone (by rw [one]; rfl)
        obtain ⟨⟨before, middle⟩, one⟩ := Option.isSome_iff_exists.mp reads
        exact ⟨before, middle, one, isSome_of_total total middle⟩
      · refine ⟨before, middle ++ gone, ?_, ihSecond steady.2 grows middle gone (by rw [two]; rfl)⟩
        rcases either with fixed | ⟨prompt, filled⟩
        · exact split_fixed steady.1 fixed one
        · exact split_prompt_before prompt filled one two
    obtain ⟨before, middle, one, reads⟩ := parts
    obtain ⟨⟨after, rest⟩, two⟩ := Option.isSome_iff_exists.mp reads
    rw [split_seq_iff.mpr ⟨before, middle, after, one, two, rfl⟩]
    rfl
  | alt first second ihFirst ihSecond =>
    simp only [Pattern.steady, Bool.and_eq_true] at steady
    simp only [Pattern.grows, Bool.and_eq_true] at grows
    intro text gone reads
    rw [isSome_split_alt, Bool.or_eq_true] at reads ⊢
    exact reads.imp (ihFirst steady.1 grows.1 text gone) (ihSecond steady.2 grows.2 text gone)
  | times least most body _ =>
    simp only [Pattern.steady, Bool.and_eq_true, Bool.not_eq_true'] at steady
    simp only [Pattern.grows, Bool.or_eq_true] at grows
    intro text gone reads
    rcases grows with none | fixed
    · exact @isSome_of_total (.times least most body) none _
    · obtain ⟨⟨taken, rest⟩, read⟩ := Option.isSome_iff_exists.mp reads
      obtain ⟨pieces, run, enough, rfl⟩ := (split_times_iff steady.1).mp read
      -- A longer text may have more pieces, so the run is not the same, but it has no fewer of them.
      have longer := repeats_repeatSplit (shrinks_split steady.1) (text ++ gone) most (text ++ gone)
        (Nat.le_refl _)
      have more := run.length_le (fun _ _ _ one => split_fixed steady.2 fixed one) longer
      rw [split_times, if_pos (Nat.le_trans enough more)]
      rfl
  | notBefore _ _ => cases grows

theorem Grows.eq_none (grows : pattern.Grows) (refused : pattern.split (text ++ gone) = none) :
    pattern.split text = none := by
  cases read : pattern.split text with
  | none => rfl
  | some found =>
    have longer := grows text gone (by rw [read]; rfl)
    rw [refused] at longer
    cases longer

end Longer

section Shorter

theorem firm_of_firm (steady : pattern.steady = true) (firm : pattern.firm = true)
    (follow : UriChar → Bool) : pattern.Firm follow := by
  induction pattern generalizing follow with
  | empty | char _ => trivial
  | seq first second ihFirst ihSecond =>
    simp only [Pattern.steady, Bool.and_eq_true] at steady
    simp only [Pattern.firm, Bool.and_eq_true] at firm
    exact ⟨ihFirst steady.1 firm.1 _, ihSecond steady.2 firm.2 follow⟩
  | alt first second ihFirst ihSecond =>
    simp only [Pattern.steady, Bool.and_eq_true] at steady
    simp only [Pattern.firm, Bool.and_eq_true] at firm
    exact ⟨⟨ihFirst steady.1 firm.1.1 follow, ihSecond steady.2 firm.1.2 follow⟩,
      .inl (grows_of_grows steady.1 firm.2)⟩
  | times least most body ih =>
    simp only [Pattern.steady, Bool.and_eq_true] at steady
    simp only [Pattern.firm, Bool.and_eq_true] at firm
    exact ⟨ih steady.2 firm.1 _, .inl (grows_of_grows steady.2 firm.2)⟩
  | notBefore ahead _ => exact grows_of_grows steady firm

theorem Repeats.cut {body : Pattern} {most : Option Nat} {pieces : List Text} (steady : body.steady = true)
    (filled : body.nullable = false)
    (keeps : ∀ text piece middle, body.split (text ++ gone) = some (piece, middle ++ gone) →
      HeadIn (fun character => body.leads character || follow character) middle →
        body.split text = some (piece, middle))
    (halts : ∀ text, HeadIn follow text → body.split (text ++ gone) = none → body.split text = none)
    (run : Repeats body.split most (text ++ gone) pieces (rest ++ gone)) (here : HeadIn follow rest) :
    Repeats body.split most text pieces rest := by
  generalize whole : text ++ gone = source at run
  generalize ends : rest ++ gone = left at run
  induction run generalizing text with
  | stop halt =>
    subst whole
    obtain rfl := List.append_cancel_right ends
    exact .stop (halt.imp_right (halts _ here))
  | @more most source piece middle left pieces room read others ih =>
    subst whole ends
    have onward : middle = pieces.flatten ++ rest ++ gone := by
      rw [others.append, List.append_assoc]
    subst onward
    refine .more room (keeps _ _ _ read fun character head => ?_) (ih rfl rfl)
    rw [Bool.or_eq_true]
    cases others with
    | stop _ => exact .inr (here character head)
    | @more _ _ piece _ _ pieces _ next _ =>
      obtain ⟨first, tail, rfl⟩ := List.exists_cons_of_ne_nil (ne_nil_of_split filled next)
      cases head
      exact .inl (leads_of_split steady next)

/-- A firm pattern takes from a text that is cut off what it took from the whole one. -/
theorem split_cut (steady : pattern.steady = true) (firm : pattern.Firm follow)
    (read : pattern.split (text ++ gone) = some (taken, rest ++ gone)) (here : HeadIn follow rest) :
    pattern.split text = some (taken, rest) := by
  induction pattern generalizing text taken rest follow with
  | empty =>
    obtain ⟨rfl, same⟩ := Prod.mk.inj (Option.some.inj read)
    rw [List.append_cancel_right same]
    rfl
  | char accepts =>
    obtain ⟨character, accepted, rfl, same⟩ := split_char_iff.mp read
    obtain rfl := List.append_cancel_right (same.trans (List.cons_append).symm)
    exact split_char_iff.mpr ⟨character, accepted, rfl, rfl⟩
  | seq first second ihFirst ihSecond =>
    simp only [Pattern.steady, Bool.and_eq_true] at steady
    obtain ⟨before, middle, after, one, two, rfl⟩ := split_seq_iff.mp read
    have onward := split_append two
    rw [← List.append_assoc] at onward
    subst onward
    -- What the second part takes, or what follows it, is what may follow the first part.
    have next := here.append (mem_language_of_split steady.2 two)
    exact split_seq_iff.mpr
      ⟨before, after ++ rest, after, ihFirst steady.1 firm.1 one next, ihSecond steady.2 firm.2 two here, rfl⟩
  | alt first second ihFirst ihSecond =>
    simp only [Pattern.steady, Bool.and_eq_true] at steady
    obtain ⟨⟨firmFirst, firmSecond⟩, either⟩ := firm
    rcases split_alt_iff.mp read with one | ⟨refused, two⟩
    · exact split_alt_iff.mpr (.inl (ihFirst steady.1 firmFirst one here))
    · have again := ihSecond steady.2 firmSecond two here
      refine split_alt_iff.mpr (.inr ⟨?_, again⟩)
      rcases either with grows | excludes
      · exact grows.eq_none refused
      · exact excludes _ _ _ again
  | times least most body ih =>
    simp only [Pattern.steady, Bool.and_eq_true, Bool.not_eq_true'] at steady
    obtain ⟨pieces, run, enough, rfl⟩ := (split_times_iff steady.1).mp read
    refine (split_times_iff steady.1).mpr ⟨pieces, ?_, enough, rfl⟩
    refine run.cut steady.2 steady.1 (fun _ _ _ => ih steady.2 firm.1) (fun text here refused => ?_) here
    -- One more piece would come back behind the last one only if the body looked at what is cut off.
    rcases firm.2 with grows | apart
    · exact grows.eq_none refused
    · exact split_eq_none_of_head steady.2 steady.1 fun character head =>
        apart character (here character head)
  | notBefore ahead _ =>
    obtain ⟨refused, rfl, same⟩ := split_notBefore_iff.mp read
    exact split_notBefore_iff.mpr ⟨Grows.eq_none firm refused, rfl, List.append_cancel_right same⟩

end Shorter

end ODataLiteral.Pattern
