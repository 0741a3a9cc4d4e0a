import ODataLiteral.Proofs.Literal.String
import ODataLiteral.Proofs.Pattern.Calendar
import ODataLiteral.Proofs.Rule.Longest

/-! Durations. A number belongs to the unit whose designator comes after its digits, so it is not the next character
that decides whether a unit is there but the first one after the number. The time of a duration is therefore looked at
as a row of amounts with designators. The part for a unit takes an amount of that unit and refuses every other one, so
the loop over the units that are left reads the rows in which the units keep their order, and no other row. -/
namespace ODataLiteral

open Abnf (Derives)
open Pattern

namespace Abnf

/-- `1*DIGIT` and the designator of a unit. -/
def measured (unit : Char) : Language UriChar :=
  repeated 1 none digit * raw (· == unit.toUInt8)

/-- `1*DIGIT [ "." 1*DIGIT ] "S"`. -/
def measuredSeconds : Language UriChar :=
  repeated 1 none digit * optional (raw (· == '.'.toUInt8) * repeated 1 none digit) * raw (· == 'S'.toUInt8)

/-- `"T" [ 1*DIGIT "H" ] [ 1*DIGIT "M" ] [ 1*DIGIT [ "." 1*DIGIT ] "S" ]`. -/
def durationTime : Language UriChar :=
  raw (· == 'T'.toUInt8) * optional (measured 'H') * optional (measured 'M') * optional measuredSeconds

/-- Days and a time, of which at least one is there. -/
def durationParts : Language UriChar :=
  { text : Text | text ∈ optional (measured 'D') * optional durationTime ∧ text ≠ [] }

/-- `duration = "duration" SQUOTE [ SIGN ] "P" [ 1*DIGIT "D" ] [ time ] SQUOTE`. -/
def duration : Language UriChar :=
  word "duration" * singleQuote * optional sign * raw (· == 'P'.toUInt8) * durationParts * singleQuote

end Abnf

namespace Pattern

theorem language_components (left : List Pattern) : (components left).language =
    left.foldr (fun unit later => Abnf.optional unit.language * later) 1 := by
  induction left with
  | nil => rfl
  | cons unit later ih =>
    have unfolded : (components (unit :: later)).language =
        unit.language * (components later).language + (components later).language := rfl
    rw [unfolded, List.foldr_cons, ← ih, Abnf.optional_eq, add_mul, one_mul]

theorem language_measuredSeconds : measuredSeconds.language = Abnf.measuredSeconds :=
  (mul_assoc _ _ _).symm

theorem language_durationTime : (plain 'T' ++ timeComponents).language = Abnf.durationTime := by
  have unfolded : (plain 'T' ++ timeComponents).language =
      Abnf.raw (· == 'T'.toUInt8) * timeComponents.language := rfl
  rw [unfolded, timeComponents, language_components, Abnf.durationTime, ← language_measuredSeconds, mul_assoc,
    mul_assoc]
  simp only [List.foldr_cons, List.foldr_nil, mul_one]
  rfl

theorem language_durationParts : durationParts.language = Abnf.durationParts := by
  have unfolded : durationParts.language = Abnf.measured 'D' * Abnf.optional Abnf.durationTime +
      Abnf.durationTime := by
    rw [← language_durationTime]
    exact congrArg (Abnf.measured 'D' * · + (plain 'T' ++ timeComponents).language) (language_whenLedBy _ _)
  ext text
  rw [unfolded, Language.mem_add]
  constructor
  · rintro (⟨days, day, time, timed, rfl⟩ | timed)
    · have filled : days ≠ [] := ne_nil_of_mem (show (measured 'D').nullable = false from rfl) day
      exact ⟨Language.append_mem_mul (Abnf.mem_optional.mpr (.inr day)) timed,
        List.append_ne_nil_of_left_ne_nil filled _⟩
    · have filled : text ≠ [] :=
        ne_nil_of_mem (show (plain 'T' ++ timeComponents).nullable = false from rfl) (language_durationTime ▸ timed)
      exact ⟨⟨[], Abnf.mem_optional.mpr (.inl rfl), text, Abnf.mem_optional.mpr (.inr timed), rfl⟩, filled⟩
  · rintro ⟨⟨days, day, time, timed, rfl⟩, filled⟩
    rcases Abnf.mem_optional.mp day with rfl | day
    · rcases Abnf.mem_optional.mp timed with rfl | timed
      · exact absurd rfl filled
      · exact .inr timed
    · exact .inl (Language.append_mem_mul day timed)

theorem language_duration : Pattern.duration.language = Abnf.duration := by
  have unfolded : Pattern.duration.language = (word "duration").language * quote.language *
      Abnf.optional sign.language * Abnf.raw (· == 'P'.toUInt8) * durationParts.language * quote.language := rfl
  rw [unfolded, language_word, quote, language_delimiter, Grammar.language_sign, language_durationParts]
  rfl

end Pattern

namespace Duration

def IsNumber (row : Text) : Prop :=
  row ≠ [] ∧ ∀ character ∈ row, character.isDigit = true

/-- A number with the decimals that it may have. -/
structure Amount where
  whole : Text
  decimals : Option Text
  number : IsNumber whole
  fraction : ∀ row, decimals = some row → IsNumber row

/-- An amount, and a character that ends it. -/
structure Component where
  amount : Amount
  designator : UriChar
  ends : designator.isDigit = false ∧ designator ≠ .plain '.'.toUInt8

def Amount.text (amount : Amount) : Text :=
  amount.whole ++ amount.decimals.elim [] (.plain '.'.toUInt8 :: ·)

def Component.text (component : Component) : Text :=
  component.amount.text ++ [component.designator]

/-- A component of a unit. Only seconds have decimals. -/
def Component.isOf (component : Component) (unit : UriChar) : Bool :=
  component.designator == unit && (component.amount.decimals.isNone || unit == .plain 'S'.toUInt8)

/-- Some of the units, each with one component, in their order. -/
def InOrder (components : List Component) (units : List UriChar) : Prop :=
  (components.map (·.designator)).Sublist units ∧
    ∀ component ∈ components, component.amount.decimals.isSome = true → component.designator = .plain 'S'.toUInt8

section Order

variable {component : Component} {components others : List Component} {unit : UriChar} {units : List UriChar}

theorem Component.isOf_iff : component.isOf unit = true ↔
    component.designator = unit ∧
      (component.amount.decimals.isSome = true → component.designator = .plain 'S'.toUInt8) := by
  rw [isOf, Bool.and_eq_true_iff, beq_iff_eq, Bool.or_eq_true_iff, beq_iff_eq]
  refine and_congr_right fun designated => ?_
  rw [designated]
  cases component.amount.decimals <;> simp

theorem inOrder_nil_iff : InOrder components [] ↔ components = [] := by
  constructor
  · rintro ⟨few, _⟩
    exact List.map_eq_nil_iff.mp (List.sublist_nil.mp few)
  · rintro rfl
    exact ⟨List.Sublist.refl _, List.forall_mem_nil _⟩

theorem InOrder.skip (order : InOrder components units) : InOrder components (unit :: units) :=
  ⟨order.1.cons unit, order.2⟩

theorem InOrder.cons (order : InOrder components units) (own : component.isOf unit = true) :
    InOrder (component :: components) (unit :: units) := by
  obtain ⟨rfl, decimals⟩ := Component.isOf_iff.mp own
  exact ⟨order.1.cons_cons _, List.forall_mem_cons.mpr ⟨decimals, order.2⟩⟩

/-- Components are in the order of some units if the first one is of one of them, and the others are in the order of the
units behind that one. -/
theorem inOrder_cons_iff : InOrder (component :: others) units ↔
    ∃ place, units.findIdx? component.isOf = some place ∧ InOrder others (units.drop (place + 1)) := by
  induction units with
  | nil => simp [inOrder_nil_iff]
  | cons unit units ih =>
    rw [List.findIdx?_cons]
    split
    · rename_i own
      simp only [Option.some_inj, exists_eq_left', List.drop_succ_cons, List.drop_zero]
      refine ⟨fun order => ?_, fun order => order.cons own⟩
      obtain ⟨few, decimals⟩ := order
      rw [List.map_cons, (Component.isOf_iff.mp own).1, List.cons_sublist_cons] at few
      exact ⟨few, (List.forall_mem_cons.mp decimals).2⟩
    · rename_i other
      have skipped : InOrder (component :: others) (unit :: units) ↔ InOrder (component :: others) units := by
        refine ⟨fun order => ⟨?_, order.2⟩, InOrder.skip⟩
        rcases List.sublist_cons_iff.mp order.1 with few | ⟨_, same, _⟩
        · exact few
        · exact absurd (Component.isOf_iff.mpr
            ⟨(List.cons.inj same).1, (List.forall_mem_cons.mp order.2).1⟩) other
      simp [skipped, ih]

end Order

section Texts

variable {component : Component} {components : List Component} {unit : UriChar} {units : List UriChar}
  {text row tail : Text}

theorem Component.text_append (component : Component) (tail : Text) : component.text ++ tail =
    component.amount.whole ++
      (component.amount.decimals.elim [] (.plain '.'.toUInt8 :: ·) ++ component.designator :: tail) := by
  rw [text, Amount.text, List.append_assoc, List.append_assoc]
  rfl

theorem mem_number_iff : row ∈ Abnf.repeated 1 none Abnf.digit ↔ IsNumber row := by
  rw [Abnf.digit, Abnf.raw, Abnf.mem_repeated_character, IsNumber, ← List.length_pos_iff]
  constructor
  · rintro ⟨filled, _, digits⟩
    exact ⟨filled, digits⟩
  · rintro ⟨filled, digits⟩
    refine ⟨filled, ?_, digits⟩
    rintro _ ⟨⟩

theorem component_of_measured (letter : Char)
    (ends : Octet.isDigit letter.toUInt8 = false ∧ letter.toUInt8 ≠ '.'.toUInt8)
    (member : text ∈ Abnf.measured letter) :
    ∃ component : Component, component.isOf (.plain letter.toUInt8) = true ∧ text = component.text := by
  obtain ⟨row, digits, _, designator, rfl⟩ := member
  obtain ⟨octet, same, rfl⟩ := Abnf.mem_raw.mp designator
  obtain rfl := beq_iff_eq.mp same
  refine ⟨⟨⟨row, none, mem_number_iff.mp digits, ?_⟩, .plain letter.toUInt8, ends.1, ?_⟩, ?_, ?_⟩
  · rintro _ ⟨⟩
  · exact fun point => ends.2 (UriChar.plain.inj point)
  · simp [Component.isOf]
  · simp [Component.text, Amount.text]

theorem component_of_measuredSeconds (member : text ∈ Abnf.measuredSeconds) :
    ∃ component : Component, component.isOf (.plain 'S'.toUInt8) = true ∧ text = component.text := by
  obtain ⟨_, ⟨row, digits, _, fraction, rfl⟩, _, designator, rfl⟩ := member
  obtain ⟨octet, same, rfl⟩ := Abnf.mem_raw.mp designator
  obtain rfl := beq_iff_eq.mp same
  have ends : (UriChar.plain 'S'.toUInt8).isDigit = false ∧ UriChar.plain 'S'.toUInt8 ≠ .plain '.'.toUInt8 := by
    decide
  rcases Abnf.mem_optional.mp fraction with rfl | ⟨_, point, decimals, digitsToo, rfl⟩
  · refine ⟨⟨⟨row, none, mem_number_iff.mp digits, ?_⟩, _, ends⟩, ?_, ?_⟩
    · rintro _ ⟨⟩
    · simp [Component.isOf]
    · simp [Component.text, Amount.text]
  · obtain ⟨octet, same, rfl⟩ := Abnf.mem_raw.mp point
    obtain rfl := beq_iff_eq.mp same
    refine ⟨⟨⟨row, some decimals, mem_number_iff.mp digits, ?_⟩, _, ends⟩, ?_, ?_⟩
    · rintro _ ⟨⟩
      exact mem_number_iff.mp digitsToo
    · simp [Component.isOf]
    · simp [Component.text, Amount.text]

/-- An amount begins with a digit. -/
theorem Amount.head_digit (amount : Amount) (tail : Text) :
    ∃ head others, amount.text ++ tail = head :: others ∧ head.isDigit = true := by
  obtain ⟨head, others, same⟩ := List.exists_cons_of_ne_nil amount.number.1
  have digit := amount.number.2 head (same ▸ List.mem_cons_self)
  refine ⟨head, others ++ (amount.decimals.elim [] (.plain '.'.toUInt8 :: ·) ++ tail), ?_, digit⟩
  rw [text, same, List.append_assoc, List.cons_append]

end Texts

section Reading

variable {body : Pattern} {component : Component} {components : List Component} {loose : Option Amount}
  {units : List UriChar} {closing : UriChar} {row text tail rest : Text}

/-- A part of a time: it takes a component of its unit, and nothing where another one or none stands. -/
structure Measures (body : Pattern) (unit : UriChar) : Prop where
  texts : ∀ text ∈ body.language, ∃ component : Component, component.isOf unit = true ∧ text = component.text
  takes : ∀ component : Component, component.isOf unit = true → ∀ tail,
    body.split (component.text ++ tail) = some (component.text, tail)
  passes : ∀ component : Component, component.isOf unit = false → ∀ tail, body.split (component.text ++ tail) = none
  starts : ∀ tail, HeadIn (fun character => !character.isDigit) tail → body.split tail = none

theorem split_number (number : IsNumber row) (ends : HeadIn (fun character => !character.isDigit) tail) :
    (atLeast 1 digit).split (row ++ tail) = some (row, tail) := by
  refine split_row_iff.mpr ⟨rfl, List.length_pos_iff.mpr number.1, number.2, ?_, .inr fun character next => ?_⟩
  · rintro _ ⟨⟩
  · exact Bool.eq_false_of_not_eq_true' (ends character next)

theorem split_plain (letter : Char) (tail : Text) :
    (plain letter).split (.plain letter.toUInt8 :: tail) = some ([.plain letter.toUInt8], tail) :=
  split_char_iff.mpr ⟨.plain letter.toUInt8, beq_self_eq_true letter.toUInt8, rfl, rfl⟩

theorem number_refuses (next : HeadIn (fun character => !character.isDigit) tail) :
    (atLeast 1 digit).split tail = none :=
  split_eq_none_of_head rfl rfl fun character first => Bool.eq_false_of_not_eq_true' (next character first)

theorem refused_of_number (more : Pattern) (next : HeadIn (fun character => !character.isDigit) tail) :
    (atLeast 1 digit ++ more).split tail = none := by
  rw [append_eq_seq, split_seq, number_refuses next]

/-- After the digits of a component comes its point or its designator. -/
theorem Component.split_whole (component : Component) (tail : Text) :
    (atLeast 1 digit).split (component.text ++ tail) = some (component.amount.whole,
      component.amount.decimals.elim [] (.plain '.'.toUInt8 :: ·) ++ component.designator :: tail) := by
  rw [component.text_append]
  refine split_number component.amount.number fun character next => ?_
  cases decimals : component.amount.decimals with
  | none =>
    rw [decimals] at next
    cases next
    exact congrArg not component.ends.1
  | some row =>
    rw [decimals] at next
    cases next
    rfl

theorem measured_measures (letter : Char)
    (ends : Octet.isDigit letter.toUInt8 = false ∧ letter.toUInt8 ≠ '.'.toUInt8)
    (whole : letter.toUInt8 ≠ 'S'.toUInt8) :
    Measures (measured letter) (.plain letter.toUInt8) where
  texts _ member := component_of_measured letter ends member
  takes component own tail := by
    obtain ⟨designated, seconds⟩ := Component.isOf_iff.mp own
    have none : component.amount.decimals = none := by
      refine Option.not_isSome_iff_eq_none.mp fun fraction => whole ?_
      exact UriChar.plain.inj (designated.symm.trans (seconds fraction))
    have number := component.split_whole tail
    rw [none, designated] at number
    refine split_seq_iff.mpr ⟨_, _, [.plain letter.toUInt8], number, split_plain letter tail, ?_⟩
    rw [Component.text, Amount.text, none, designated, Option.elim_none, List.append_nil]
  passes component other tail := by
    rw [Option.eq_none_iff_forall_ne_some]
    rintro ⟨taken, rest⟩ read
    obtain ⟨_, _, _, one, two, _⟩ := split_seq_iff.mp read
    cases (component.split_whole tail).symm.trans one
    obtain ⟨character, accepted, _, same⟩ := split_char_iff.mp two
    obtain rfl := UriChar.eq_plain accepted
    cases decimals : component.amount.decimals with
    | none =>
      rw [decimals] at same
      have designated : component.designator = .plain letter.toUInt8 := (List.cons.inj same).1
      simp [Component.isOf, designated, decimals] at other
    | some row =>
      rw [decimals] at same
      exact ends.2 (UriChar.plain.inj (List.cons.inj same).1).symm
  starts _ next := refused_of_number _ next

theorem Component.split_decimals (component : Component) (tail : Text) :
    (optional (plain '.' ++ atLeast 1 digit)).split
        (component.amount.decimals.elim [] (.plain '.'.toUInt8 :: ·) ++ component.designator :: tail) =
      some (component.amount.decimals.elim [] (.plain '.'.toUInt8 :: ·), component.designator :: tail) := by
  rw [split_optional_iff rfl]
  cases decimals : component.amount.decimals with
  | none =>
    refine .inr ⟨?_, rfl, rfl⟩
    rw [append_eq_seq, Option.eq_none_iff_forall_ne_some]
    rintro ⟨taken, rest⟩ read
    obtain ⟨_, _, _, point, _, _⟩ := split_seq_iff.mp read
    obtain ⟨character, accepted, _, same⟩ := split_char_iff.mp point
    exact component.ends.2 ((List.cons.inj same).1.trans (UriChar.eq_plain accepted))
  | some row =>
    have ends : HeadIn (fun character => !character.isDigit) (component.designator :: tail) := by
      rintro _ ⟨⟩
      exact congrArg not component.ends.1
    have number := split_number (component.amount.fraction row decimals) ends
    exact .inl (split_seq_iff.mpr ⟨[.plain '.'.toUInt8], _, row, split_plain '.' _, number, rfl⟩)

theorem measuredSeconds_measures : Measures measuredSeconds (.plain 'S'.toUInt8) where
  texts _ member := component_of_measuredSeconds (language_measuredSeconds ▸ member)
  takes component own tail := by
    have designated : component.designator = .plain 'S'.toUInt8 := (Component.isOf_iff.mp own).1
    have decimals := component.split_decimals tail
    rw [designated] at decimals
    have behind := split_seq_iff.mpr ⟨_, _, [.plain 'S'.toUInt8], decimals, split_plain 'S' tail, rfl⟩
    rw [← designated] at behind
    refine split_seq_iff.mpr ⟨_, _, _, component.split_whole tail, behind, ?_⟩
    rw [Component.text, Amount.text, List.append_assoc, designated]
  passes component other tail := by
    rw [Option.eq_none_iff_forall_ne_some]
    rintro ⟨taken, rest⟩ read
    obtain ⟨_, _, _, one, behind, _⟩ := split_seq_iff.mp read
    cases (component.split_whole tail).symm.trans one
    obtain ⟨_, _, _, two, last, _⟩ := split_seq_iff.mp behind
    cases (component.split_decimals tail).symm.trans two
    obtain ⟨character, accepted, _, same⟩ := split_char_iff.mp last
    obtain rfl := UriChar.eq_plain accepted
    have designated : component.designator = .plain 'S'.toUInt8 := (List.cons.inj same).1
    simp [Component.isOf, designated] at other
  starts _ next := refused_of_number _ next

section Components

variable {left : List Pattern}

theorem exists_components (measures : List.Forall₂ Measures left units)
    (member : text ∈ (Pattern.components left).language) :
    ∃ components, InOrder components units ∧ text = components.flatMap Component.text := by
  induction measures generalizing text with
  | nil =>
    obtain rfl := (Language.mem_one _).mp member
    exact ⟨[], inOrder_nil_iff.mpr rfl, rfl⟩
  | cons first _ ih =>
    rcases (Language.mem_add _ _ _).mp member with ⟨one, here, more, later, rfl⟩ | later
    · obtain ⟨component, own, rfl⟩ := first.texts one here
      obtain ⟨components, order, rfl⟩ := ih later
      exact ⟨component :: components, order.cons own, List.flatMap_cons.symm⟩
    · obtain ⟨components, order, rfl⟩ := ih later
      exact ⟨components, order.skip, rfl⟩

/-- Where no number follows the loop ends. -/
theorem components_end (measures : List.Forall₂ Measures left units)
    (ends : HeadIn (fun character => !character.isDigit) tail) :
    (Pattern.components left).split tail = some ([], tail) := by
  induction measures with
  | nil => exact split_notBefore_char_iff.mpr ⟨ends, rfl, rfl⟩
  | cons first _ ih => exact split_alt_iff.mpr (.inr ⟨split_seq_of_refused (first.starts _ ends), ih⟩)

theorem components_refuse_other (measures : List.Forall₂ Measures left units)
    (other : ∀ unit ∈ units, component.isOf unit = false) (tail : Text) :
    (Pattern.components left).split (component.text ++ tail) = none := by
  induction measures with
  | nil =>
    rw [Component.text, List.append_assoc]
    obtain ⟨head, more, same, digit⟩ := component.amount.head_digit ([component.designator] ++ tail)
    have present : Pattern.digit.split (head :: more) = some ([head], more) := if_pos digit
    rw [same, Pattern.components, split_notBefore, present]
    rfl
  | @cons body unit later _ first _ ih =>
    obtain ⟨here, behind⟩ := List.forall_mem_cons.mp other
    have front : (body ++ Pattern.components later).split (component.text ++ tail) = none :=
      split_seq_of_refused (first.passes component here tail)
    rw [Pattern.components, orElse_eq_alt, split_alt, front, ih behind]
    rfl

/-- One round of the loop: the unit of a component is looked up among those that are left, and only the units behind it
are left for the components that follow. -/
theorem split_components_cons (measures : List.Forall₂ Measures left units) (distinct : units.Nodup)
    (component : Component) (tail : Text) :
    (Pattern.components left).split (component.text ++ tail) =
      (units.findIdx? component.isOf).bind fun place =>
        ((Pattern.components (left.drop (place + 1))).split tail).map fun (taken, rest) =>
          (component.text ++ taken, rest) := by
  induction measures with
  | nil => exact components_refuse_other .nil (List.forall_mem_nil _) tail
  | @cons body unit later units first more ih =>
    obtain ⟨fresh, distinct⟩ := List.nodup_cons.mp distinct
    rw [Pattern.components, orElse_eq_alt, split_alt, append_eq_seq, split_seq, List.findIdx?_cons]
    by_cases own : component.isOf unit = true
    · -- No later unit is this one, so a failure behind the component is final.
      have alone : (Pattern.components later).split (component.text ++ tail) = none := by
        refine components_refuse_other more (fun another member => ?_) tail
        by_contra alike
        have same := (Component.isOf_iff.mp (Bool.eq_true_of_not_eq_false alike)).1
        rw [(Component.isOf_iff.mp own).1] at same
        exact fresh (same ▸ member)
      rw [first.takes component own tail, alone, if_pos own, Option.or_none, Option.bind_some, List.drop_succ_cons,
        List.drop_zero]
    · rw [first.passes component (Bool.eq_false_of_not_eq_true own) tail, if_neg own, Option.bind_map]
      exact ih distinct

/-- Components in the order of the units that are left are taken one after another. -/
theorem split_components (measures : List.Forall₂ Measures left units) (distinct : units.Nodup)
    (order : InOrder components units) (ends : HeadIn (fun character => !character.isDigit) tail) :
    (Pattern.components left).split (components.flatMap Component.text ++ tail) =
      some (components.flatMap Component.text, tail) := by
  induction components generalizing left units with
  | nil => exact components_end measures ends
  | cons component others ih =>
    obtain ⟨place, found, order⟩ := inOrder_cons_iff.mp order
    have behind := ih (List.forall₂_drop (place + 1) measures) (distinct.sublist (List.drop_sublist _ _)) order
    rw [List.flatMap_cons, List.append_assoc, split_components_cons measures distinct, found, Option.bind_some, behind]
    rfl

/-- Where a component is out of order nothing is read, whatever stands behind the components. -/
theorem components_refuse (measures : List.Forall₂ Measures left units) (distinct : units.Nodup)
    (misplaced : ¬ InOrder components units) (tail : Text) :
    (Pattern.components left).split (components.flatMap Component.text ++ tail) = none := by
  induction components generalizing left units with
  | nil => exact absurd ⟨List.nil_sublist _, List.forall_mem_nil _⟩ misplaced
  | cons component others ih =>
    rw [List.flatMap_cons, List.append_assoc, split_components_cons measures distinct]
    cases found : units.findIdx? component.isOf with
    | none => rfl
    | some place =>
      have behind := ih (List.forall₂_drop (place + 1) measures) (distinct.sublist (List.drop_sublist _ _))
        fun order => misplaced (inOrder_cons_iff.mpr ⟨place, found, order⟩)
      rw [Option.bind_some, behind]
      rfl

end Components

def timeUnits : List UriChar :=
  [.plain 'H'.toUInt8, .plain 'M'.toUInt8, .plain 'S'.toUInt8]

theorem timeUnits_nodup : timeUnits.Nodup := by
  decide

theorem timeComponents_measure :
    List.Forall₂ Measures [measured 'H', measured 'M', measuredSeconds] timeUnits :=
  .cons (measured_measures 'H' (by decide) (by decide))
    (.cons (measured_measures 'M' (by decide) (by decide)) (.cons measuredSeconds_measures .nil))

theorem quote_not_digit (isQuote : closing.isDelimiter '\'' = true) : closing.isDigit = false :=
  UriChar.Apart.symm (plain_apart_delimiter rfl) closing isQuote

theorem timeComponents_takes : timeComponents.Takes (UriChar.isDelimiter '\'') := by
  intro text member tail here
  obtain ⟨components, order, rfl⟩ := exists_components timeComponents_measure member
  exact split_components timeComponents_measure timeUnits_nodup order
    (here.mono fun character isQuote => congrArg not (quote_not_digit isQuote))

/-- With the closing quote as its designator a loose number is a component, but of none of the units. -/
theorem timeComponents_refuse (isQuote : closing.isDelimiter '\'' = true)
    (wrong : ¬ (loose = none ∧ InOrder components timeUnits)) :
    timeComponents.split (components.flatMap Component.text ++ (loose.elim [] Amount.text ++ closing :: rest)) =
      none := by
  cases loose with
  | none => exact components_refuse timeComponents_measure timeUnits_nodup (fun order => wrong ⟨rfl, order⟩) _
  | some amount =>
    have notPoint : closing ≠ .plain '.'.toUInt8 := by
      rintro rfl
      cases isQuote
    let last : Component := ⟨amount, closing, quote_not_digit isQuote, notPoint⟩
    have misplaced : ¬ InOrder (components ++ [last]) timeUnits := by
      rintro ⟨few, _⟩
      have member : closing ∈ timeUnits :=
        few.subset (List.mem_map.mpr ⟨last, List.mem_append_right _ (List.mem_singleton_self _), rfl⟩)
      have units : ∀ unit ∈ timeUnits, unit.isDelimiter '\'' = false := by
        simp only [timeUnits, List.forall_mem_cons]
        exact ⟨rfl, rfl, rfl, List.forall_mem_nil _⟩
      rw [units closing member] at isQuote
      cases isQuote
    have refused := components_refuse timeComponents_measure timeUnits_nodup misplaced rest
    rwa [List.flatMap_append, List.flatMap_singleton, Component.text, List.append_assoc, List.append_assoc,
      List.singleton_append] at refused

theorem days_take : (measured 'D').Takes Grammar.anything := by
  refine takes_of_deterministic rfl ⟨⟨trivial, rfl, .inr ?_⟩, trivial⟩
  exact UriChar.Apart.or (UriChar.Apart.symm (UriChar.apart_plain rfl)) fun _ none => (by cases none)

def heading : Pattern := word "duration" ++ quote ++ optional sign ++ plain 'P'

theorem duration_eq : Pattern.duration = heading ++ durationParts ++ quote := rfl

theorem heading_takes : heading.Takes Grammar.anything := by
  refine takes_of_deterministic (by decide)
    ⟨⟨⟨text_deterministic _ _, trivial⟩, Grammar.sign_deterministic, rfl, .inr ?_⟩, trivial⟩
  exact UriChar.apart_sign rfl rfl fun _ _ => rfl

theorem days_absent (more : Pattern) (tail : Text) :
    (measured 'D' ++ more).split (.plain 'T'.toUInt8 :: tail) = none := by
  have next : HeadIn (fun character => !character.isDigit) (.plain 'T'.toUInt8 :: tail) := by
    rintro _ ⟨⟩
    rfl
  exact split_seq_of_refused (refused_of_number _ next)

theorem durationParts_takes : durationParts.Takes (UriChar.isDelimiter '\'') := by
  have marked : (whenLedBy (plain 'T') timeComponents).Takes (UriChar.isDelimiter '\'') :=
    whenLedBy_takes timeComponents_takes (UriChar.Apart.symm (plain_apart_delimiter rfl))
  have dated := days_take.seq marked fun _ _ => rfl
  have marker : (plain 'T').Takes Grammar.anything := Grammar.takes_char _ _
  refine dated.alt (marker.seq timeComponents_takes fun _ _ => rfl) rfl rfl rfl ?_
  rw [leads_of_filled rfl, leads_of_filled rfl, measured, leads_of_filled rfl]
  exact UriChar.Apart.symm (UriChar.apart_plain rfl)

theorem duration_takes : Pattern.duration.Takes Grammar.anything := by
  have inner := heading_takes.seq durationParts_takes fun _ _ => rfl
  exact inner.seq (Grammar.takes_char (UriChar.isDelimiter '\'') _) fun _ next => leads_of_next rfl next

/-- Behind the `T` it is the components that decide whether days and a time are read. -/
theorem split_durationParts {days : Text} (day : days ∈ Abnf.optional (Abnf.measured 'D')) (more : Text) :
    durationParts.split (days ++ .plain 'T'.toUInt8 :: more) =
      (timeComponents.split more).map fun (taken, rest) => (days ++ .plain 'T'.toUInt8 :: taken, rest) := by
  rw [durationParts, orElse_eq_alt, split_alt]
  rcases Abnf.mem_optional.mp day with rfl | day
  · rw [List.nil_append, days_absent, Option.none_or, append_eq_seq, split_seq, split_plain]
    rfl
  · have dated := days_take days day (.plain 'T'.toUInt8 :: more) fun _ _ => rfl
    have unmarked : (plain 'T' ++ timeComponents).split (days ++ .plain 'T'.toUInt8 :: more) = none := by
      obtain ⟨component, _, rfl⟩ := component_of_measured 'D' (by decide) day
      obtain ⟨head, others, same, digit⟩ := component.amount.head_digit
        ([component.designator] ++ .plain 'T'.toUInt8 :: more)
      rw [Component.text, List.append_assoc, same]
      refine split_seq_of_refused (if_neg fun marker => ?_)
      rw [UriChar.eq_plain marker] at digit
      cases digit
    rw [unmarked, Option.or_none]
    cases read : timeComponents.split more with
    | none =>
      have bound : (whenLedBy (plain 'T') timeComponents).split (.plain 'T'.toUInt8 :: more) = none :=
        whenLedBy_refuses rfl read
      exact split_seq_of_refused_after dated bound
    | some found =>
      have marked : (plain 'T' ++ timeComponents).split (.plain 'T'.toUInt8 :: more) =
          some (.plain 'T'.toUInt8 :: found.1, found.2) :=
        split_seq_iff.mpr ⟨_, _, _, split_plain 'T' more, read, rfl⟩
      exact split_seq_iff.mpr ⟨_, _, _, dated, split_alt_iff.mpr (.inl marked), rfl⟩

theorem isSome_split_duration {front signed days more : Text} (opened : front ∈ (word "duration" ++ quote).language)
    (sign : signed ∈ Abnf.optional Abnf.sign) (day : days ∈ Abnf.optional (Abnf.measured 'D')) :
    (Pattern.duration.split (front ++ (signed ++ .plain 'P'.toUInt8 ::
        (days ++ .plain 'T'.toUInt8 :: more)))).isSome = true ↔
      ∃ taken rest, timeComponents.split more = some (taken, rest) ∧ (quote.split rest).isSome = true := by
  have headed : front ++ signed ++ [.plain 'P'.toUInt8] ∈ heading.language := by
    rw [← Grammar.language_sign] at sign
    exact Language.append_mem_mul (Language.append_mem_mul opened sign) ⟨.plain 'P'.toUInt8, rfl, rfl⟩
  have read := heading_takes _ headed (days ++ .plain 'T'.toUInt8 :: more) fun _ _ => rfl
  rw [List.append_assoc, List.append_assoc, List.singleton_append, List.append_assoc] at read
  simp only [duration_eq, append_eq_seq, split_seq, read, split_durationParts day]
  cases timeComponents.split more with
  | none => simp
  | some found =>
    obtain ⟨taken, rest⟩ := found
    simp

end Reading

end Duration

namespace Grammar

open Duration (Amount Component)

variable {source : Bytes} {offset : Nat} {token : Token}

theorem duration_tokenAt?_iff : duration.tokenAt? source offset = some token ↔
    ∃ stop, stop ≤ source.length ∧ Derives Abnf.duration (source.slice offset stop) ∧
      token = ⟨.literal, ⟨offset, stop⟩, .typed .duration⟩ := by
  have exactly : Pattern.duration.Exactly anything :=
    Duration.duration_takes.exactly (by decide) fun _ _ _ _ _ _ => rfl
  rw [duration, typedLiteral, Rule.tokenAt?_typed_exactly_iff exactly (by decide) (by decide), language_duration]
  constructor
  · rintro ⟨stop, inside, derived, _, rfl⟩
    exact ⟨stop, inside, derived, rfl⟩
  · rintro ⟨stop, inside, derived, rfl⟩
    exact ⟨stop, inside, derived, fun _ _ => rfl, rfl⟩

theorem duration_isSome_iff : (duration.tokenAt? source offset).isSome = true ↔
    (Pattern.duration.split (Text.ofBytes (source.drop offset))).isSome = true := by
  simp only [Option.isSome_iff_exists, Prod.exists]
  constructor
  · rintro ⟨token, found⟩
    obtain ⟨text, rest, split, _⟩ := (Rule.tokenAt?_typed_iff (by decide)).mp found
    exact ⟨text, rest, split⟩
  · rintro ⟨text, rest, split⟩
    exact ⟨_, (Rule.tokenAt?_typed_iff (by decide)).mpr ⟨text, rest, split, rfl⟩⟩

/-- Where components and perhaps a number follow the `T`, all of them are read or nothing is. -/
theorem duration_isSome_iff_inOrder {opening closing : UriChar} {signed days rest : Text}
    {components : List Component} {loose : Option Amount} (opens : opening.isDelimiter '\'' = true)
    (closes : closing.isDelimiter '\'' = true) (sign : signed ∈ Abnf.optional Abnf.sign)
    (day : days ∈ Abnf.optional (Abnf.measured 'D'))
    (stands : Text.ofBytes (source.drop offset) = Text.ofWord "duration" ++ opening :: (signed ++ .plain 'P'.toUInt8 ::
      (days ++ .plain 'T'.toUInt8 :: (components.flatMap Component.text ++
        (loose.elim [] Amount.text ++ closing :: rest))))) :
    (duration.tokenAt? source offset).isSome = true ↔
      loose = none ∧ Duration.InOrder components Duration.timeUnits := by
  have opened : Text.ofWord "duration" ++ [opening] ∈ (word "duration" ++ quote).language := by
    refine Language.append_mem_mul ?_ ⟨opening, opens, rfl⟩
    rw [language_word]
    rfl
  rw [← List.singleton_append, ← List.append_assoc] at stands
  rw [duration_isSome_iff, stands, Duration.isSome_split_duration opened sign day]
  constructor
  · rintro ⟨taken, left, read, _⟩
    by_contra wrong
    rw [Duration.timeComponents_refuse closes wrong] at read
    cases read
  · rintro ⟨rfl, order⟩
    have ends : HeadIn (fun character => !character.isDigit) (closing :: rest) := by
      rintro _ ⟨⟩
      exact congrArg not (Duration.quote_not_digit closes)
    have closed : quote.split (closing :: rest) = some ([closing], rest) := if_pos closes
    exact ⟨_, _, Duration.split_components Duration.timeComponents_measure Duration.timeUnits_nodup order ends,
      Option.isSome_iff_exists.mpr ⟨_, closed⟩⟩

/-- A duration is read where its grammar derives the octets, and no offset starts two of them. So after the `T` the
components that there are must be hours, minutes and seconds in this order, each at most once, only seconds may have
decimals, and no number is without its designator. -/
theorem duration_exact :
    (∀ source offset token, duration.tokenAt? source offset = some token ↔
      ∃ stop, stop ≤ source.length ∧ Derives Abnf.duration (source.slice offset stop) ∧
        token = ⟨.literal, ⟨offset, stop⟩, .typed .duration⟩) ∧
    (∀ (source : Bytes) (offset stop other : Nat),
      stop ≤ source.length ∧ Derives Abnf.duration (source.slice offset stop) →
      other ≤ source.length ∧ Derives Abnf.duration (source.slice offset other) → stop = other) ∧
    ∀ (source : Bytes) (offset : Nat) (opening closing : UriChar) (signed days rest : Text)
      (components : List Component) (loose : Option Amount),
      opening.isDelimiter '\'' = true → closing.isDelimiter '\'' = true →
      signed ∈ Abnf.optional Abnf.sign → days ∈ Abnf.optional (Abnf.measured 'D') →
      Text.ofBytes (source.drop offset) = Text.ofWord "duration" ++ opening :: (signed ++ .plain 'P'.toUInt8 ::
        (days ++ .plain 'T'.toUInt8 :: (components.flatMap Component.text ++
          (loose.elim [] Amount.text ++ closing :: rest)))) →
      ((duration.tokenAt? source offset).isSome = true ↔ loose = none ∧
        (components.map (·.designator)).Sublist
          [.plain 'H'.toUInt8, .plain 'M'.toUInt8, .plain 'S'.toUInt8] ∧
        ∀ component ∈ components,
          component.amount.decimals.isSome = true → component.designator = .plain 'S'.toUInt8) := by
  refine ⟨fun _ _ _ => duration_tokenAt?_iff, fun source offset stop other one two => ?_, ?_⟩
  · have found := duration_tokenAt?_iff.mpr ⟨stop, one.1, one.2, rfl⟩
    have foundToo := duration_tokenAt?_iff.mpr ⟨other, two.1, two.2, rfl⟩
    cases found.symm.trans foundToo
    rfl
  · intro source offset opening closing signed days rest components loose opens closes sign day stands
    exact duration_isSome_iff_inOrder opens closes sign day stands

/-- Of `duration'PT1M5S'` all is read, and of `duration'PT1M5'` nothing, for its last number has no designator. -/
theorem duration_exact_loose_number :
    let heading : Bytes := [0x64, 0x75, 0x72, 0x61, 0x74, 0x69, 0x6F, 0x6E, 0x27, 0x50, 0x54]
    let timed : Bytes := heading ++ [0x31, 0x4D, 0x35, 0x53, 0x27]
    let loose : Bytes := heading ++ [0x31, 0x4D, 0x35, 0x27]
    duration.tokenAt? timed 0 = some ⟨.literal, ⟨0, 16⟩, .typed .duration⟩ ∧
    (∀ other, other ≤ timed.length ∧ Derives Abnf.duration (timed.slice 0 other) → 16 = other) ∧
    duration.tokenAt? loose 0 = none := by
  intro heading timed loose
  have number (octet : UInt8) (digit : Octet.isDigit octet = true) : Duration.IsNumber [.plain octet] :=
    ⟨List.cons_ne_nil _ _, List.forall_mem_singleton.mpr digit⟩
  have outcome := duration_exact.2.2 loose 0 (.plain 0x27) (.plain 0x27) [] [] []
    [⟨⟨[.plain 0x31], none, number 0x31 rfl, fun _ none => (by cases none)⟩, .plain 0x4D, by decide⟩]
    (some ⟨[.plain 0x35], none, number 0x35 rfl, fun _ none => (by cases none)⟩) rfl rfl
    (Abnf.mem_optional.mpr (.inl rfl)) (Abnf.mem_optional.mpr (.inl rfl)) rfl
  have spans : (duration.tokenAt? timed 0).map (·.span) = some ⟨0, 16⟩ := by decide +kernel
  obtain ⟨token, read, span⟩ := Option.map_eq_some_iff.mp spans
  obtain ⟨stop, inside, derived, rfl⟩ := (duration_exact.1 timed 0 token).mp read
  obtain ⟨_, rfl⟩ := Span.mk.inj span
  refine ⟨read, fun other => duration_exact.2.1 timed 0 16 other ⟨inside, derived⟩, ?_⟩
  rw [← Option.not_isSome_iff_eq_none, outcome]
  rintro ⟨⟨⟩, _⟩

end Grammar

end ODataLiteral
