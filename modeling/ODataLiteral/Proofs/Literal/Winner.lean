import ODataLiteral.Proofs.LongestMatch
import ODataLiteral.Proofs.Pattern.Language

/-! The primitive literal that is read is the one of the first rule that reads. A rule is out of the way where another
one reads that excludes it, and where the text begins with a character that it cannot begin with. -/
namespace ODataLiteral

namespace Rule

variable {rule first second : Rule} {source : Bytes} {offset : Nat} {token : Token}

/-- A rule that can be read, with its numbers small enough. -/
def Regular (rule : Rule) : Prop :=
  rule.steady = true ∧ rule.Fits

theorem tokenAt?_eq_none_of_parse (regular : rule.Regular)
    (refused : rule.parse maxDepth (Place.ofSource source offset) = none) : rule.tokenAt? source offset = none := by
  rw [Rule.tokenAt?_eq regular.1 regular.2, Rule.find?, refused]
  rfl

theorem Excludes.tokenAt?_eq_none (excludes : first.Excludes second) (regular : first.Regular)
    (regularToo : second.Regular) (found : first.tokenAt? source offset = some token) :
    second.tokenAt? source offset = none := by
  obtain ⟨stop, read⟩ := (Rule.tokenAt?_iff regular.1 regular.2).mp found
  exact tokenAt?_eq_none_of_parse regularToo (excludes _ _ _ read)

/-- A rule is out of the way where the text begins with what the rule cannot begin with. -/
theorem LeadsIn.tokenAt?_eq_none {accepts heads : UriChar → Bool} (leads : rule.LeadsIn accepts) (fits : rule.Fits)
    (apart : UriChar.Apart heads accepts) (here : Pattern.HeadIn heads (Text.ofBytes (source.drop offset))) :
    rule.tokenAt? source offset = none := by
  refine tokenAt?_eq_none_of_parse ⟨leads.steady, fits⟩ ?_
  cases read : rule.parse maxDepth (Place.ofSource source offset) with
  | none => rfl
  | some found =>
    obtain ⟨character, rest, same, lead⟩ := Rule.parse_begins maxDepth leads.steady _ _ _ read
    have head : (Text.ofBytes (source.drop offset)).head? = some character := congrArg List.head? same
    cases (apart character (here character head)).symm.trans (leads.leads character lead)

end Rule

namespace Grammar

variable {rule : Rule} {source : Bytes} {offset : Nat} {token : Token}

/-- The rules of the primitive literals in the order in which they are tried. -/
def primitives : List Rule :=
  keywords ++ guid :: (calendar ++ (floating ++ (integers ++ string :: (prefixed ++ enumeration :: spatials))))

theorem rules_primitiveTable : primitiveTable.map (·.rule) = primitives := rfl

theorem primitives_regular : ∀ rule ∈ primitives, rule.Regular := by
  rw [← rules_primitiveTable]
  refine List.forall_mem_map.mpr fun alternative member => ?_
  exact ⟨primitiveTable_steady alternative member, primitiveTable_fits alternative member⟩

theorem primitiveLiteral_eq_findSome? :
    primitiveLiteral.tokenAt? source offset = primitives.findSome? (·.tokenAt? source offset) := by
  rw [primitiveLiteral_tokenAt?, Table.firstMatch?, List.map_findSome?, ← rules_primitiveTable, List.findSome?_map]
  congr 1
  funext alternative
  rw [Function.comp_apply, Option.map_map]
  exact Option.map_id'

/-- A rule wins where it reads and all rules before it are refused. -/
theorem primitiveLiteral_of_first {before after : List Rule} (parts : primitives = before ++ rule :: after)
    (lost : ∀ earlier ∈ before, earlier.tokenAt? source offset = none)
    (found : rule.tokenAt? source offset = some token) : primitiveLiteral.tokenAt? source offset = some token := by
  rw [primitiveLiteral_eq_findSome?, parts, List.findSome?_append, List.findSome?_eq_none_iff.mpr lost,
    Option.none_or, List.findSome?_cons_of_isSome (by rw [found]; rfl), found]

/-- A rule wins wherever it reads if it excludes all rules before it. -/
theorem primitiveLiteral_of_excludes {before after : List Rule} (parts : primitives = before ++ rule :: after)
    (excludes : ∀ earlier ∈ before, rule.Excludes earlier)
    (found : rule.tokenAt? source offset = some token) : primitiveLiteral.tokenAt? source offset = some token := by
  have regular : ∀ one ∈ before ++ rule :: after, one.Regular := parts ▸ primitives_regular
  refine primitiveLiteral_of_first parts (fun earlier among => ?_) found
  exact (excludes earlier among).tokenAt?_eq_none (regular rule (by simp))
    (regular earlier (List.mem_append_left _ among)) found

/-- Where a fraction or a number that is a word stands, none of the literals before them does. -/
theorem floating_excludes_earlier :
    ∀ first ∈ floating, ∀ second ∈ keywords ++ guid :: calendar, first.Excludes second := by
  intro first member
  simp only [List.forall_mem_append, List.forall_mem_cons]
  exact ⟨fun second memberToo => (floating_leads first member).excludes (keywords_lead second memberToo)
      floating_apart_keyword,
    (guid_excludes_floating first member).symm,
    fun second memberToo => (calendar_excludes_floating second memberToo first member).symm⟩

end Grammar

end ODataLiteral
