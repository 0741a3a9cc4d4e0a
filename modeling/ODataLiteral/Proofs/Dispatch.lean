import ODataLiteral.Proofs.Grammar.Firm
import ODataLiteral.Proofs.LongestMatch
import ODataLiteral.Proofs.Rule.Nodes

/-! When the order of a table does not matter. Each alternative is read on its own, and where all that read have
the same token the first of them is as good as any other.
Spatial literals and primitive values exclude one another. Of the structures only the two kinds of arrays meet,
and they meet in the array with nothing in it. -/
namespace ODataLiteral

/-- What the alternatives of a table read at an offset with some levels open, each under its name. -/
def Table.readings (table : Table) (source : Bytes) (offset depth : Nat) : List (String × Token) :=
  table.filterMap fun alternative =>
    (alternative.rule.attempt source offset depth).1.value?.map fun token => (alternative.name, token)

/-- A table whose rules can all be read. -/
def Table.Sound (table : Table) : Prop :=
  ∀ alternative ∈ table, alternative.rule.steady = true ∧ alternative.rule.Fits

namespace Table

variable {table permuted : Table} {source : Bytes} {offset depth : Nat} {name : String} {token : Token}

theorem Sound.of_rule (steady : table.rule.steady = true) (fits : table.rule.Fits) : table.Sound := by
  induction table with
  | nil => exact fun _ member => absurd member List.not_mem_nil
  | cons alternative rest ih =>
    have both : alternative.rule.steady = true ∧ (Table.rule rest).steady = true :=
      Bool.and_eq_true_iff.mp steady
    exact List.forall_mem_cons.mpr ⟨⟨both.1, fits.1⟩, ih both.2 fits.2⟩

theorem Sound.rule_steady (sound : table.Sound) : table.rule.steady = true :=
  Table.rule_of_forall (·.steady = true) rfl (fun first second => Bool.and_eq_true_iff.mpr ⟨first, second⟩)
    fun alternative member => (sound alternative member).1

theorem Sound.perm (sound : table.Sound) (perm : permuted.Perm table) : permuted.Sound :=
  fun alternative member => sound alternative (perm.mem_iff.mp member)

/-- The readings are what the alternatives find in the levels that are left. -/
theorem readings_eq (sound : table.Sound) : table.readings source offset depth =
    table.filterMap fun alternative =>
      (alternative.rule.find? (maxDepth - depth) source offset).map fun token => (alternative.name, token) :=
  List.filterMap_congr fun alternative member => by
    rw [Rule.value?_attempt (sound alternative member).1 (sound alternative member).2]

theorem mem_readings (sound : table.Sound) :
    (name, token) ∈ table.readings source offset depth ↔
      ∃ alternative ∈ table, alternative.name = name ∧
        alternative.rule.find? (maxDepth - depth) source offset = some token := by
  simp only [readings_eq sound, List.mem_filterMap, Option.map_eq_some_iff, Prod.mk.injEq]
  constructor
  · rintro ⟨alternative, member, _, read, rfl, rfl⟩
    exact ⟨alternative, member, rfl, read⟩
  · rintro ⟨alternative, member, rfl, read⟩
    exact ⟨alternative, member, token, read, rfl, rfl⟩

/-- The rule of a table has the token of the first alternative that reads, and leaves the levels as they are. -/
theorem attempt_rule (sound : table.Sound) :
    table.rule.attempt source offset depth =
      (.ofOption ((table.readings source offset depth).head?.map (·.2)), depth) := by
  have fits := Grammar.fits_rule fun alternative member => (sound alternative member).2
  have first : table.rule.find? (maxDepth - depth) source offset =
      (table.readings source offset depth).head?.map (·.2) := by
    rw [find?_rule, readings_eq sound, List.head?_filterMap, List.map_findSome?]
    congr 1
    funext alternative
    rw [Function.comp_apply, Option.map_map]
    exact Option.map_id'.symm
  rw [Rule.attempt_eq sound.rule_steady fits, first]

theorem firstMatch?_eq : table.firstMatch? source offset = (table.readings source offset 0).head? :=
  List.head?_filterMap.symm

/-- All alternatives that read at an offset have the same token. -/
def Unanimous (table : Table) (source : Bytes) (offset depth : Nat) : Prop :=
  ∀ one ∈ table.readings source offset depth, ∀ two ∈ table.readings source offset depth, one.2 = two.2

theorem Unanimous.head?_eq (unanimous : table.Unanimous source offset depth) (perm : permuted.Perm table) :
    (permuted.readings source offset depth).head?.map (·.2) =
      (table.readings source offset depth).head?.map (·.2) := by
  have same : (permuted.readings source offset depth).Perm (table.readings source offset depth) :=
    perm.filterMap _
  cases first : permuted.readings source offset depth with
  | nil => rw [first] at same; rw [same.nil_eq]
  | cons one rest =>
    cases firstToo : table.readings source offset depth with
    | nil => rw [first, firstToo] at same; exact absurd same.eq_nil nofun
    | cons two others =>
      have one_mem : one ∈ table.readings source offset depth := by
        rw [← same.mem_iff, first]
        exact List.mem_cons_self
      have two_mem : two ∈ table.readings source offset depth := by
        rw [firstToo]
        exact List.mem_cons_self
      exact congrArg some (unanimous one one_mem two two_mem)

/-- Where the alternatives agree, any order of them is the same rule. -/
theorem Unanimous.order (unanimous : table.Unanimous source offset depth) (sound : table.Sound)
    (perm : permuted.Perm table) :
    permuted.rule.attempt source offset depth = table.rule.attempt source offset depth := by
  rw [attempt_rule (sound.perm perm), attempt_rule sound, unanimous.head?_eq perm]

theorem Unanimous.firstMatch? (unanimous : table.Unanimous source offset 0) (perm : permuted.Perm table) :
    (permuted.firstMatch? source offset).map (·.2) = (table.firstMatch? source offset).map (·.2) := by
  rw [firstMatch?_eq, firstMatch?_eq, unanimous.head?_eq perm]

/-- Where the alternatives agree, the rule of the table reads whatever one of them reads. -/
theorem Unanimous.find?_rule_iff (unanimous : table.Unanimous source offset depth) (sound : table.Sound) :
    table.rule.find? (maxDepth - depth) source offset = some token ↔
      ∃ alternative ∈ table, alternative.rule.find? (maxDepth - depth) source offset = some token := by
  rw [find?_rule]
  constructor
  · intro found
    obtain ⟨alternative, member, read⟩ := List.exists_of_findSome?_eq_some found
    exact ⟨alternative, member, read⟩
  · rintro ⟨alternative, member, read⟩
    have reads : (table.findSome? fun alternative =>
        alternative.rule.find? (maxDepth - depth) source offset).isSome = true :=
      List.findSome?_isSome_iff.mpr ⟨alternative, member, by rw [read, Option.isSome_some]⟩
    obtain ⟨other, first⟩ := Option.isSome_iff_exists.mp reads
    obtain ⟨winner, memberToo, readToo⟩ := List.exists_of_findSome?_eq_some first
    have one := (mem_readings sound).mpr ⟨winner, memberToo, rfl, readToo⟩
    have two := (mem_readings sound).mpr ⟨alternative, member, rfl, read⟩
    exact first.trans (congrArg some (unanimous _ one _ two))

/-- A relation between what two alternatives read at one place carries over to the readings of a table. -/
theorem readings_pairwise {related : String × Token → String × Token → Prop} (sound : table.Sound)
    (meet : table.Pairwise fun first second => ∀ levels start token stop token' stop',
      first.rule.parse levels start = some (token, stop) →
        second.rule.parse levels start = some (token', stop') →
          related (first.name, token) (second.name, token')) :
    (table.readings source offset depth).Pairwise related := by
  rw [readings_eq sound]
  refine List.Pairwise.filterMap _ ?_ meet
  rintro first second meet _ read _ readToo
  obtain ⟨token, found, rfl⟩ := Option.map_eq_some_iff.mp read
  obtain ⟨token', foundToo, rfl⟩ := Option.map_eq_some_iff.mp readToo
  obtain ⟨⟨_, stop⟩, parsed, rfl⟩ := Option.map_eq_some_iff.mp found
  obtain ⟨⟨_, stop'⟩, parsedToo, rfl⟩ := Option.map_eq_some_iff.mp foundToo
  exact meet _ _ _ _ _ _ parsed parsedToo

/-- No two alternatives read at one place. -/
def Exclusive (table : Table) : Prop :=
  (table.map (·.rule)).Pairwise Rule.Excludes

theorem Exclusive.length_readings_le (exclusive : table.Exclusive) (sound : table.Sound) :
    (table.readings source offset depth).length ≤ 1 := by
  have never : (table.readings source offset depth).Pairwise fun _ _ => False := by
    refine readings_pairwise sound ((List.pairwise_map.mp exclusive).imp ?_)
    intro first second excludes levels start token stop token' stop' read readToo
    rw [excludes _ _ _ read] at readToo
    cases readToo
  match table.readings source offset depth, never with
  | [], _ => exact Nat.zero_le 1
  | [_], _ => exact Nat.le_refl 1
  | _ :: two :: _, never => exact ((List.pairwise_cons.mp never).1 two List.mem_cons_self).elim

theorem unanimous_of_length_le (few : (table.readings source offset depth).length ≤ 1) :
    table.Unanimous source offset depth := by
  intro one member two memberToo
  rcases Nat.le_one_iff_eq_zero_or_eq_one.mp few with none | single
  · rw [List.eq_nil_of_length_eq_zero none] at member
    cases member
  · obtain ⟨reading, same⟩ := List.length_eq_one_iff.mp single
    rw [same, List.mem_singleton] at member memberToo
    rw [member, memberToo]

end Table

namespace Rule

theorem excludes_of_apart {first second : Rule} (steady : first.steady = true)
    (steadyToo : second.steady = true) (apart : UriChar.Apart first.leads second.leads) :
    first.Excludes second := by
  rintro levels start ⟨token, stop⟩ read
  exact parse_eq_none_of_apart steady steadyToo apart read levels

theorem excludes_rule_iff {rule : Rule} {table : Table} :
    rule.Excludes table.rule ↔ ∀ other ∈ table.map (·.rule), rule.Excludes other := by
  simp only [Excludes, Table.parse_rule, List.findSome?_eq_none_iff, List.forall_mem_map]
  exact ⟨fun excludes other member levels start found read => excludes levels start found read other member,
    fun excludes levels start found read other member => excludes other member levels start found read⟩

end Rule

namespace Grammar

theorem geoTable_exclusive : geoTable.Exclusive := by
  have different : shapeOrder.Nodup := by decide
  have shapes : geoTable.map (·.rule) = shapeOrder.map shape := rfl
  rw [Table.Exclusive, shapes]
  exact List.pairwise_map.mpr (different.imp shape_excludes)

theorem jsonPrimitiveTable_exclusive : jsonPrimitiveTable.Exclusive := by
  have exclusive {rule : Rule} (rest : Table) (steady : rule.steady = true)
      (steadyRest : rest.rule.steady = true) (apart : UriChar.Apart rule.leads rest.rule.leads) :
      ∀ other ∈ rest.map (·.rule), rule.Excludes other :=
    Rule.excludes_rule_iff.mp (Rule.excludes_of_apart steady steadyRest apart)
  refine .cons (exclusive jsonPrimitiveTable.tail rfl rfl jsonString_apart) ?_
  refine .cons (exclusive jsonPrimitiveTable.tail.tail rfl rfl jsonNumber_apart) ?_
  refine .cons (exclusive jsonPrimitiveTable.tail.tail.tail rfl rfl jsonBoolean_apart) ?_
  exact List.pairwise_singleton _ _

/-- Two readings of one array with nothing in it, which might hold objects or primitive values. -/
def EmptyArrays (one two : String × Token) : Prop :=
  ∃ span, one = ("complexColInUri", { kind := .array, span, value := .items [] }) ∧
    two = ("primitiveColInUri", { kind := .array, span, value := .items [] })

/-- Two alternatives that do not read at one place, or that read the same empty array there. -/
def Meet (first second : Alternative) : Prop :=
  ∀ levels start token stop token' stop', first.rule.parse levels start = some (token, stop) →
    second.rule.parse levels start = some (token', stop') →
      EmptyArrays (first.name, token) (second.name, token')

theorem meet_of_excludes {first second : Alternative} (excludes : first.rule.Excludes second.rule) :
    Meet first second := by
  intro levels start token stop token' stop' read readToo
  rw [excludes _ _ _ read] at readToo
  cases readToo

/-- A token without children that an array rule reads is the array with nothing in it. -/
theorem eq_of_empty_array {item : Rule} {levels : Nat} {start stop : Place} {token : Token}
    (read : (array item).parse levels start = some (token, stop)) (empty : token.children = []) :
    token = { kind := .array, span := { start := start.offset, stop := stop.offset }, value := .items [] } := by
  obtain ⟨_, _, tokens, _, rfl, _⟩ := Parser.list_iff.mp read
  obtain rfl : tokens = [] := empty
  rfl

theorem arrays_meet_empty :
    Meet ⟨"complexColInUri", objectArray⟩ ⟨"primitiveColInUri", primitiveArray⟩ := by
  intro levels start token stop token' stop' read readToo
  obtain ⟨empty, same, _⟩ := arrays_meet levels read readToo
  rw [same]
  exact ⟨_, congrArg _ (eq_of_empty_array read empty), congrArg _ (eq_of_empty_array read empty)⟩

theorem jsonValueTable_meet : jsonValueTable.Pairwise Meet := by
  have objects (item : Rule) : object.Excludes (array item) := (array_excludes_object item).symm
  have primitives (item : Rule) : (array item).Excludes jsonPrimitive := (jsonPrimitive_excludes_array item).symm
  have single : object.Excludes jsonPrimitive := fun levels _ _ read => (object_excludes levels read).2.1
  simp only [jsonValueTable, List.pairwise_cons, List.forall_mem_cons]
  exact ⟨⟨meet_of_excludes (objects _), meet_of_excludes single, meet_of_excludes (objects _), nofun⟩,
    ⟨meet_of_excludes (primitives _), arrays_meet_empty, nofun⟩,
    ⟨meet_of_excludes (jsonPrimitive_excludes_array _), nofun⟩, nofun, .nil⟩

theorem arrayOrObjectTable_meet : arrayOrObjectTable.Pairwise Meet := by
  simp only [arrayOrObjectTable, List.pairwise_cons, List.forall_mem_cons]
  exact ⟨⟨meet_of_excludes (array_excludes_object _), arrays_meet_empty, nofun⟩,
    ⟨meet_of_excludes (array_excludes_object _).symm, nofun⟩, nofun, .nil⟩

/-- Of alternatives that only meet in the empty array, at most two read, and the two agree. -/
theorem readings_of_meet {table : Table} {source : Bytes} {offset depth : Nat} (sound : table.Sound)
    (meet : table.Pairwise Meet) : (table.readings source offset depth).length ≤ 1 ∨
      ∃ span, table.readings source offset depth =
        [("complexColInUri", { kind := .array, span, value := .items [] }),
          ("primitiveColInUri", { kind := .array, span, value := .items [] })] := by
  have pairs : (table.readings source offset depth).Pairwise EmptyArrays :=
    Table.readings_pairwise sound meet
  match table.readings source offset depth, pairs with
  | [], _ => exact .inl (Nat.zero_le 1)
  | [_], _ => exact .inl (Nat.le_refl 1)
  | [one, two], pairs =>
    obtain ⟨span, rfl, rfl⟩ := (List.pairwise_cons.mp pairs).1 two List.mem_cons_self
    exact .inr ⟨span, rfl⟩
  | one :: two :: three :: rest, pairs =>
    -- The second reading would be one of primitive values and one of objects.
    obtain ⟨first, others⟩ := List.pairwise_cons.mp pairs
    obtain ⟨_, _, rfl⟩ := first two List.mem_cons_self
    obtain ⟨_, same, _⟩ := (List.pairwise_cons.mp others).1 three List.mem_cons_self
    have different : "primitiveColInUri" ≠ "complexColInUri" := by decide
    exact absurd (congrArg (·.1) same) different

theorem unanimous_of_meet {table : Table} {source : Bytes} {offset depth : Nat} (sound : table.Sound)
    (meet : table.Pairwise Meet) : table.Unanimous source offset depth := by
  rcases readings_of_meet sound meet with few | ⟨span, both⟩
  · exact Table.unanimous_of_length_le few
  · intro one member two memberToo
    rw [both] at member memberToo
    simp only [List.mem_cons, List.not_mem_nil, or_false] at member memberToo
    rcases member with rfl | rfl <;> rcases memberToo with rfl | rfl <;> rfl

theorem geoTable_sound : geoTable.Sound :=
  Table.Sound.of_rule rfl geoLiteral_fits

theorem jsonPrimitiveTable_sound : jsonPrimitiveTable.Sound :=
  Table.Sound.of_rule rfl jsonPrimitive_fits

theorem jsonValueTable_sound : jsonValueTable.Sound :=
  Table.Sound.of_rule rfl jsonValue_fits

theorem arrayOrObjectTable_sound : arrayOrObjectTable.Sound :=
  Table.Sound.of_rule rfl ⟨trivial, trivial, jsonPrimitive_fits, trivial⟩

/-- The tables whose order does not matter. -/
def unordered : List Table :=
  [geoTable, jsonPrimitiveTable, jsonValueTable, arrayOrObjectTable]

theorem unordered_sound : ∀ table ∈ unordered, table.Sound := by
  simp only [unordered, List.forall_mem_cons]
  exact ⟨geoTable_sound, jsonPrimitiveTable_sound, jsonValueTable_sound, arrayOrObjectTable_sound, nofun⟩

theorem unordered_unanimous (source : Bytes) (offset depth : Nat) :
    ∀ table ∈ unordered, table.Unanimous source offset depth := by
  simp only [unordered, List.forall_mem_cons]
  exact ⟨Table.unanimous_of_length_le (geoTable_exclusive.length_readings_le geoTable_sound),
    Table.unanimous_of_length_le (jsonPrimitiveTable_exclusive.length_readings_le jsonPrimitiveTable_sound),
    unanimous_of_meet jsonValueTable_sound jsonValueTable_meet,
    unanimous_of_meet arrayOrObjectTable_sound arrayOrObjectTable_meet, nofun⟩

/-- At most one alternative reads, except that an empty array is read by both kinds of arrays. So the alternatives
may be tried in any order. -/
theorem order_irrelevant (source : Bytes) (offset depth : Nat) :
    (geoTable.readings source offset depth).length ≤ 1 ∧
    (jsonPrimitiveTable.readings source offset depth).length ≤ 1 ∧
    (∀ table ∈ [jsonValueTable, arrayOrObjectTable], (table.readings source offset depth).length ≤ 1 ∨
      ∃ span, table.readings source offset depth =
        [("complexColInUri", { kind := .array, span, value := .items [] }),
          ("primitiveColInUri", { kind := .array, span, value := .items [] })]) ∧
    ∀ table ∈ unordered, ∀ permuted : Table, permuted.Perm table →
      permuted.rule.attempt source offset depth = table.rule.attempt source offset depth ∧
      (permuted.firstMatch? source offset).map (·.2) = (table.firstMatch? source offset).map (·.2) := by
  refine ⟨geoTable_exclusive.length_readings_le geoTable_sound,
    jsonPrimitiveTable_exclusive.length_readings_le jsonPrimitiveTable_sound, ?_, ?_⟩
  · simp only [List.forall_mem_cons]
    exact ⟨readings_of_meet jsonValueTable_sound jsonValueTable_meet,
      readings_of_meet arrayOrObjectTable_sound arrayOrObjectTable_meet, nofun⟩
  · intro table member permuted perm
    exact ⟨(unordered_unanimous source offset depth table member).order (unordered_sound table member) perm,
      (unordered_unanimous source offset 0 table member).firstMatch? perm⟩

/-- Both kinds of arrays read an empty one, so there the order decides which of them comes first. -/
theorem order_irrelevant_emptyArray :
    List.Perm (List.reverse arrayOrObjectTable) arrayOrObjectTable ∧
      (arrayOrObjectTable.readings (Bytes.ofString "[ ]") 0 0).map (fun reading => (reading.1, reading.2.span)) =
        [("complexColInUri", ⟨0, 3⟩), ("primitiveColInUri", ⟨0, 3⟩)] ∧
      (Table.rule (List.reverse arrayOrObjectTable)).attempt (Bytes.ofString "[ ]") 0 0 =
        arrayOrObjectTable.rule.attempt (Bytes.ofString "[ ]") 0 0 := by
  have perm : List.Perm (List.reverse arrayOrObjectTable) arrayOrObjectTable := List.reverse_perm _
  have member : arrayOrObjectTable ∈ unordered := by simp [unordered]
  exact ⟨perm, by decide +kernel, ((order_irrelevant _ 0 0).2.2.2 _ member _ perm).1⟩

/-- A structure in the category of its own. -/
def structured (inner : Token) : Token :=
  { kind := .arrayOrObject, span := inner.span, value := .nested inner }

theorem parse_arrayOrObject (levels : Nat) (start : Place) :
    arrayOrObject.parse levels start =
      (arrayOrObjectTable.rule.parse levels start).map fun found => (structured found.1, found.2) := by
  have unfolded : arrayOrObject.parse levels start =
      (arrayOrObjectTable.rule.parse levels start).bind fun found =>
        some (Parser.close .arrayOrObject (.nested found.1) start found.2) := rfl
  rw [unfolded]
  cases read : arrayOrObjectTable.rule.parse levels start with
  | none => rfl
  | some found =>
    have span := Rule.parse_spans levels arrayOrObjectTable.rule _ _ _ read
    rw [Option.bind_some, Option.map_some, structured, span]
    rfl

theorem find?_arrayOrObject (levels : Nat) (source : Bytes) (offset : Nat) :
    arrayOrObject.find? levels source offset =
      (arrayOrObjectTable.rule.find? levels source offset).map structured := by
  rw [Rule.find?, parse_arrayOrObject, Rule.find?, Option.map_map, Option.map_map]
  rfl

section Entries

variable {source : Bytes} {offset depth levels : Nat} {token : Token}

theorem object_kind (found : object.find? levels source offset = some token) : token.kind = .object :=
  congrArg (·.1) (List.mem_singleton.mp (Rule.form_of_find? found))

theorem array_kind {item : Rule} (found : (array item).find? levels source offset = some token) :
    token.kind = .array :=
  congrArg (·.1) (List.mem_singleton.mp (Rule.form_of_find? found))

theorem jsonPrimitive_form (found : jsonPrimitive.find? levels source offset = some token) :
    token.kind = .literal ∧ ∃ primitive, token.value = .json primitive := by
  have only : ∀ form ∈ jsonPrimitive.forms, form = (Kind.literal, Value.Form.json) := by decide
  obtain ⟨kind, json⟩ := Prod.ext_iff.mp (only _ (Rule.form_of_find? found))
  exact ⟨kind, Value.form_eq_json json⟩

theorem jsonValue_iff : jsonValue.find? (maxDepth - depth) source offset = some token ↔
    object.find? (maxDepth - depth) source offset = some token ∨
      objectArray.find? (maxDepth - depth) source offset = some token ∨
      jsonPrimitive.find? (maxDepth - depth) source offset = some token ∨
      primitiveArray.find? (maxDepth - depth) source offset = some token := by
  have unanimous : jsonValueTable.Unanimous source offset depth :=
    unanimous_of_meet jsonValueTable_sound jsonValueTable_meet
  rw [jsonValue, unanimous.find?_rule_iff jsonValueTable_sound]
  simp only [jsonValueTable, List.exists_mem_cons_iff, List.not_mem_nil, false_and, exists_false, or_false]

theorem structure_iff : arrayOrObjectTable.rule.find? (maxDepth - depth) source offset = some token ↔
    objectArray.find? (maxDepth - depth) source offset = some token ∨
      object.find? (maxDepth - depth) source offset = some token ∨
      primitiveArray.find? (maxDepth - depth) source offset = some token := by
  have unanimous : arrayOrObjectTable.Unanimous source offset depth :=
    unanimous_of_meet arrayOrObjectTable_sound arrayOrObjectTable_meet
  rw [unanimous.find?_rule_iff arrayOrObjectTable_sound]
  simp only [arrayOrObjectTable, List.exists_mem_cons_iff, List.not_mem_nil, false_and, exists_false, or_false]

theorem jsonValue_forms (found : jsonValue.find? (maxDepth - depth) source offset = some token) :
    token.kind = .object ∨ token.kind = .array ∨
      token.kind = .literal ∧ ∃ primitive, token.value = .json primitive := by
  rcases jsonValue_iff.mp found with object | objects | primitive | primitives
  · exact .inl (object_kind object)
  · exact .inr (.inl (array_kind objects))
  · exact .inr (.inr (jsonPrimitive_form primitive))
  · exact .inr (.inl (array_kind primitives))

/-- What the structures have in common with the values: all values but the primitive ones. -/
theorem structure_iff_jsonValue :
    arrayOrObjectTable.rule.find? (maxDepth - depth) source offset = some token ↔
      jsonValue.find? (maxDepth - depth) source offset = some token ∧
        (token.kind = .object ∨ token.kind = .array) := by
  rw [structure_iff, jsonValue_iff]
  constructor
  · rintro (objects | object | primitives)
    · exact ⟨.inr (.inl objects), .inr (array_kind objects)⟩
    · exact ⟨.inl object, .inl (object_kind object)⟩
    · exact ⟨.inr (.inr (.inr primitives)), .inr (array_kind primitives)⟩
  · rintro ⟨object | objects | primitive | primitives, structural⟩
    · exact .inr (.inl object)
    · exact .inl objects
    · rw [(jsonPrimitive_form primitive).1] at structural
      rcases structural with same | same <;> cases same
    · exact .inr (.inr primitives)

theorem find?_arrayOrObject_iff : arrayOrObject.find? (maxDepth - depth) source offset = some token ↔
    ∃ inner, jsonValue.find? (maxDepth - depth) source offset = some inner ∧
      (inner.kind = .object ∨ inner.kind = .array) ∧ token = structured inner := by
  rw [find?_arrayOrObject, Option.map_eq_some_iff]
  constructor
  · rintro ⟨inner, read, rfl⟩
    obtain ⟨value, structural⟩ := structure_iff_jsonValue.mp read
    exact ⟨inner, value, structural, rfl⟩
  · rintro ⟨inner, value, structural, rfl⟩
    exact ⟨inner, structure_iff_jsonValue.mpr ⟨value, structural⟩, rfl⟩

end Entries

/-- The two ways into JSON agree: a structure is a value that is an object or an array, in a token of its own. Where
there is no value, or a primitive one, there is no structure. -/
theorem entries_agree (source : Bytes) (offset depth : Nat) :
    (∀ token, (arrayOrObject.attempt source offset depth).1.value? = some token ↔
      ∃ inner, (jsonValue.attempt source offset depth).1.value? = some inner ∧
        (inner.kind = .object ∨ inner.kind = .array) ∧
        token = { kind := .arrayOrObject, span := inner.span, value := .nested inner }) ∧
    (∀ inner, (jsonValue.attempt source offset depth).1.value? = some inner →
      inner.kind = .object ∨ inner.kind = .array ∨
        inner.kind = .literal ∧ ∃ primitive, inner.value = .json primitive) ∧
    ((∀ inner, (jsonValue.attempt source offset depth).1.value? = some inner →
        inner.kind = .literal ∧ ∃ primitive, inner.value = .json primitive) →
      arrayOrObject.attempt source offset depth = (.noMatch, depth)) := by
  have steady : arrayOrObject.steady = true := catalogue_steady _ (by simp [catalogue, jsonCatalogue])
  have fits : arrayOrObject.Fits := catalogue_fits _ (by simp [catalogue, jsonCatalogue])
  have steadyToo : jsonValue.steady = true := catalogue_steady _ (by simp [catalogue, jsonCatalogue])
  simp only [Rule.value?_attempt steady fits, Rule.value?_attempt steadyToo jsonValue_fits]
  refine ⟨fun token => find?_arrayOrObject_iff, fun inner => jsonValue_forms, fun primitive => ?_⟩
  rw [Rule.attempt_eq steady fits]
  cases found : arrayOrObject.find? (maxDepth - depth) source offset with
  | none => rfl
  | some token =>
    obtain ⟨inner, read, structural, _⟩ := find?_arrayOrObject_iff.mp found
    obtain ⟨literal, _⟩ := primitive inner read
    rw [literal] at structural
    rcases structural with same | same <;> cases same

/-- A number is a value on its own and no structure. -/
theorem entries_agree_number :
    (∀ inner, (jsonValue.attempt (Bytes.ofString "7") 0 0).1.value? = some inner →
      inner.kind = .literal ∧ ∃ primitive, inner.value = .json primitive) ∧
    arrayOrObject.attempt (Bytes.ofString "7") 0 0 = (.noMatch, 0) := by
  have kind : ((jsonValue.attempt (Bytes.ofString "7") 0 0).1.value?).map (·.kind) = some .literal := by
    decide +kernel
  have primitive (inner : Token) (found : (jsonValue.attempt (Bytes.ofString "7") 0 0).1.value? = some inner) :
      inner.kind = .literal ∧ ∃ primitive, inner.value = .json primitive := by
    rw [found] at kind
    have literal : inner.kind = .literal := Option.some.inj kind
    rcases (entries_agree _ 0 0).2.1 inner found with object | array | primitive
    · rw [literal] at object; cases object
    · rw [literal] at array; cases array
    · exact primitive
  exact ⟨primitive, (entries_agree _ 0 0).2.2 primitive⟩

end Grammar

end ODataLiteral
