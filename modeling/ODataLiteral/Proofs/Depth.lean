import ODataLiteral.Proofs.Grammar.Fits
import ODataLiteral.Proofs.Rule.Mirror
import ODataLiteral.Proofs.Rule.Reading

/-! The count of open levels is as good as private to each call. A call hands it back as it got it, whether it has
found a token or has failed somewhere inside, so that a call after others finds what it would find alone.
To see the count on the way the policy on nesting keeps a trace of it. The trace is read by nobody, and every count
in it is within the limit. -/
namespace ODataLiteral

/-- The same policy with a trace: the accounts after each level that was opened or closed, the latest one first. -/
def Nesting.traced {account : Type} (nesting : Nesting account) : Nesting (account × List account) where
  enter state := (nesting.enter state.1).map fun inside => (inside, inside :: state.2)
  leave state := (nesting.leave state.1).map fun outside => (outside, outside :: state.2)

/-- The account that a policy keeps beside a trace, where it and all of the trace are as they should be. -/
structure Nesting.Traces {account : Type} (right : account → Prop) (state : account)
    (traced : account × List account) : Prop where
  same : traced.1 = state
  now : right state
  always : ∀ past ∈ traced.2, right past

namespace Nesting

theorem Traces.step {account : Type} {right : account → Prop} {state next : account}
    {traced : account × List account} (holds : Traces right state traced) (kept : right next) :
    Traces right next (next, next :: traced.2) :=
  ⟨rfl, kept, List.forall_mem_cons.mpr ⟨kept, holds.always⟩⟩

theorem mirrors_traced {account : Type} {nesting : Nesting account} {right : account → Prop}
    (opens : ∀ state inside, right state → nesting.enter state = some inside → right inside)
    (closes : ∀ state outside, right state → nesting.leave state = .ok outside → right outside) :
    nesting.Mirrors (Traces right) nesting.traced where
  enter := by
    -- The account beside the trace is the plain one, so both sides decide alike.
    rintro _ ⟨state, trace⟩ holds
    cases holds.same
    simp only [traced]
    cases opened : nesting.enter state with
    | none => exact .none
    | some inside => exact .some (holds.step (opens _ _ holds.now opened))
  leave := by
    rintro _ ⟨state, trace⟩ holds
    cases holds.same
    simp only [traced]
    cases closed : nesting.leave state with
    | error fault => exact .inr ⟨fault, rfl, rfl⟩
    | ok outside => exact .inl ⟨outside, _, rfl, rfl, holds.step (closes _ _ holds.now closed)⟩

theorem le_of_enter {limit depth inside : Nat} (opened : (bounded limit).enter depth = some inside) :
    inside ≤ limit := by
  simp only [bounded] at opened
  split at opened
  · cases opened
    assumption
  · cases opened

theorem le_of_leave {limit depth outside : Nat} (closed : (bounded limit).leave depth = .ok outside) :
    outside ≤ depth := by
  simp only [bounded, Checked.subtract] at closed
  split at closed
  · cases closed
    exact Nat.sub_le depth 1
  · cases closed

theorem bounded_mirrors_traced (limit : Nat) :
    (bounded limit).Mirrors (Traces (· ≤ limit)) (bounded limit).traced :=
  mirrors_traced (fun _ _ _ opened => le_of_enter opened)
    (fun _ _ within closed => Nat.le_trans (le_of_leave closed) within)

end Nesting

namespace Rule

theorem read_traced (rule : Rule) {depth : Nat} (within : depth ≤ maxDepth) (source : Bytes) (offset : Nat) :
    ∃ trace, rule.read (Nesting.bounded maxDepth).traced source offset (depth, []) =
        ((rule.attempt source offset depth).1, (rule.attempt source offset depth).2, trace) ∧
      ∀ open_ ∈ trace, open_ ≤ maxDepth := by
  have start : Nesting.Traces (· ≤ maxDepth) depth (depth, []) := ⟨rfl, within, List.forall_mem_nil _⟩
  obtain ⟨ending, after, ⟨_, trace⟩, run, run', holds⟩ :=
    read_mirrors (Nesting.bounded_mirrors_traced maxDepth) rule source offset depth _ start
  cases holds.same
  refine ⟨trace, ?_, holds.always⟩
  rw [run', attempt, run]

theorem attemptAll_eq {calls : List (Rule × Bytes × Nat)}
    (readable : ∀ call ∈ calls, call.1.steady = true ∧ call.1.Fits) (depth : Nat) :
    attemptAll calls depth =
      (calls.map fun (rule, source, offset) => rule.find? (maxDepth - depth) source offset, depth) := by
  induction calls with
  | nil => rfl
  | cons call calls ih =>
    obtain ⟨rule, source, offset⟩ := call
    obtain ⟨⟨steady, fits⟩, others⟩ := List.forall_mem_cons.mp readable
    simp only [attemptAll, attempt_eq steady fits, ih others, List.map_cons]
    cases rule.find? (maxDepth - depth) source offset <;> rfl

end Rule

namespace Grammar

/-- A call hands the count of open levels back as it got it, has no fault in counting, and stays within the limit all
along. So each of a row of calls finds what it finds alone. -/
theorem depth_released :
    (∀ rule ∈ catalogue, ∀ source offset depth, depth ≤ maxDepth → ∃ (found : Option Token) (trace : List Nat),
      rule.attempt source offset depth = (.ofOption found, depth) ∧
      rule.read (Nesting.bounded maxDepth).traced source offset (depth, []) = (.ofOption found, depth, trace) ∧
      ∀ open_ ∈ trace, open_ ≤ maxDepth) ∧
    ∀ calls : List (Rule × Bytes × Nat), (∀ call ∈ calls, call.1 ∈ catalogue) →
      Rule.attemptAll calls 0 = (calls.map fun (rule, source, offset) => rule.tokenAt? source offset, 0) := by
  constructor
  · intro rule member source offset depth within
    obtain ⟨trace, run, always⟩ := rule.read_traced within source offset
    rw [Rule.attempt_eq (catalogue_steady rule member) (catalogue_fits rule member)] at run ⊢
    exact ⟨_, trace, rfl, run, always⟩
  · intro calls members
    have readable : ∀ call ∈ calls, call.1.steady = true ∧ call.1.Fits := fun call member =>
      ⟨catalogue_steady _ (members call member), catalogue_fits _ (members call member)⟩
    rw [Rule.attemptAll_eq readable, Nat.sub_zero]
    congr 1
    apply List.map_congr_left
    rintro ⟨rule, source, offset⟩ member
    obtain ⟨steady, fits⟩ := readable _ member
    exact (Rule.tokenAt?_eq steady fits).symm

/-- The last free level is taken by an object whose member is refused one. The object fails, the level is free again,
and an empty object that is read next is found. -/
theorem depth_released_refused :
    let nested : Bytes := [0x7B, 0x22, 0x61, 0x22, 0x3A, 0x7B, 0x7D, 0x7D]
    (object ∈ catalogue ∧ 63 ≤ maxDepth ∧ (object.attempt nested 0 63).1.value? = none ∧
      (object.read (Nesting.bounded maxDepth).traced nested 0 (63, [])).2 = (63, [63, 64]) ∧
      ∃ (found : Option Token) (trace : List Nat), object.attempt nested 0 63 = (.ofOption found, 63) ∧
        object.read (Nesting.bounded maxDepth).traced nested 0 (63, []) = (.ofOption found, 63, trace) ∧
        ∀ open_ ∈ trace, open_ ≤ maxDepth) ∧
    Rule.attemptAll [(object, nested, 1), (object, nested, 5)] 0 =
      ([object.tokenAt? nested 1, object.tokenAt? nested 5], 0) := by
  intro nested
  have member : object ∈ catalogue := by simp [catalogue, jsonCatalogue]
  have members : ∀ call ∈ [(object, nested, 1), (object, nested, 5)], call.1 ∈ catalogue := by
    simp only [List.forall_mem_cons]
    exact ⟨member, member, List.forall_mem_nil _⟩
  obtain ⟨single, row⟩ := depth_released
  exact ⟨⟨member, by decide, by rfl, by rfl, single object member nested 0 63 (by decide)⟩, row _ members⟩

end Grammar

end ODataLiteral
