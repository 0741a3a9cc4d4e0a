import ODataLiteral.Proofs.Contract
import ODataLiteral.Proofs.Rule.Completeness
import ODataLiteral.Proofs.Tiles

/-! Rules that are read exactly where a grammar derives the octets. -/
namespace ODataLiteral

open Abnf (Derives)

/-- A rule that reads the octets which a grammar derives, and no others. So there is one offset at the most where
such octets can stop, and every token shows how its octets are made up. -/
structure Rule.Exact (rule : Rule) (grammar : Language UriChar) (shape : Bytes → Token → Prop) : Prop where
  stops (source : Bytes) (offset stop : Nat) :
    (∃ token, rule.tokenAt? source offset = some token ∧ token.span.stop = stop) ↔
      stop ≤ source.length ∧ Derives grammar (source.slice offset stop)
  unique (source : Bytes) (offset : Nat) {stop other : Nat} :
    stop ≤ source.length ∧ Derives grammar (source.slice offset stop) →
      other ≤ source.length ∧ Derives grammar (source.slice offset other) → stop = other
  shows (source : Bytes) (offset : Nat) (token : Token) :
    rule.tokenAt? source offset = some token → token.span.start = offset ∧ shape source token

section Exact

variable {rule : Rule} {grammar : Language UriChar} {source : Bytes} {offset : Nat}

theorem Rule.span_of_shows {shape : Token → Prop} {token : Token} (steady : rule.steady = true)
    (fits : rule.Fits) (shows : (rule.parse maxDepth).Shows source shape)
    (found : rule.tokenAt? source offset = some token) :
    token.span.start = offset ∧ token.span.stop ≤ source.length ∧ shape token := by
  obtain ⟨stop, read⟩ := (Rule.tokenAt?_iff steady fits).mp found
  have shown := shows _ _ _ (.ofSource source offset) read
  rw [Rule.tokenAt?_eq steady fits] at found
  obtain ⟨starts, _, inside⟩ := Rule.span_of_find? steady found
  exact ⟨starts, inside, shown⟩

/-- What is read after derived octets are taken away is what is left of the source. -/
theorem Rule.tokenAt?_of_complete {stop : Nat} (steady : rule.steady = true) (fits : rule.Fits)
    (complete : (rule.parse maxDepth).Complete grammar Grammar.anything) (filled : [] ∉ grammar)
    (inside : stop ≤ source.length) (derived : Derives grammar (source.slice offset stop)) :
    ∃ token, rule.tokenAt? source offset = some token ∧ token.span.stop = stop := by
  obtain ⟨text, member, on⟩ := Place.advances_of_derives inside filled derived
  obtain ⟨token, last, read, rest⟩ := complete _ text _ on.rest member fun _ _ => rfl
  refine ⟨token, (Rule.tokenAt?_iff steady fits).mpr ⟨last, read⟩, ?_⟩
  obtain ⟨taken, onToo⟩ := Rule.parse_forward maxDepth rule _ _ _ read
  have same : taken = text := by
    have parts := onToo.rest.symm.trans on.rest
    rw [rest] at parts
    exact List.append_cancel_right parts
  have ends : last.offset = stop := by
    rw [onToo.offset, same, ← on.offset]
    rfl
  rw [Rule.parse_spans maxDepth rule _ _ _ read]
  exact ends

theorem Rule.exact_of_shows {shape : Bytes → Token → Prop} (steady : rule.steady = true) (fits : rule.Fits)
    (shows : ∀ source, (rule.parse maxDepth).Shows source fun token =>
      Derives grammar (token.octets source) ∧ shape source token)
    (complete : (rule.parse maxDepth).Complete grammar Grammar.anything) (filled : [] ∉ grammar) :
    rule.Exact grammar shape := by
  have stops (source : Bytes) (offset stop : Nat) :
      (∃ token, rule.tokenAt? source offset = some token ∧ token.span.stop = stop) ↔
        stop ≤ source.length ∧ Derives grammar (source.slice offset stop) := by
    constructor
    · rintro ⟨token, found, rfl⟩
      obtain ⟨rfl, inside, derived, _⟩ := Rule.span_of_shows steady fits (shows source) found
      exact ⟨inside, derived⟩
    · rintro ⟨inside, derived⟩
      exact Rule.tokenAt?_of_complete steady fits complete filled inside derived
  refine ⟨stops, fun source offset stop other one two => ?_, fun source offset token found => ?_⟩
  · obtain ⟨token, found, rfl⟩ := (stops source offset stop).mpr one
    obtain ⟨tokenToo, foundToo, rfl⟩ := (stops source offset other).mpr two
    rw [found] at foundToo
    cases foundToo
    rfl
  · obtain ⟨starts, _, _, shown⟩ := Rule.span_of_shows steady fits (shows source) found
    exact ⟨starts, shown⟩

theorem Rule.exact_of_parser {shape : Bytes → Token → Prop} (steady : rule.steady = true) (fits : rule.Fits)
    (sound : ∀ source, (rule.parse maxDepth).Sound source grammar (shape source))
    (complete : (rule.parse maxDepth).Complete grammar Grammar.anything) (filled : [] ∉ grammar) :
    rule.Exact grammar shape := by
  refine Rule.exact_of_shows steady fits (fun source start token stop inside read => ?_) complete filled
  obtain ⟨way, shown⟩ := sound source _ _ _ inside read
  exact ⟨way.octets inside read, shown⟩

end Exact

end ODataLiteral
