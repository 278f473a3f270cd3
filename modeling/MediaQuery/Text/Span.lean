/-!
# Sets of characters given by spans of code points

A character class of the Unicode standard is a short list of spans, both ends included. Membership is one
comparison per span (`mem_iff`).
-/

namespace MediaQuery.Text

/-- The first and the last code point of a run. -/
abbrev Span := Nat × Nat

/-- Whether the character lies in one of the spans. -/
def inSpans (spans : List Span) (c : Char) : Bool :=
  spans.any fun s => s.1 ≤ c.toNat && c.toNat ≤ s.2

/-- A character is in the set exactly when some span encloses its code point. -/
theorem inSpans_iff {spans : List Span} {c : Char} :
    inSpans spans c = true ↔ ∃ s ∈ spans, s.1 ≤ c.toNat ∧ c.toNat ≤ s.2 := by
  simp [inSpans]

end MediaQuery.Text
