set_option autoImplicit false

namespace RelAlg.Text

/-- Closed code point ranges, for the classes that Unicode 17.0 lists. -/
abbrev CodePoints := List (Nat × Nat)

namespace CodePoints

def contains (ranges : CodePoints) (c : Char) : Bool :=
  ranges.any fun r => r.1 ≤ c.toNat && c.toNat ≤ r.2

theorem contains_iff {ranges : CodePoints} {c : Char} :
    ranges.contains c = true ↔ ∃ r ∈ ranges, r.1 ≤ c.toNat ∧ c.toNat ≤ r.2 := by
  simp [contains]

end CodePoints

end RelAlg.Text
