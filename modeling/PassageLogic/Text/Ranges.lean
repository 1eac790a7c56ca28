/-! # Sets of code points given by ranges -/

namespace PassageLogic.Text

/-- A set of code points, as closed ranges in ascending order. -/
abbrev Ranges := List (Nat × Nat)

/-- The character's code point lies in one of the ranges. -/
def Ranges.has (table : Ranges) (c : Char) : Bool :=
  table.any fun r => r.1 ≤ c.toNat && c.toNat ≤ r.2

theorem Ranges.has_iff (table : Ranges) (c : Char) :
    table.has c = true ↔ ∃ r ∈ table, r.1 ≤ c.toNat ∧ c.toNat ≤ r.2 := by
  simp [Ranges.has]

end PassageLogic.Text
