/-
  Classes of characters given by ranges of code points.

  * `inRanges ranges c`: the code point of `c` lies in one of the closed
    ranges (`inRanges_iff`).
-/

namespace FormulaSheet.Text

/-- Whether the code point of `c` lies in one of the closed `ranges`. -/
def inRanges (ranges : List (Nat × Nat)) (c : Char) : Bool :=
  ranges.any fun range => range.1 ≤ c.toNat && c.toNat ≤ range.2

theorem inRanges_iff {ranges : List (Nat × Nat)} {c : Char} :
    inRanges ranges c = true ↔ ∃ range ∈ ranges, range.1 ≤ c.toNat ∧ c.toNat ≤ range.2 := by
  simp [inRanges]

end FormulaSheet.Text
