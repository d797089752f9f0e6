/-! # Character classes as lists of code point ranges

A class of characters is a list of inclusive ranges of code points, in increasing order.
`inRanges` is membership; the classes themselves are tables of Unicode 14.0. -/

namespace SymbolicAlgebra

/-- Inclusive ranges of code points. -/
abbrev CharRanges := List (Nat × Nat)

/-- Membership of a character in a class. -/
def inRanges (rs : CharRanges) (c : Char) : Bool :=
  rs.any fun r => r.1 ≤ c.toNat && c.toNat ≤ r.2

/-- A class holds the characters of each of its ranges. -/
theorem inRanges_of_mem {rs : CharRanges} {c : Char} {lo hi : Nat}
    (h : (lo, hi) ∈ rs) (hlo : lo ≤ c.toNat) (hhi : c.toNat ≤ hi) : inRanges rs c = true := by
  simp only [inRanges, List.any_eq_true]
  exact ⟨_, h, by simp [hlo, hhi]⟩

end SymbolicAlgebra
