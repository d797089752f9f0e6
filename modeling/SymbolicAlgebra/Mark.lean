/-!
# Marks

Some values have nothing that they could be compared by: one that is not a number equals nothing,
and an expression of a kind that the library does not know is only a name to it. Such a value
carries a `Mark`, by which it is still known as the same value when it is met again. A value that
has just been made has no mark and is the same as none, until `Mark.given` gives it one of its own.
-/

namespace SymbolicAlgebra

/-- What tells values apart that cannot be compared; a value that has just been made has none. -/
abbrev Mark := Option Nat

namespace Mark

/-- Whether two marks are those of one value. -/
def agrees : Mark → Mark → Bool
  | some m, some n => m = n
  | _, _ => false

/-- Marks that agree are equal. -/
theorem eq_of_agrees {m n : Mark} (h : m.agrees n) : m = n := by
  cases m <;> cases n <;> simp_all [agrees]

/-- The mark of a value, or a new one where it has none. The state is the number of marks that have
been given. -/
def given : Mark → StateM Nat Mark
  | some m => return some m
  | none => modifyGet fun next => (some next, next + 1)

end Mark

end SymbolicAlgebra
