import SymbolicAlgebra.Expr.Text
import SymbolicAlgebra.Substitution

/-!
# Equations

An equation is a pair of expressions, kept as they are written.
-/

namespace SymbolicAlgebra

/-- An equation between two expressions. -/
structure Equation where
  lhs : Expr
  rhs : Expr

namespace Equation

instance : Inhabited Equation := ⟨⟨default, default⟩⟩

/-- Whether two equations have the same sides. -/
def same (a b : Equation) : Bool :=
  a.lhs == b.lhs && a.rhs == b.rhs

instance : BEq Equation := ⟨same⟩

/-- An equation as a formula. -/
def text (a : Equation) : Except Error String := do
  return (← a.lhs.text) ++ " = " ++ (← a.rhs.text)

/-- An equation as its construction. -/
def describe (a : Equation) : Except Error String := do
  return Expr.constructionText "Equation" "lhs" (← a.lhs.describe) "rhs" (← a.rhs.describe)

/-- How often a variable occurs on both sides together. -/
def countOccurrences (x : String) (a : Equation) : Nat :=
  a.lhs.countOccurrences x + a.rhs.countOccurrences x

/-- The equation with `t` in place of the variable `x`, and canonical sides. -/
def substitute (x : String) (t : Expr) (a : Equation) : Except Error Equation := do
  let lhs ← SymbolicAlgebra.substitute x t a.lhs
  let rhs ← SymbolicAlgebra.substitute x t a.rhs
  return ⟨lhs, rhs⟩

/-- The equation with canonical sides. -/
def canonical (a : Equation) : Except Error Equation := do
  let lhs ← SymbolicAlgebra.canonical a.lhs
  let rhs ← SymbolicAlgebra.canonical a.rhs
  return ⟨lhs, rhs⟩

end Equation

end SymbolicAlgebra
