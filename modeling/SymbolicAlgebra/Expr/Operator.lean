import SymbolicAlgebra.Expr.Basic

/-!
# Operators

The five operations between two operands that are written between them, how tightly each binds, and
the node that each builds.
-/

namespace SymbolicAlgebra

/-- The operations between two operands. -/
inductive Operator where
  | add
  | sub
  | mul
  | div
  | pow
deriving DecidableEq, Repr

/-- How tightly an operation binds, the loosest first. -/
inductive Level where
  | sum
  | product
  | power
deriving DecidableEq, Repr

namespace Operator

/-- The operation as a node. -/
def node : Operator → Expr → Expr → Expr
  | add => .add
  | sub => .sub
  | mul => .mul
  | div => .div
  | pow => .pow

/-- How tightly an operation binds. -/
def level : Operator → Level
  | add => .sum
  | sub => .sum
  | mul => .product
  | div => .product
  | pow => .power

end Operator

end SymbolicAlgebra
