import SymbolicAlgebra.Simplify
import SymbolicAlgebra.Order

/-!
# Canonical forms and substitution

An expression is canonical when it is simplified and in order. `replace` puts an expression in the
place of a variable and leaves the result as it comes; `substitute` makes it canonical.
-/

namespace SymbolicAlgebra

/-- The canonical form of an expression. -/
def canonical (e : Expr) : Except Error Expr := do
  order (← simplify e)

/-- An expression with `t` in every place of the variable `x`. -/
def replace (x : String) (t : Expr) : Expr → Except Error Expr
  | .const c => .ok (.const c)
  | .var y => .ok (if y = x then t else .var y)
  | .add l r => do return .add (← replace x t l) (← replace x t r)
  | .sub l r => do return .sub (← replace x t l) (← replace x t r)
  | .mul l r => do return .mul (← replace x t l) (← replace x t r)
  | .div n d => do return .div (← replace x t n) (← replace x t d)
  | .pow b p => do return .pow (← replace x t b) (← replace x t p)
  | .log b a => do return .log (← replace x t b) (← replace x t a)
  | .neg e => do return .neg (← replace x t e)
  | .other _ kind _ => .error (.unsupported (lowerCase kind) .substitution)

/-- The canonical form of an expression with `t` in every place of the variable `x`. -/
def substitute (x : String) (t e : Expr) : Except Error Expr := do
  canonical (← replace x t e)

end SymbolicAlgebra
