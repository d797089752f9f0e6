import SymbolicAlgebra.Equation.Solve
import SymbolicAlgebra.Formula
import SymbolicAlgebra.Statement.Basic

/-!
# The outcome of a statement

Without a directive, an expression gives its formula and an equation gives itself with canonical
sides. Solving gives the equation `x = solution`, where an expression is solved as if it equalled
zero. Substituting gives a formula or an equation again: an expression is made canonical before the
substitution, and an equation is not.
-/

namespace SymbolicAlgebra

/-- What a statement evaluates to. -/
inductive Outcome where
  | formula (a : Formula)
  | equation (a : Equation)

namespace Outcome

instance : Inhabited Outcome := ⟨formula default⟩

/-- An outcome as text. -/
def text : Outcome → Except Error String
  | formula a => a.text
  | equation a => a.text

end Outcome

namespace Body

/-- The equation that a body is solved as. -/
def toEquation : Body → Equation
  | expr e => ⟨e, .const 0⟩
  | equation a => a

/-- The body in canonical form. -/
def canonical : Body → Except Error Outcome
  | expr e => do return .formula (← Formula.ofExpr e)
  | equation a => do return .equation (← a.canonical)

/-- The body solved for an unknown. -/
def solve (x : String) (b : Body) : Except Error Outcome := do
  return .equation ⟨.var x, ← b.toEquation.solve x⟩

/-- The body with `t` in place of the variable `x`. -/
def substitute (x : String) (t : Expr) : Body → Except Error Outcome
  | expr e => do return .formula (← (← Formula.ofExpr e).substitute x t)
  | equation a => do return .equation (← a.substitute x t)

end Body

/-- The outcome of a statement. -/
def Statement.evaluate (s : Statement) : Except Error Outcome :=
  match s.directive with
  | none => s.body.canonical
  | some (.solve x) => s.body.solve x
  | some (.substitute x t) => s.body.substitute x t

end SymbolicAlgebra
