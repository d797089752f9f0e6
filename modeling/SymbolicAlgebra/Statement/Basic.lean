import SymbolicAlgebra.Equation.Basic
import SymbolicAlgebra.Text.Quoted

/-!
# Statements

A statement is an expression or an equation, with a directive that says what to do with it: to solve
for an unknown, or to substitute an expression for a variable.
-/

namespace SymbolicAlgebra

/-- What to do with the body of a statement. -/
inductive Directive where
  | solve (x : String)
  | substitute (x : String) (t : Expr)

/-- An expression or an equation. -/
inductive Body where
  | expr (e : Expr)
  | equation (a : Equation)

/-- A body and what to do with it; without a directive it is brought into canonical form. -/
structure Statement where
  body : Body
  directive : Option Directive := none

namespace Directive

/-- A directive as its construction. -/
def describe : Directive → Except Error String
  | solve x => .ok ("Solve(variable=" ++ quoted x ++ ")")
  | substitute x t => do
    return Expr.constructionText "Substitute" "variable" (quoted x) "replacement" (← t.describe)

end Directive

namespace Body

instance : Inhabited Body := ⟨expr default⟩

/-- A body as its construction. -/
def describe : Body → Except Error String
  | expr e => e.describe
  | equation a => a.describe

end Body

namespace Statement

instance : Inhabited Statement := ⟨⟨default, none⟩⟩

/-- A statement as its construction. -/
def describe (s : Statement) : Except Error String := do
  let body ← s.body.describe
  let directive ← match s.directive with
    | some d => d.describe
    | none => .ok "None"
  return Expr.constructionText "Statement" "body" body "directive" directive

end Statement

end SymbolicAlgebra
