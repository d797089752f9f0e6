import SymbolicAlgebra.Equation.Basic
import SymbolicAlgebra.Text.Letter
import SymbolicAlgebra.Text.Quoted

/-!
# Formulas

A formula is an expression in canonical form. Every operation on formulas makes its result
canonical again, so that two formulas that are equal have the same expression.
-/

namespace SymbolicAlgebra

/-- The variable named by a single letter. -/
def Expr.ofLetter (name : String) : Except Error Expr :=
  match name.toList with
  | [c] => if isLetter c then .ok (.var name) else .error (.notALetter (quoted name))
  | _ => .error (.notALetter (quoted name))

/-- An expression in canonical form. -/
structure Formula where
  expr : Expr

namespace Formula

instance : Inhabited Formula := ⟨⟨default⟩⟩

/-- The formula of an expression. -/
def ofExpr (e : Expr) : Except Error Formula := do
  return ⟨← canonical e⟩

instance : BEq Formula := ⟨fun a b => a.expr == b.expr⟩

/-- The formula with `t` in place of the variable `x`. -/
def substitute (x : String) (t : Expr) (a : Formula) : Except Error Formula := do
  return ⟨← SymbolicAlgebra.substitute x t a.expr⟩

/-- How often a variable occurs in the canonical expression. -/
def countOccurrences (x : String) (a : Formula) : Nat :=
  a.expr.countOccurrences x

/-- Whether a formula is a number. -/
def isConstant (a : Formula) : Bool :=
  match a.expr with
  | .const _ => true
  | _ => false

/-- The number that a formula is, if it is one. -/
def number? (a : Formula) : Option Number :=
  match a.expr with
  | .const c => some c
  | _ => none

/-- The number that a formula is. -/
def value (a : Formula) : Except Error Number :=
  match a.expr with
  | .const c => .ok c
  | e => do throw (.notConstant (← e.text))

/-- A formula as text. -/
def text (a : Formula) : Except Error String :=
  a.expr.text

/-- A formula as its construction. -/
def describe (a : Formula) : Except Error String := do
  return "Formula(" ++ (← a.text) ++ ")"

end Formula

end SymbolicAlgebra
