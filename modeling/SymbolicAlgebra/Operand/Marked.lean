import SymbolicAlgebra.Operand.Basic

/-!
# Marking operands

An operand that is kept to be met again is marked first: each part that can only be known by a mark,
and has none yet, is given one of its own. The state is the number of marks given so far.
-/

namespace SymbolicAlgebra

/-- A value with a mark, if it is not a number. -/
def BigFloat.marked : BigFloat → StateM Nat BigFloat
  | nan m => return nan (← m.given)
  | x => return x

/-- A number with a mark, if it is a value that is not a number. -/
def Number.marked : Number → StateM Nat Number
  | float x p => return float (← x.marked) p
  | a => return a

namespace Expr

mutual

/-- An expression with marks on its parts. -/
def marked : Expr → StateM Nat Expr
  | const c => return const (← c.marked)
  | var x => return var x
  | add l r => return add (← l.marked) (← r.marked)
  | sub l r => return sub (← l.marked) (← r.marked)
  | mul l r => return mul (← l.marked) (← r.marked)
  | div n d => return div (← n.marked) (← d.marked)
  | pow b p => return pow (← b.marked) (← p.marked)
  | log b a => return log (← b.marked) (← a.marked)
  | neg e => return neg (← e.marked)
  | other m kind es => return other (← m.given) kind (← markedList es)

/-- Expressions with marks on their parts. -/
def markedList : List Expr → StateM Nat (List Expr)
  | [] => return []
  | e :: es => return (← e.marked) :: (← markedList es)

end

end Expr

/-- An operand with marks on its parts. -/
def Operand.marked : Operand → StateM Nat Operand
  | number a => return number (← a.marked)
  | expr e => return expr (← e.marked)
  | formula f => return formula ⟨← f.expr.marked⟩
  | equation a => return equation ⟨← a.lhs.marked, ← a.rhs.marked⟩
  | bigFloat x => return bigFloat (← x.marked)
  | expressions es => return expressions (← Expr.markedList es)
  | a => return a

end SymbolicAlgebra
