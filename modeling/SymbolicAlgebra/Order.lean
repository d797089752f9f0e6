import SymbolicAlgebra.Expr.LikeKey
import SymbolicAlgebra.Weight

/-!
# Canonical order

`order` sorts the operands of every chain by weight, the heaviest first, after bringing the operands
themselves into order. Operands of equal weight keep their places. Nodes of other kinds keep their
shape.
-/

namespace SymbolicAlgebra

/-- Whether an operand of weight `a` may stand before one of weight `b`. -/
def heavierOrEqual (a b : BigFloat) : Bool :=
  !a.lt b

/-- An expression in canonical order, where a chain of the kind `c` is left for the chain around it
to sort. -/
def orderWithin (c : Option Chain) : Expr → Except Error Expr
  | .const n => .ok (.const n)
  | .var x => .ok (.var x)
  | .add l r => do
    let s := Expr.add (← orderWithin (some .sum) l) (← orderWithin (some .sum) r)
    if c = some .sum then return s else Chain.sum.arrange Expr.weight heavierOrEqual s
  | .mul l r => do
    let p := Expr.mul (← orderWithin (some .product) l) (← orderWithin (some .product) r)
    if c = some .product then return p else Chain.product.arrange Expr.weight heavierOrEqual p
  | .sub l r => do return .sub (← orderWithin none l) (← orderWithin none r)
  | .div n d => do return .div (← orderWithin none n) (← orderWithin none d)
  | .pow b p => do return .pow (← orderWithin none b) (← orderWithin none p)
  | .log b a => do return .log (← orderWithin none b) (← orderWithin none a)
  | .neg e => do return .neg (← orderWithin none e)
  | .other _ kind _ => .error (.unsupported (lowerCase kind) .canonicalOrdering)

/-- An expression in canonical order. -/
def order (e : Expr) : Except Error Expr :=
  orderWithin none e

end SymbolicAlgebra
