import SymbolicAlgebra.Expr.Text
import SymbolicAlgebra.Text.LowerCase

/-!
# Inverse operations

To free an unknown inside an expression that equals a known one, each operation on the way to the
unknown is undone from the outside. An `Inverse` undoes one operation, and knows on which side of it
the unknown stands. A plan is the list of the inverses on a path, the innermost first; `planFor`
finds it and `replay` carries it out, the outermost first.
-/

namespace SymbolicAlgebra

/-- The undoing of one operation, with `r` for what the operation equals. -/
inductive Inverse where
  /-- `a + b = r` gives `a = r - b`. -/
  | subtractRight
  /-- `a + b = r` gives `b = r - a`. -/
  | subtractLeft
  /-- `a - b = r` gives `a = r + b`. -/
  | addRight
  /-- `a - b = r` gives `b = a - r`. -/
  | subtractFromLeft
  /-- `a * b = r` gives `a = r / b`. -/
  | divideByRight
  /-- `a * b = r` gives `b = r / a`. -/
  | divideByLeft
  /-- `n / d = r` gives `n = r * d`. -/
  | multiplyByDenominator
  /-- `n / d = r` gives `d = n / r`. -/
  | divideNumerator
  /-- `b ^ e = r` gives `b = r ^ (1 / e)`. -/
  | raiseToReciprocal
  /-- `b ^ e = r` gives `e = log b r`. -/
  | takeLog
  /-- `log b a = r` gives `b = a ^ (1 / r)`. -/
  | rootOfArgument
  /-- `log b a = r` gives `a = b ^ r`. -/
  | raiseBase
  /-- `-v = r` gives `v = -r`. -/
  | negate
deriving DecidableEq, Repr

namespace Inverse

/-- The name of an inverse. -/
def name : Inverse → String
  | subtractRight => "SUBTRACT_RHS"
  | subtractLeft => "SUBTRACT_LHS"
  | addRight => "ADD_RHS"
  | subtractFromLeft => "SUBTRACT_FROM_LHS"
  | divideByRight => "DIVIDE_BY_RHS"
  | divideByLeft => "DIVIDE_BY_LHS"
  | multiplyByDenominator => "MULTIPLY_BY_DENOMINATOR"
  | divideNumerator => "DIVIDE_NUMERATOR"
  | raiseToReciprocal => "RAISE_TO_RECIPROCAL"
  | takeLog => "TAKE_LOG"
  | rootOfArgument => "ROOT_OF_ARGUMENT"
  | raiseBase => "RAISE_BASE"
  | negate => "NEGATE"

/-- All inverses. -/
def all : List Inverse :=
  [subtractRight, subtractLeft, addRight, subtractFromLeft, divideByRight, divideByLeft,
    multiplyByDenominator, divideNumerator, raiseToReciprocal, takeLog, rootOfArgument, raiseBase,
    negate]

/-- The inverse of a name. -/
def ofName? (s : String) : Option Inverse :=
  all.find? fun i => i.name = s

/-- What the unknown part of a node equals when the node equals `r`, and that part. There is none
for a node of another operation than the one undone. -/
def undo? (i : Inverse) (node r : Expr) : Option (Expr × Expr) :=
  match i, node with
  | subtractRight, .add a b => some (.sub r b, a)
  | subtractLeft, .add a b => some (.sub r a, b)
  | addRight, .sub a b => some (.add r b, a)
  | subtractFromLeft, .sub a b => some (.sub a r, b)
  | divideByRight, .mul a b => some (.div r b, a)
  | divideByLeft, .mul a b => some (.div r a, b)
  | multiplyByDenominator, .div n d => some (.mul r d, n)
  | divideNumerator, .div n d => some (.div n r, d)
  | raiseToReciprocal, .pow b e => some (.pow r (.div (.const 1) e), b)
  | takeLog, .pow b e => some (.log b r, e)
  | rootOfArgument, .log b a => some (.pow a (.div (.const 1) r), b)
  | raiseBase, .log b a => some (.pow b r, a)
  | negate, .neg v => some (.neg r, v)
  | _, _ => none

end Inverse

/-- The plan of the first of two parts that has one, with the inverse that leads into that part
after it. -/
def planThrough (lhs : Except Error (Option (List Inverse))) (left : Inverse)
    (rhs : Except Error (Option (List Inverse))) (right : Inverse) :
    Except Error (Option (List Inverse)) := do
  match ← lhs with
  | some plan => return some (plan ++ [left])
  | none => return (← rhs).map (· ++ [right])

/-- The inverses on the path to the first place of the variable `x`, the innermost first, if it
occurs. An expression of another kind is refused where the search comes upon it. -/
def planFor (x : String) : Expr → Except Error (Option (List Inverse))
  | .var y => .ok (if y = x then some [] else none)
  | .const _ => .ok none
  | .add l r => planThrough (planFor x l) .subtractRight (planFor x r) .subtractLeft
  | .sub l r => planThrough (planFor x l) .addRight (planFor x r) .subtractFromLeft
  | .mul l r => planThrough (planFor x l) .divideByRight (planFor x r) .divideByLeft
  | .div n d => planThrough (planFor x n) .multiplyByDenominator (planFor x d) .divideNumerator
  | .pow b p => planThrough (planFor x b) .raiseToReciprocal (planFor x p) .takeLog
  | .log b a => planThrough (planFor x b) .rootOfArgument (planFor x a) .raiseBase
  | .neg e => do return (← planFor x e).map (· ++ [.negate])
  | .other _ kind _ => .error (.unsupported (lowerCase kind) .solving)

/-- The inverses of a list, the outermost first, carried out on `node = r`. They must lead to the
variable `x`. -/
def replayFrom (x : String) : (steps : List Inverse) → (node r : Expr) → Except Error Expr
  | [], node, r =>
    match node with
    | .var y =>
      if y = x then .ok r else .error (.replayMissed y x)
    | node => do throw (.replayMissed (← node.text) x)
  | i :: steps, node, r =>
    match i.undo? node r with
    | some (r', part) => replayFrom x steps part r'
    | none => do throw (.stepMismatch i.name (← node.text))

/-- A plan carried out on `difference = 0`. -/
def replay (x : String) (plan : List Inverse) (difference : Expr) : Except Error Expr :=
  replayFrom x plan.reverse difference (.const 0)

end SymbolicAlgebra
