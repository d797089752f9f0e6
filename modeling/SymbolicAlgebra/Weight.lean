import SymbolicAlgebra.Expr.Basic
import SymbolicAlgebra.Text.LowerCase

/-!
# Weights

The weight of an expression is its value when every variable stands for the code point of its
letter, computed with floating point numbers of the default precision. A quotient by zero, and a
negative power of zero, weigh infinitely much; a power that is complex weighs as much as its real
part. Logarithms have no weight.
-/

namespace SymbolicAlgebra

/-- The value of a letter; only a name of one character has one. -/
def letterValue (x : String) : Except Error BigFloat :=
  match x.toList with
  | [c] => .ok (.ofInt c.toNat)
  | _ => .error (.fault .wrongType)

/-- The weight of a power. -/
def powerWeight (base exponent : BigFloat) : Except Error BigFloat := do
  match ← BigFloat.boundedPow defaultPrecision base exponent with
  | .real x => return x
  | .complex x => return x

namespace Expr

/-- The value of an expression at the code points of its letters. The denominator of a quotient
comes first, and if it is zero the numerator does not count. -/
def valueAtLetters : Expr → Except Error BigFloat
  | const c => .ok (c.toBigFloat defaultPrecision)
  | var x => letterValue x
  | add l r => do return .add defaultPrecision (← l.valueAtLetters) (← r.valueAtLetters)
  | sub l r => do return .sub defaultPrecision (← l.valueAtLetters) (← r.valueAtLetters)
  | mul l r => do return .mul defaultPrecision (← l.valueAtLetters) (← r.valueAtLetters)
  | div n d => do
    let den ← d.valueAtLetters
    if den.isZero then return .infinite false
    return .div defaultPrecision (← n.valueAtLetters) den
  | pow b p => do powerWeight (← b.valueAtLetters) (← p.valueAtLetters)
  | neg e => do return .neg defaultPrecision (← e.valueAtLetters)
  | log _ _ => .error (.unsupported "log" .canonicalOrdering)
  | other _ kind _ => .error (.unsupported (lowerCase kind) .canonicalOrdering)

/-- The weight of an expression, which is least where the value is not a number. -/
def weight (e : Expr) : Except Error BigFloat := do
  match ← e.valueAtLetters with
  | .nan _ => return .infinite true
  | x => return x

end Expr

end SymbolicAlgebra
