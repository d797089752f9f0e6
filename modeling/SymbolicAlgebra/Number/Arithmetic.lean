import SymbolicAlgebra.Number.Basic
import SymbolicAlgebra.BigFloat.Length

/-!
# Arithmetic of numbers

Two operands are brought to the wider of their representations; floating point operands are rounded
to the working precision first. Sums, differences and products of exact numbers are exact, and so is
a quotient, which is a rational even where it is whole. A power with an exact base and a whole exact
exponent is exact; any other is a floating point number.
-/

namespace SymbolicAlgebra

/-! ### Exact powers -/

/-- The power of an integer. Bases whose powers are all small are treated apart, since the exponent
may then be of any size. -/
def integerPower (b : Int) (n : Nat) : Int :=
  if n = 0 then 1
  else if b = 0 ∨ b = 1 then b
  else if b = -1 then (if n % 2 = 0 then 1 else -1)
  else if b < 0 ∧ n % 2 = 1 then -(b.natAbs.pow n : Int)
  else (b.natAbs.pow n : Int)

/-- The power of a rational with an integer exponent; zero has no power with a negative one. -/
def rationalPower (q : Rat) (n : Int) : Rat :=
  let num := integerPower q.num n.natAbs
  let den := integerPower q.den n.natAbs
  if 0 ≤ n then mkRat num den.toNat else mkRat (num.sign * den) num.natAbs

namespace Number

/-! ### Operations on two numbers -/

/-- An operation on two numbers as floating point numbers of their working precision. -/
def onFloats (op : Nat → BigFloat → BigFloat → BigFloat) (a b : Number) : Number :=
  let p := workingPrecision a b
  let bits := roundingBits p
  float (op bits (a.toBigFloat bits) (b.toBigFloat bits)) p

/-- An operation on the wider representation of two numbers. -/
def promote (onInt : Int → Int → Int) (onRat : Rat → Rat → Rat)
    (onFloat : Nat → BigFloat → BigFloat → BigFloat) : Number → Number → Number
  | integer m, integer n => integer (onInt m n)
  | integer m, rational q => rational (onRat m q)
  | rational q, integer n => rational (onRat q n)
  | rational q, rational r => rational (onRat q r)
  | a, b => onFloats onFloat a b

/-- The sum. -/
def add : Number → Number → Number :=
  promote (· + ·) (· + ·) BigFloat.add

/-- The difference. -/
def sub : Number → Number → Number :=
  promote (· - ·) (· - ·) BigFloat.sub

/-- The product. -/
def mul : Number → Number → Number :=
  promote (· * ·) (· * ·) BigFloat.mul

/-- The opposite; that of a floating point number is rounded to `signPrecision` bits, whatever the
precision that it carries. -/
def neg : Number → Number
  | integer n => integer (-n)
  | rational q => rational (-q)
  | float x p => float (x.neg signPrecision) p

instance : Add Number := ⟨add⟩
instance : Sub Number := ⟨sub⟩
instance : Mul Number := ⟨mul⟩
instance : Neg Number := ⟨neg⟩

/-- The absolute value: the opposite of a number below zero. -/
def abs (a : Number) : Number :=
  if a.ge 0 then a else -a

/-- The rational with the given numerator and denominator. -/
def ofFraction (num den : Rat) : Except Error Number := do
  if den = 0 then throw (.zeroDenominator (← rationalText num))
  return rational (num / den)

/-- The quotient. -/
def div (a b : Number) : Except Error Number := do
  if b.isZero then throw (.divisionByZero (← a.text))
  match a.exactValue?, b.exactValue? with
  | some x, some y => return rational (x / y)
  | _, _ =>
    let bits := roundingBits (workingPrecision a b)
    BigFloat.refuseWideQuotient bits (a.toBigFloat bits) (b.toBigFloat bits)
    return onFloats BigFloat.div a b

/-! ### Powers -/

/-- The power of a number as a floating point number. -/
def powFloat (a e : Number) : Except Error Number := do
  let p := workingPrecision a e
  let bits := roundingBits p
  let base := a.toBigFloat bits
  let exponent := e.toBigFloat bits
  if base.isZero ∧ exponent.isNegative then throw (.zeroToNegativePower (← e.text))
  match ← BigFloat.boundedPow bits base exponent with
  | .real x => return float x p
  | .complex _ => throw (.notReal (← a.text) (← e.text))

/-- The power of an exact value with a whole exponent: an integer where the base is whole and the
exponent is not negative, and a rational otherwise. -/
def powExact (base : Rat) (e : Int) : Except Error Number := do
  if base = 0 ∧ e < 0 then throw (.zeroToNegativePower (← integerText e))
  if base.den = 1 ∧ 0 ≤ e then return integer (integerPower base.num e.natAbs)
  return rational (rationalPower base e)

/-- The power. -/
def pow (a e : Number) : Except Error Number :=
  match a.exactValue?, e.exactValue? with
  | some base, some exponent =>
    if exponent.den = 1 then powExact base exponent.num else powFloat a e
  | _, _ => powFloat a e

end Number

end SymbolicAlgebra
