import SymbolicAlgebra.Binary64.Arithmetic
import SymbolicAlgebra.Expr.Operator
import SymbolicAlgebra.Number.Arithmetic

/-!
# Plain numbers

A `Plain` number is an integer, a fraction, a number of 64 bits or a binary value that belongs to no
expression. An operation on two of them gives a plain number of the wider kind. The result of an
operation on binary values is rounded to `signPrecision` bits, the operands are not rounded before;
only a fraction beside a binary value is.
-/

namespace SymbolicAlgebra

/-- A number that belongs to no expression. -/
inductive Plain where
  | integer (n : Int)
  | fraction (q : Rat)
  | double (x : Binary64)
  | bigFloat (x : BigFloat)

namespace Plain

instance : Inhabited Plain := ⟨integer 0⟩

/-! ### Conversions -/

/-- The number of 64 bits nearest to a plain number. -/
def toDouble : Plain → Except Error Binary64
  | integer n => (Number.integer n).toBinary64
  | fraction q => (Number.rational q).toBinary64
  | double x => .ok x
  | bigFloat x => .ok (.ofBigFloat x)

/-- The binary value that a plain number is beside another. Only a fraction is rounded. -/
def toBigFloat : Plain → BigFloat
  | integer n => .ofInt n
  | fraction q => .finite (roundRat signPrecision q)
  | double x => x.exact
  | bigFloat x => x

/-- The exact value as a number. -/
def toNumber : Plain → Number
  | integer n => .integer n
  | fraction q => .rational q
  | double x => .float x.exact signPrecision
  | bigFloat x => .float x signPrecision

/-- The exact value of an integer or a fraction, and of a finite number of 64 bits. -/
def toRat? : Plain → Option Rat
  | integer n => some n
  | fraction q => some q
  | double x => x.toRat?
  | bigFloat _ => none

/-! ### Operations on two numbers of one kind -/

/-- The power of two numbers as numbers of 64 bits. -/
def powDouble (a b : Plain) : Except Error Plain := do
  return double (← (← a.toDouble).pow (← b.toDouble))

/-- An operation on integers. A quotient, and a power with a negative exponent, is a number of
64 bits; zero by a number below zero is negative. -/
def onIntegers (op : Operator) (m n : Int) : Except Error Plain :=
  match op with
  | .add => .ok (integer (m + n))
  | .sub => .ok (integer (m - n))
  | .mul => .ok (integer (m * n))
  | .div =>
    if n = 0 then .error (.fault .zeroDivision)
    else if m = 0 then .ok (double (.zero (n < 0)))
    else do return double (← (Number.rational (m / n)).toBinary64)
  | .pow =>
    if 0 ≤ n then .ok (integer (integerPower m n.toNat)) else powDouble (integer m) (integer n)

/-- An operation on fractions. A power whose exponent is not whole is a number of 64 bits. -/
def onFractions (op : Operator) (q r : Rat) : Except Error Plain :=
  match op with
  | .add => .ok (fraction (q + r))
  | .sub => .ok (fraction (q - r))
  | .mul => .ok (fraction (q * r))
  | .div => if r = 0 then .error (.fault .zeroDivision) else .ok (fraction (q / r))
  | .pow =>
    if r.den ≠ 1 then powDouble (fraction q) (fraction r)
    else if q = 0 ∧ r < 0 then .error (.fault .zeroDivision)
    else .ok (fraction (rationalPower q r.num))

/-- An operation on numbers of 64 bits. -/
def onDoubles (op : Operator) (x y : Binary64) : Except Error Plain :=
  match op with
  | .add => .ok (double (x.add y))
  | .sub => .ok (double (x.sub y))
  | .mul => .ok (double (x.mul y))
  | .div => do return double (← x.div y)
  | .pow => do return double (← x.pow y)

/-- An operation on binary values. -/
def onBigFloats (op : Operator) (x y : BigFloat) : Except Error Plain :=
  match op with
  | .add => .ok (bigFloat (x.add signPrecision y))
  | .sub => .ok (bigFloat (x.sub signPrecision y))
  | .mul => .ok (bigFloat (x.mul signPrecision y))
  | .div =>
    if y.isZero then .error (.fault .zeroDivision) else .ok (bigFloat (x.div signPrecision y))
  | .pow =>
    if x.isZero && y.isNegative && y.isHalfInteger then .error (.fault .zeroDivision)
    else do
      match ← BigFloat.boundedPow signPrecision x y with
      | .real z => return bigFloat z
      | .complex _ => throw (.fault .wrongType)

/-! ### Operations -/

/-- An operation on two plain numbers. -/
def apply (op : Operator) (a b : Plain) : Except Error Plain :=
  match a, b with
  | integer m, integer n => onIntegers op m n
  | integer m, fraction r =>
    if op = .pow ∧ r.den = 1 ∧ 0 ≤ r then onIntegers op m r.num else onFractions op m r
  | fraction q, integer n => onFractions op q n
  | fraction q, fraction r => onFractions op q r
  | fraction q, bigFloat y =>
    if op = .pow then do onBigFloats op (← (fraction q).toDouble).exact y
    else onBigFloats op (fraction q).toBigFloat y
  | bigFloat x, b => onBigFloats op x b.toBigFloat
  | a, bigFloat y => onBigFloats op a.toBigFloat y
  | a, b => do onDoubles op (← a.toDouble) (← b.toDouble)

/-- The opposite. -/
def neg : Plain → Plain
  | integer n => integer (-n)
  | fraction q => fraction (-q)
  | double x => double x.neg
  | bigFloat x => bigFloat (x.neg signPrecision)

/-- The number behind a plus sign: a binary value is rounded. -/
def pos : Plain → Plain
  | bigFloat x => bigFloat (x.round signPrecision)
  | a => a

/-- The absolute value. -/
def abs : Plain → Plain
  | integer n => integer n.natAbs
  | fraction q => fraction q.abs
  | double x => double x.abs
  | bigFloat x => bigFloat (if x.isNegative then x.neg signPrecision else x.round signPrecision)

/-- Whether a number is zero. -/
def isZero (a : Plain) : Bool :=
  a.toNumber.isZero

/-! ### Order -/

/-- The order of two binary values, unless one of them is not a number. -/
def compareBigFloats? (x y : BigFloat) : Option Ordering :=
  if x.lt y then some .lt
  else if x.eq y then some .eq
  else if y.lt x then some .gt
  else none

/-- The order of two plain numbers, unless one of them is not a number. -/
def compare? (a b : Plain) : Option Ordering :=
  match a.toRat?, b.toRat? with
  | some q, some r => some (compareOfLessAndEq q r)
  | _, _ => compareBigFloats? a.toBigFloat b.toBigFloat

end Plain

end SymbolicAlgebra
