import SymbolicAlgebra.BigFloat.Rounding
import SymbolicAlgebra.Mark

/-!
# Binary floating point numbers of any precision

A `BigFloat` is a dyadic rational, one of two infinities, or a value that is not a number. The
exponent has no bounds and zero has no sign. A value that is not a number may carry a mark, which no
operation keeps. Each operation takes the precision `p`, in bits, that
its result is rounded to; the exact result is rounded once.
-/

namespace SymbolicAlgebra

/-- A binary floating point number. -/
inductive BigFloat where
  | finite (x : Dyadic)
  | infinite (negative : Bool)
  | nan (mark : Mark)
deriving DecidableEq

namespace BigFloat

instance : Inhabited BigFloat := ⟨nan none⟩

/-- An integer, exactly. -/
def ofInt (n : Int) : BigFloat :=
  finite (Dyadic.ofInt n)

/-- The value zero. -/
def zero : BigFloat :=
  finite .zero

/-- The value one. -/
def one : BigFloat :=
  ofInt 1

/-- Whether the value is a number in the ordinary sense. -/
def isFinite : BigFloat → Bool
  | finite _ => true
  | _ => false

/-- Whether the value is zero. -/
def isZero : BigFloat → Bool
  | finite .zero => true
  | _ => false

/-- Whether the value is below zero. -/
def isNegative : BigFloat → Bool
  | finite (.ofOdd n _ _) => n < 0
  | infinite negative => negative
  | _ => false

/-- The whole number that a value is, if it is one. -/
def toInt? : BigFloat → Option Int
  | finite .zero => some 0
  | finite (.ofOdd n k _) => if k ≤ 0 then some (n * ((1 : Nat) <<< (-k).toNat : Nat)) else none
  | _ => none

/-- Whether the value is a whole number. -/
def isWhole : BigFloat → Bool
  | finite .zero => true
  | finite (.ofOdd _ k _) => k ≤ 0
  | _ => false

/-- Whether the double of a value is a whole number. -/
def isHalfInteger : BigFloat → Bool
  | finite .zero => true
  | finite (.ofOdd _ k _) => k ≤ 1
  | _ => false

/-! ### Rounding and sign -/

/-- The value rounded to `p` bits. -/
def round (p : Nat) : BigFloat → BigFloat
  | finite x => finite (roundDyadic p x)
  | infinite negative => infinite negative
  | nan _ => nan none

/-- The opposite, rounded to `p` bits. -/
def neg (p : Nat) : BigFloat → BigFloat
  | finite x => finite (roundDyadic p (-x))
  | infinite negative => infinite (!negative)
  | nan _ => nan none

/-! ### Sums -/

/-- A value of the sign of `x` that stands for `x` in a sum whose other term has its lowest bit and
all rounding boundaries at or above `2 ^ g`, given that `x` lies below `2 ^ g`. -/
def speck (x : Dyadic) (g : Int) : Dyadic :=
  match x with
  | .zero => .zero
  | .ofOdd n _ _ => scaled n.sign (g - 1)

/-- `x + y` rounded to `p` bits, where `x` has the higher leading bit. A `y` far below the last bit
that matters decides only on which side of `x` the sum lies, so a speck takes its place and the
exponents may be any distance apart. -/
def addOrdered (p : Nat) (x y : Dyadic) : Dyadic :=
  match x with
  | .zero => roundDyadic p y
  | .ofOdd _ k _ =>
    let g := min (-k) (topBit x - p - 3)
    if topBit y < g then roundDyadic p (x + speck y g) else roundDyadic p (x + y)

/-- The sum of two dyadic rationals rounded to `p` bits. -/
def addDyadic (p : Nat) (x y : Dyadic) : Dyadic :=
  match x, y with
  | .zero, y => roundDyadic p y
  | x, .zero => roundDyadic p x
  | x, y => if topBit y ≤ topBit x then addOrdered p x y else addOrdered p y x

/-- The sum, rounded to `p` bits. -/
def add (p : Nat) : BigFloat → BigFloat → BigFloat
  | finite x, finite y => finite (addDyadic p x y)
  | nan _, _ => nan none
  | _, nan _ => nan none
  | infinite s, infinite t => if s = t then infinite s else nan none
  | infinite s, finite _ => infinite s
  | finite _, infinite t => infinite t

/-- The difference, rounded to `p` bits. -/
def sub (p : Nat) : BigFloat → BigFloat → BigFloat
  | finite x, finite y => finite (addDyadic p x (-y))
  | nan _, _ => nan none
  | infinite s, finite _ => infinite s
  | x, infinite t => add p x (infinite (!t))
  | _, nan _ => nan none

/-! ### Products and quotients -/

/-- The product, rounded to `p` bits. -/
def mul (p : Nat) : BigFloat → BigFloat → BigFloat
  | finite x, finite y => finite (roundDyadic p (x * y))
  | nan _, _ => nan none
  | _, nan _ => nan none
  | x, y => if x.isZero || y.isZero then nan none else infinite (x.isNegative != y.isNegative)

/-- The quotient of two dyadic rationals rounded to `p` bits, zero by zero being zero. -/
def divDyadic (p : Nat) : Dyadic → Dyadic → Dyadic
  | .ofOdd m j _, .ofOdd n k _ => roundDiv p (m * n.sign) n.natAbs >>> (j - k)
  | _, _ => .zero

/-- The quotient by a divisor other than zero, rounded to `p` bits. -/
def div (p : Nat) : BigFloat → BigFloat → BigFloat
  | finite x, finite y => finite (divDyadic p x y)
  | finite _, infinite _ => zero
  | infinite s, finite y => infinite (s != (finite y).isNegative)
  | _, _ => nan none

/-! ### Order -/

/-- Comparison of dyadic rationals; leading bits are compared before anything is shifted. -/
def ltDyadic (x y : Dyadic) : Bool :=
  match (finite x).isNegative, (finite y).isNegative with
  | true, false => true
  | false, true => false
  | false, false =>
    if x = .zero then y ≠ .zero
    else if y = .zero then false
    else if topBit x = topBit y then x < y else topBit x < topBit y
  | true, true => if topBit x = topBit y then x < y else topBit y < topBit x

/-- The order of values; a value that is not a number is comparable to none. -/
def lt : BigFloat → BigFloat → Bool
  | finite x, finite y => ltDyadic x y
  | infinite s, infinite t => s && !t
  | infinite s, finite _ => s
  | finite _, infinite t => !t
  | _, _ => false

/-- The dyadic rational that a rational is, if its denominator is a power of two. -/
def dyadicOfRat? (q : Rat) : Option Dyadic :=
  if q.den = 1 <<< q.den.log2 then some (Dyadic.ofIntWithPrec q.num q.den.log2) else none

/-- Whether a value is a rational. -/
def isRat (x : BigFloat) (q : Rat) : Bool :=
  match x with
  | finite d => dyadicOfRat? q = some d
  | _ => false

/-- Equality of values; a value that is not a number equals none. -/
def eq : BigFloat → BigFloat → Bool
  | nan _, _ => false
  | x, y => x = y

/-- Whether two values that are no numbers are one and the same. -/
def sharesMark : BigFloat → BigFloat → Bool
  | nan m, nan n => m.agrees n
  | _, _ => false

end BigFloat

end SymbolicAlgebra
