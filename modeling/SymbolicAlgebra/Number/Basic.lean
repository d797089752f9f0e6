import SymbolicAlgebra.Number.Friendly

/-!
# Numbers

A `Number` is an exact integer, an exact rational, or a binary floating point value that carries its
working precision in bits. The three representations widen in this order. A rational keeps its
representation even when its value is whole. A precision may be any integer; below one it rounds to
a single bit. Equality and order compare values, whatever the representation.
-/

namespace SymbolicAlgebra

/-- The working precision of a floating point number when no other is given, in bits. -/
def defaultPrecision : Nat := 100

/-- The precision that the opposite of a floating point number is rounded to, in bits. -/
def signPrecision : Nat := 53

/-- The number of bits that a precision rounds to. -/
def roundingBits (precision : Int) : Nat :=
  max 1 precision.toNat

/-- A precision rounds to one bit at least. -/
theorem roundingBits_pos (precision : Int) : 0 < roundingBits precision := by
  simp only [roundingBits]
  omega

/-- An exact integer, an exact rational or a floating point number. -/
inductive Number where
  | integer (n : Int)
  | rational (q : Rat)
  | float (x : BigFloat) (precision : Int)
deriving DecidableEq

namespace Number

instance : Inhabited Number := ⟨integer 0⟩

instance (n : Nat) : OfNat Number n := ⟨integer n⟩

/-! ### Conversions and predicates -/

/-- Whether a number is an integer or a rational. -/
def isExact : Number → Bool
  | float _ _ => false
  | _ => true

/-- Whether a number is a value on the number line. -/
def isFinite : Number → Bool
  | float x _ => x.isFinite
  | _ => true

/-- Whether a number is one of the two infinities. -/
def isInfinite : Number → Bool
  | float (.infinite _) _ => true
  | _ => false

/-- The value of a number that is not a floating point number. -/
def exactValue? : Number → Option Rat
  | integer n => some n
  | rational q => some q
  | float _ _ => none

/-- The value of a finite number. -/
def toRat? : Number → Option Rat
  | integer n => some n
  | rational q => some q
  | float (.finite x) _ => some x.toRat
  | float _ _ => none

/-- A number whose exponent is too far from zero for its value to be written out is refused. -/
def refuseLong : Number → Except Error Unit
  | float x _ => x.refuseLong
  | _ => .ok ()

/-- The exact value. -/
def toRat : Number → Except Error Rat
  | integer n => .ok n
  | rational q => .ok q
  | float x _ => x.toRat

/-- Whether the value is zero. -/
def isZero : Number → Bool
  | integer n => n = 0
  | rational q => q = 0
  | float x _ => x.isZero

/-- Whether the value is one. -/
def isOne : Number → Bool
  | integer n => n = 1
  | rational q => q = 1
  | float x _ => x = .one

/-- Whether the value is whole, whatever the representation. -/
def isWhole : Number → Bool
  | integer _ => true
  | rational q => q.den = 1
  | float x _ => x.isWhole

/-- The value rounded to a binary value of `p` bits. A rational is rounded in two steps: first its
numerator, then the quotient by its exact denominator. -/
def toBigFloat (p : Nat) : Number → BigFloat
  | integer n => .finite (roundScaled p n 0)
  | rational q =>
    match roundScaled p q.num 0 with
    | .zero => .zero
    | .ofOdd n k _ => .finite (roundDiv p n q.den >>> k)
  | float x _ => x.round p

/-- The precision that a number carries; the default stands for that of an exact one. -/
def ownPrecision : Number → Int
  | float _ p => p
  | _ => defaultPrecision

/-- The greatest precision of the floating point numbers among two. -/
def workingPrecision : Number → Number → Int
  | float _ p, float _ q => max p q
  | float _ p, _ => p
  | _, float _ q => q
  | _, _ => defaultPrecision

/-- The number as a fraction that a reader would have written; exact numbers stay as they are. -/
def rationalize : Number → Except Error Number
  | float x _ => do return rational (← (← x.friendly).within friendlyDenominator)
  | a => .ok a

/-- The whole part, toward zero. -/
def truncate : Number → Except Error Int
  | integer n => .ok n
  | rational q => .ok (q.num.tdiv q.den)
  | float (.finite x) _ => BigFloat.truncateDyadic x
  | float (.infinite _) _ => .error (.fault .overflow)
  | float (.nan _) _ => .error (.fault .wrongValue)

/-- The nearest number of 64 bits. An exact number too large for the format is refused. -/
def toBinary64 : Number → Except Error Binary64
  | float x _ => .ok (.ofBigFloat x)
  | integer n => ofExact n
  | rational q => ofExact q
where
  ofExact (q : Rat) : Except Error Binary64 :=
    match Binary64.ofRat q with
    | .infinite _ => .error (.fault .overflow)
    | x => .ok x

/-! ### Order -/

/-- A value on the number line extended by two infinities; a value that is not a number is on none
of its places. -/
def bigFloat : Number → BigFloat
  | float x _ => x
  | _ => .zero

/-- Equality of values. -/
def eq (a b : Number) : Bool :=
  match a.exactValue?, b.exactValue? with
  | some x, some y => x = y
  | some x, none => b.bigFloat.isRat x
  | none, some y => a.bigFloat.isRat y
  | none, none => a.bigFloat.eq b.bigFloat

instance : BEq Number := ⟨eq⟩

/-- Whether two numbers are the same constant: equal, or one and the same value that is not a
number. -/
def same (a b : Number) : Bool :=
  a == b || a.bigFloat.sharesMark b.bigFloat

/-- The order of values. -/
def lt (a b : Number) : Bool :=
  match a.toRat?, b.toRat? with
  | some x, some y => x < y
  | _, _ => a.bigFloat.lt b.bigFloat

/-- At most: below or equal. -/
def le (a b : Number) : Bool :=
  a.lt b || a.eq b

/-- Above: neither below nor equal. -/
def gt (a b : Number) : Bool :=
  !a.lt b && !a.eq b

/-- At least: not below. -/
def ge (a b : Number) : Bool :=
  !a.lt b

/-! ### Text -/

/-- The text of a number: a numeral, a fraction, or a decimal with as many digits as the precision
is worth. -/
def text : Number → Except Error String
  | integer n => integerText n
  | rational q => rationalText q
  | float x p => do
    x.refuseWideText p
    return x.render (decimalPlaces p.toNat)

end Number

end SymbolicAlgebra
