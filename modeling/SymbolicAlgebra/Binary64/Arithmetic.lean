import SymbolicAlgebra.Binary64
import SymbolicAlgebra.BigFloat.Power

/-!
# Arithmetic of binary numbers of 64 bits

Every operation rounds its exact result once. A quotient by zero is refused, and so are a negative
power of zero and a power too large for the format.
-/

namespace SymbolicAlgebra.Binary64

/-- The sign, that of zero too; the value that is not a number has none. -/
def isNegative : Binary64 → Bool
  | finite negative _ _ => negative
  | infinite negative => negative
  | nan => false

/-- Whether the value is zero, with either sign. -/
def isZero : Binary64 → Bool
  | finite _ m _ => m = 0
  | _ => false

/-- The binary value, exactly; zero loses its sign. -/
def exact : Binary64 → BigFloat
  | finite negative m e => .finite (scaled (signed negative m) e)
  | infinite negative => .infinite negative
  | nan => .nan none

/-- The opposite, also of zero. -/
def neg : Binary64 → Binary64
  | finite negative m e => finite (!negative) m e
  | infinite negative => infinite (!negative)
  | nan => nan

/-- The opposite of the opposite is the number itself. -/
theorem neg_neg (x : Binary64) : x.neg.neg = x := by
  cases x <;> simp [neg]

/-- The absolute value. -/
def abs : Binary64 → Binary64
  | finite _ m e => finite false m e
  | infinite _ => infinite false
  | nan => nan

/-- The number nearest to a rational, with the given sign if that is zero. -/
def ofRatSigned (negative : Bool) (q : Rat) : Binary64 :=
  if q = 0 then zero negative else ofRat q

/-- The sum. A sum that is zero is negative only if both terms are. -/
def add (x y : Binary64) : Binary64 :=
  match x, y, x.toRat?, y.toRat? with
  | _, _, some a, some b => ofRatSigned (x.isNegative && y.isNegative) (a + b)
  | nan, _, _, _ => nan
  | _, nan, _, _ => nan
  | infinite s, infinite t, _, _ => if s = t then infinite s else nan
  | infinite s, _, _, _ => infinite s
  | _, y, _, _ => y

/-- The difference. -/
def sub (x y : Binary64) : Binary64 :=
  x.add y.neg

/-- The product. -/
def mul (x y : Binary64) : Binary64 :=
  let negative := x.isNegative != y.isNegative
  match x, y, x.toRat?, y.toRat? with
  | _, _, some a, some b => ofRatSigned negative (a * b)
  | nan, _, _, _ => nan
  | _, nan, _, _ => nan
  | x, y, _, _ => if x.isZero || y.isZero then nan else infinite negative

/-- The quotient. -/
def div (x y : Binary64) : Except Error Binary64 :=
  let negative := x.isNegative != y.isNegative
  if y.isZero then .error (.fault .zeroDivision)
  else
    match x, y, x.toRat?, y.toRat? with
    | _, _, some a, some b => .ok (ofRatSigned negative (a / b))
    | infinite _, finite _ _ _, _, _ => .ok (infinite negative)
    | finite _ _ _, infinite _, _, _ => .ok (zero negative)
    | _, _, _, _ => .ok nan

/-- Whether a value is an odd integer. -/
def isOdd (x : Binary64) : Bool :=
  match x.toRat? with
  | some q => q.den = 1 && q.num % 2 = 1
  | none => false

/-- The number nearest to a finite power, which may be beyond the format. -/
def ofPower (x : BigFloat) : Except Error Binary64 :=
  match ofBigFloat x with
  | infinite _ => .error (.fault .overflow)
  | x => .ok x

/-- The power. A negative zero or infinity passes its sign to an odd power. A power that is no real
number has no place in the format, nor has one whose absolute value is beyond it. -/
def pow (x y : Binary64) : Except Error Binary64 :=
  let odd := x.isNegative && y.isOdd
  if x.isZero then
    if y = infinite true then .ok (infinite false)
    else if y.exact.isNegative then .error (.fault .zeroDivision)
    else if y.isZero then .ok (ofRat 1)
    else .ok (if y = nan then nan else zero odd)
  else
    match x.exact, y.exact with
    | .infinite _, e => .ok (infinitePower odd e)
    | .finite d, .infinite s => .ok (limit d s)
    | .finite d, .nan _ => .ok (if BigFloat.finite d = .one then ofRat 1 else nan)
    | base, e =>
      let bits := 2 * significandBits
      match BigFloat.pow bits base e, BigFloat.pow bits (base.neg bits) e with
      | .real z, _ => ofPower z
      | .complex _, .real size => do
        discard (ofPower size)
        throw (.fault .wrongType)
      | .complex _, .complex _ => .error (.fault .wrongType)
where
  infinitePower (odd : Bool) : BigFloat → Binary64
    | .nan _ => nan
    | .finite .zero => ofRat 1
    | e => if e.isNegative then zero odd else infinite odd
  limit (base : Dyadic) (negative : Bool) : Binary64 :=
    let size := BigFloat.finite (if (BigFloat.finite base).isNegative then -base else base)
    if size = .one then ofRat 1
    else if BigFloat.one.lt size = negative then zero false
    else infinite false

end SymbolicAlgebra.Binary64
