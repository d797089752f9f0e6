import SymbolicAlgebra.BigFloat.Approximation
import SymbolicAlgebra.BigFloat.Basic
import SymbolicAlgebra.BigFloat.Series

/-!
# Powers

`pow` is the power of two binary values, rounded once. Small whole exponents are computed exactly.
For the others an approximation with a bound on its error is refined until both ends of the
interval round to the same value; a power that lies exactly between two values is recognised by the
approximation not leaving the middle.

A negative base with an exponent that is not whole has a complex power. `pow` answers with its real
part, `|b| ^ e * cos (π * e)`, so that a caller may take it or refuse it. One to any exponent is
one, even to an exponent that is not a number.
-/

namespace SymbolicAlgebra.BigFloat

/-! ### Real powers -/

/-- `2 ^ x` for `x = l / 2 ^ w`, where `l` is off by at most two units. -/
def approximateExp2 (w : Nat) (l : Int) : Approximation where
  mantissa := FixedPoint.exp2 w (l % (1 <<< w : Nat)).toNat
  exponent := l / (1 <<< w : Nat) - w
  error := FixedPoint.slack w

/-- `b ^ y` to about `w` bits, for `b = m * 2 ^ k` and `y = n * 2 ^ q`. -/
def approximatePow (m : Nat) (k : Int) (n q : Int) (w : Nat) : Approximation :=
  let wide := w + 8 + bitLength m + (bitLength n.natAbs + q).toNat
  let top := m.log2
  let logarithm : Int :=
    (FixedPoint.log2 wide (m <<< (wide - top)) : Int) + (k + top) * (1 <<< wide : Nat)
  let shift : Int := q + w - wide
  let product := n * logarithm * (1 <<< shift.toNat : Nat)
  approximateExp2 w (product / (1 <<< (-shift).toNat : Nat))

/-- The bound on the bits of a power that is computed exactly. -/
def exactBits : Nat := 20000

/-- A bound on the bits in front of the point of the logarithm to base two of `m * 2 ^ k`. -/
def logarithmBits (m : Nat) (k : Int) : Nat :=
  bitLength ((k + m.log2).natAbs + 1)

/-- The power of a positive `m * 2 ^ k` with exponent `n * 2 ^ q`, rounded to `p` bits. An exponent
so small that the power is nearer to one than to any other value gives one.

The power is rounded once, whatever the exponent is. Libraries of binary floats often take steps
that round more than once: the inverse of the rounded opposite power where a whole exponent is
negative, the exponential of a rounded logarithm where the exponent is not whole, a product of
rounded squares where it is large. Their last bit can be another one, as for `1.09 ^ (-4)`. -/
def powPositive (p m : Nat) (k n q : Int) : Dyadic :=
  if bitLength n.natAbs + logarithmBits m k + q < -(p + 4 : Int) then .ofInt 1
  else if 0 ≤ q ∧ n.natAbs <<< q.toNat * bitLength m ≤ exactBits then
    let e := n.natAbs <<< q.toNat
    let power := m.pow e
    if 0 ≤ n then roundScaled p power (k * e) else roundDiv p 1 power >>> (k * (e : Int))
  else if m = 1 ∧ (0 ≤ q ∨ (k * n) % (1 <<< (-q).toNat : Nat) = 0) then
    scaled 1 (k * n * (1 <<< q.toNat : Nat) / (1 <<< (-q).toNat : Nat))
  else Approximation.toBits p (approximatePow m k n q) (p + 48)

/-! ### The real part of a complex power -/

/-- The cosine of `π * y` up to sign, for `y = n * 2 ^ q` with `n` odd and `q < 0`, and the sign.
The argument is reduced to the first quarter turn, where either the cosine or the sine of the
rest is far from zero. -/
def approximateCosPi (n : Int) (halvings : Nat) (w : Nat) : Bool × Approximation :=
  let one : Nat := 1 <<< halvings
  let turn := (n % (2 * one : Nat)).toNat
  let folded := if one < turn then 2 * one - turn else turn
  let negative := one < 2 * folded
  let acute := if negative then one - folded else folded
  let wide := w + halvings + 8
  if 4 * acute ≤ one then
    let x := (FixedPoint.pi wide * acute) >>> halvings
    (negative, ⟨FixedPoint.cos wide x, -wide, FixedPoint.slack wide⟩)
  else
    let rest := one - 2 * acute
    let x := (FixedPoint.pi wide * rest) >>> (halvings + 1)
    (negative, ⟨FixedPoint.sin wide x, -wide, FixedPoint.slack wide⟩)

/-- The real part of the power of a negative number of absolute value `m * 2 ^ k` with the exponent
`n * 2 ^ q`, where `n` is odd and `q < 0`, rounded once as the power of a positive number is.
Halfway between two whole exponents the cosine is zero; for an exponent very close to zero it does
not count. -/
def realPartOfPow (p m : Nat) (k n q : Int) : Dyadic :=
  let halvings := (-q).toNat
  if halvings = 1 then .zero
  else if bitLength n.natAbs + p + 64 < halvings then powPositive p m k n q
  else
    let approximate := fun w =>
      (approximatePow m k n q w).mul (approximateCosPi n halvings w).2
    let x := Approximation.toBits p approximate (p + 64)
    if (approximateCosPi n halvings 32).1 then -x else x

/-- The real part of the power of negative infinity with the exponent `n * 2 ^ q`, where `n` is odd
and `q < 0`. -/
def realPartOfInfinitePow (n q : Int) : BigFloat :=
  let halvings := (-q).toNat
  if halvings = 1 ∨ n < 0 then zero else infinite (approximateCosPi n halvings 32).1

/-! ### The power -/

/-- The power of a value with a whole exponent `n`, which is even or odd as `even` tells. -/
def powWhole (p : Nat) (x : BigFloat) (y : Dyadic) : BigFloat :=
  match y with
  | .zero => one
  | .ofOdd n k _ =>
    let odd := k = 0
    match x with
    | nan _ => nan none
    | infinite s => if n < 0 then zero else infinite (s && odd)
    | finite .zero => if n < 0 then infinite false else zero
    | finite (.ofOdd m j _) =>
      let z := powPositive p m.natAbs (-j) n (-k)
      finite (if m < 0 ∧ odd then -z else z)

/-- The power of a value that is zero, positive, or no number, with an exponent that is not a whole
number: the exponential of the exponent times the logarithm. -/
def powFractional (p : Nat) (x y : BigFloat) : BigFloat :=
  if x = one then one
  else match x, y with
  | nan _, _ => nan none
  | _, nan _ => nan none
  | finite (.ofOdd m j _), finite (.ofOdd n k _) => finite (powPositive p m.natAbs (-j) n (-k))
  | finite (.ofOdd _ _ _), infinite s =>
    if lt one x then (if s then zero else infinite false)
    else (if s then infinite false else zero)
  | finite .zero, y => if y.isNegative then infinite false else zero
  | infinite _, y => if y.isNegative then zero else infinite false
  | x, finite .zero => x

/-- The outcome of a power. -/
inductive Power where
  | real (value : BigFloat)
  | complex (realPart : BigFloat)

/-- The power `x ^ y`, rounded to `p` bits. It is complex exactly when `x` is negative and `y` is
not a whole number. -/
def pow (p : Nat) (x y : BigFloat) : Power :=
  match y with
  | finite d =>
    if y.isWhole then .real (powWhole p x d)
    else if x.isNegative then
      match x, d with
      | finite (.ofOdd m j _), .ofOdd n k _ =>
        .complex (finite (realPartOfPow p m.natAbs (-j) n (-k)))
      | infinite _, .ofOdd n k _ => .complex (realPartOfInfinitePow n (-k))
      | _, _ => .complex (nan none)
    else .real (powFractional p x y)
  | y => if x.isNegative then .complex (nan none) else .real (powFractional p x y)

end SymbolicAlgebra.BigFloat
