import SymbolicAlgebra.BigFloat.Approximation
import SymbolicAlgebra.BigFloat.Basic
import SymbolicAlgebra.BigFloat.Series
import SymbolicAlgebra.Text.Numeral

/-!
# Decimals of binary values

`scientific` is the decimal with a number of significant digits that is nearest to a binary value,
`render` its text, and `ofDecimal` the binary value nearest to a decimal. How many digits a
precision is worth is `decimalPlaces`. Values near enough to one are handled exactly; for the
others, where the exact integers would be too long, approximations are refined until they settle the
rounding. No such value is halfway between two others.
-/

namespace SymbolicAlgebra

/-! ### Writing -/

/-- A positive decimal: `significand * 10 ^ (exponent + 1 - places)`, where the significand has
`places` digits, so that `exponent` is the place of the leading one. -/
structure Scientific where
  significand : Nat
  exponent : Int

/-- Whether `10 ^ e ≤ num / den`. -/
def tenPowLe (e : Int) (num den : Nat) : Bool :=
  powerOfTen e.toNat * den ≤ num * powerOfTen (-e).toNat

/-- The exponent `e` with `10 ^ e ≤ num / den < 10 ^ (e + 1)`. The first guess multiplies the binary
exponent by the logarithm of two to base ten. -/
def decimalExponent (num den : Nat) : Int :=
  let guess := log2Quotient num den * 1292913986 / 4294967296
  if tenPowLe (guess + 1) num den then guess + 1
  else if tenPowLe guess num den then guess
  else guess - 1

/-- The decimal with `places` significant digits nearest to `num / den`, a tie going to the even
neighbour. -/
def toScientific (places num den : Nat) : Scientific :=
  let e := decimalExponent num den
  let shift : Int := places - 1 - e
  let n := roundQuotient (num * powerOfTen shift.toNat) (den * powerOfTen (-shift).toNat)
  if n = powerOfTen places then ⟨powerOfTen (places - 1), e + 1⟩ else ⟨n, e⟩

/-- The number of bits beyond which a binary or decimal exponent counts as remote, where the other
parts of a value have `size` bits or digits. -/
def remoteBits (size : Nat) : Nat :=
  20000 + 4 * size

/-- A place that is at most two below that of the leading decimal digit of a value whose leading
bit has the place `t`. -/
def decimalPlaceBelow (t : Int) : Int :=
  let w := 2 * bitLength t.natAbs + 32
  let log2OfTen : Nat := 3 <<< w + FixedPoint.log2 w ((5 <<< w) >>> 2)
  t * (1 <<< w : Nat) / log2OfTen - 1

/-- The decimal with the fewest digits, `places` at least, that `digitsAt` gives as the leading
place goes up from `e`. -/
def scientificFrom (places : Nat) (digitsAt : Int → Nat) : (tries : Nat) → (e : Int) → Scientific
  | 0, e => ⟨digitsAt e, e⟩
  | tries + 1, e =>
    let n := digitsAt e
    if n < powerOfTen places then ⟨n, e⟩ else scientificFrom places digitsAt tries (e + 1)

/-- The decimal with `places` significant digits nearest to `n * 2 ^ k`, where `k` is remote. -/
def toScientificRemote (places n : Nat) (k : Int) : Scientific :=
  let digitsAt := fun e : Int =>
    let place : Int := e + 1 - places
    Approximation.toNearest (fun w => (Approximation.ofDecimal w n (-place)).shift k)
      (4 * places + 64 + bitLength n + 2 * bitLength k.natAbs)
  scientificFrom places digitsAt 3 (decimalPlaceBelow (n.log2 + k))

/-- The decimal with `places` significant digits nearest to the positive `n * 2 ^ k`. -/
def scientific (places n : Nat) (k : Int) : Scientific :=
  if remoteBits (places + bitLength n) < k.natAbs then toScientificRemote places n k
  else toScientific places (n <<< k.toNat) (1 <<< (-k).toNat)

/-- How a decimal is written: for which place of the leading digit it has no exponent, whether a
digit always follows the point before an exponent, and the least number of digits of the
exponent. -/
structure DecimalStyle where
  isPositional : (places : Nat) → (e : Int) → Bool
  keepsPoint : Bool
  exponentDigits : Nat

namespace DecimalStyle

/-- Decimals are written without an exponent when their leading digit is near enough to the point:
left of it by less than `places`, right of it by less than a third of that or by less than five. -/
def full : DecimalStyle where
  isPositional places e := min (-((places / 3 : Nat) : Int)) (-5) < e && e < places
  keepsPoint := true
  exponentDigits := 1

/-- Inside a message the leading digit is at most four places right of the point, and left of it by
so much that a digit after the point is still within `places`. -/
def brief : DecimalStyle where
  isPositional places e := -4 ≤ e && e + 1 < places
  keepsPoint := false
  exponentDigits := 2

end DecimalStyle

/-- The digits after the point: trailing zeros are dropped, but one digit is kept. -/
def fractionDigits (ds : List Char) : List Char :=
  match dropTrailing (· == '0') ds with
  | [] => ['0']
  | ds => ds

/-- The text of an exponent: a mark, a sign and digits. -/
def exponentMark (style : DecimalStyle) (e : Int) : String :=
  let digits := toString e.natAbs
  (if e < 0 then "e-" else "e+") ++ "".pushn '0' (style.exponentDigits - digits.length) ++ digits

/-- The text of a positive decimal. -/
def Scientific.text (style : DecimalStyle) (places : Nat) (x : Scientific) : String :=
  let ds := Nat.toDigits 10 x.significand
  let join := fun (whole fraction : List Char) => whole ++ '.' :: fractionDigits fraction
  if style.isPositional places x.exponent then
    if 0 ≤ x.exponent then
      let n := x.exponent.toNat + 1
      String.ofList (join (ds.take n) (ds.drop n))
    else String.ofList (join ['0'] (List.replicate ((-x.exponent).toNat - 1) '0' ++ ds))
  else
    let isBare := !style.keepsPoint && (ds.drop 1).all (· == '0')
    String.ofList (if isBare then ds.take 1 else join (ds.take 1) (ds.drop 1)) ++
      exponentMark style x.exponent

/-- The number of decimal digits that `p` bits are worth: one less than `p * log₁₀ 2`, rounded, and
one at least. -/
def decimalPlaces (p : Nat) : Nat :=
  max 1 (roundQuotient (p * 10000000000000000) 33219280948873626 - 1)

namespace BigFloat

/-- The text of a value with `places` significant digits in a style. -/
def renderIn (style : DecimalStyle) (places : Nat) : BigFloat → String
  | finite .zero => "0.0"
  | finite (.ofOdd n k _) =>
    (if n < 0 then "-" else "") ++ (scientific places n.natAbs (-k)).text style places
  | infinite negative => if negative then "-inf" else "inf"
  | nan _ => "nan"

/-- The text of a value with `places` significant digits. -/
def render (places : Nat) (x : BigFloat) : String :=
  x.renderIn .full places

/-- The value of `p` bits nearest to `n * 10 ^ e`. -/
def ofDecimal (p : Nat) (n e : Int) : BigFloat :=
  if n = 0 then zero
  else if remoteBits (p + bitLength n.natAbs) < e.natAbs then
    let x := Approximation.toBits p (fun w => Approximation.ofDecimal w n.natAbs e)
      (p + 64 + bitLength n.natAbs + 2 * bitLength e.natAbs)
    finite (if n < 0 then -x else x)
  else if 0 ≤ e then finite (roundScaled p (n * powerOfTen e.toNat) 0)
  else finite (roundDiv p n (powerOfTen (-e).toNat))

end BigFloat

end SymbolicAlgebra
