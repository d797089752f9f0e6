import SymbolicAlgebra.BigFloat.Length
import SymbolicAlgebra.Binary64

/-!
# Friendly fractions

A binary value is seldom the fraction that was meant. `Friendly.within` takes the fraction that the
value's decimal is, unless its denominator is too large; then it takes `limitDenominator` of the
exact value, the nearest fraction with a denominator within the limit.
-/

namespace SymbolicAlgebra

/-- The last two convergents `p₀ / q₀` and `p₁ / q₁` of a continued fraction. -/
structure Convergents where
  p₀ : Int
  q₀ : Nat
  p₁ : Int
  q₁ : Nat

/-- The last two convergents of `n / d`, after those given, whose denominators are within the
limit. -/
def convergentsWithin (limit : Nat) (n : Int) (d : Nat) (c : Convergents) : Convergents :=
  if _h : d = 0 then c
  else
    let a := n / d
    let q₂ := c.q₀ + a.toNat * c.q₁
    if limit < q₂ then c
    else convergentsWithin limit d (n % d).toNat ⟨c.p₁, c.q₁, c.p₀ + a * c.p₁, q₂⟩
termination_by d
decreasing_by
  have h₀ := Int.emod_nonneg n (by omega : (d : Int) ≠ 0)
  have h₁ := Int.emod_lt_of_pos n (by omega : (0 : Int) < d)
  omega

/-- The fraction nearest to `q` whose denominator is at most `limit`, which is positive. -/
def limitDenominator (limit : Nat) (q : Rat) : Rat :=
  if q.den ≤ limit then q
  else
    let c := convergentsWithin limit q.num q.den ⟨0, 1, 1, 0⟩
    let k := (limit - c.q₀) / c.q₁
    let between := mkRat (c.p₀ + k * c.p₁) (c.q₀ + k * c.q₁)
    let last := mkRat c.p₁ c.q₁
    if (last - q).abs ≤ (between - q).abs then last else between

/-- The greatest denominator of a friendly fraction, if no other is asked for. -/
def friendlyDenominator : Int := 1000000000000

/-- The number of digits of the decimal that makes a binary value friendly. -/
def friendlyPlaces : Nat := 15

/-- A binary value as two fractions: the one that its decimal is, and the exact one. -/
structure Friendly where
  decimal : Rat
  exact : Rat

/-- The decimal if its denominator is within the limit, and else the nearest fraction to the exact
one that is within it. -/
def Friendly.within (limit : Int) (a : Friendly) : Except Error Rat :=
  if a.decimal.den ≤ limit then .ok a.decimal
  else if limit < 1 then .error (.fault .wrongValue)
  else .ok (limitDenominator limit.toNat a.exact)

/-- The decimal with `places` significant digits nearest to a dyadic rational. -/
def decimalRat (places : Nat) : Dyadic → Rat
  | .zero => 0
  | .ofOdd n k _ =>
    let x := scientific places n.natAbs (-k)
    timesPowerOfTen (n.sign * x.significand) (x.exponent + 1 - places)

namespace BigFloat

/-- The text of a value that is not finite. -/
def specialText (x : BigFloat) : String :=
  x.render friendlyPlaces

/-- The exact fraction that a value is. -/
def toRat : BigFloat → Except Error Rat
  | finite x => do
    (finite x).refuseLong
    return x.toRat
  | x => .error (.notFinite x.specialText)

/-- The fractions of a finite value. -/
def friendly : BigFloat → Except Error Friendly
  | finite x => do
    let exact ← (finite x).toRat
    return ⟨decimalRat friendlyPlaces x, exact⟩
  | x => .error (.notFinite x.specialText)

end BigFloat

namespace Binary64

/-- The exact fraction that a number is. -/
def toRat (x : Binary64) : Except Error Rat :=
  match x, x.toRat? with
  | _, some q => .ok q
  | nan, none => .error (.fault .wrongValue)
  | _, none => .error (.fault .overflow)

/-- The fractions of a finite number. -/
def friendly (x : Binary64) : Except Error Friendly :=
  match x.shortestRat?, x.toRat? with
  | some decimal, some exact => .ok ⟨decimal, exact⟩
  | _, _ => .error (.notFinite x.text)

end Binary64

end SymbolicAlgebra
