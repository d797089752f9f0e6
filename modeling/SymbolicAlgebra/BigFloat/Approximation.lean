import SymbolicAlgebra.BigFloat.Rounding

/-!
# Approximations with a bound on their error

An `Approximation` of a positive value is a binary mantissa and exponent with a bound on how far off
the mantissa is. Rounding is undecided as long as the two ends of the interval round differently;
`refine` then asks for a closer approximation. Powers of ten of any size are approximated by
repeated squaring of five, so nothing is as long as the exponent is large.
-/

namespace SymbolicAlgebra

/-- An approximation of a positive value: `mantissa * 2 ^ exponent`, off by at most `error` units
of the mantissa. -/
structure Approximation where
  mantissa : Nat
  exponent : Int
  error : Nat

namespace Approximation

/-- A natural number, exactly. -/
def ofNat (n : Nat) : Approximation :=
  ⟨n, 0, 0⟩

/-- The value times a power of two. -/
def shift (k : Int) (a : Approximation) : Approximation :=
  { a with exponent := a.exponent + k }

/-- The value with at most `w` bits of mantissa; what is cut off adds to the error. -/
def shorten (w : Nat) (a : Approximation) : Approximation :=
  let excess := bitLength a.mantissa - w
  if excess = 0 then a else ⟨a.mantissa >>> excess, a.exponent + excess, a.error >>> excess + 2⟩

/-- The product of two approximations. -/
def mul (a b : Approximation) : Approximation where
  mantissa := a.mantissa * b.mantissa
  exponent := a.exponent + b.exponent
  error := a.mantissa * b.error + b.mantissa * a.error + a.error * b.error

/-- The reciprocal to `w` bits, of an approximation whose error is below its mantissa. -/
def inverse (w : Nat) (a : Approximation) : Approximation :=
  let k := bitLength a.mantissa + w
  let reciprocal := (1 <<< k) / a.mantissa
  ⟨reciprocal, -a.exponent - k, (reciprocal + 1) * a.error / (a.mantissa - a.error) + 2⟩

/-- The power with exponent `n` to about `w` bits. -/
def pow (w : Nat) (a : Approximation) (n : Nat) : Approximation :=
  if n = 0 then ofNat 1
  else
    let half := pow w a (n / 2)
    let square := (half.mul half).shorten w
    if n % 2 = 0 then square else (square.mul a).shorten w
termination_by n

/-- The value `n * 10 ^ e` to about `w` bits. -/
def ofDecimal (w n : Nat) (e : Int) : Approximation :=
  let fives := (ofNat 5).pow w e.natAbs
  ((ofNat n).mul (if 0 ≤ e then fives else fives.inverse w)).shift e

/-! ### Rounding -/

/-- The least and the greatest value of the interval, as values without error. -/
def ends (a : Approximation) : Approximation × Approximation :=
  (⟨a.mantissa - a.error, a.exponent, 0⟩, ⟨a.mantissa + a.error, a.exponent, 0⟩)

/-- The mantissa and exponent rounded to `p` bits. -/
def toDyadic (p : Nat) (a : Approximation) : Dyadic :=
  roundScaled p a.mantissa a.exponent

/-- The nearest natural number to the mantissa and exponent. -/
def toNat (a : Approximation) : Nat :=
  roundQuotient (a.mantissa <<< a.exponent.toNat) (1 <<< (-a.exponent).toNat)

/-- What the whole interval rounds to, if that is only one value. -/
def settled? {α : Type} [DecidableEq α] (round : Approximation → α)
    (a : Approximation) : Option α :=
  if round a.ends.1 = round a.ends.2 then some (round a.ends.1) else none

/-- What the values that `approximate` approximates ever closer round to. Its argument, a number of
bits, doubles from `w` on as long as rounding is undecided; `last` decides after that. -/
def refine {α : Type} [DecidableEq α] (round last : Approximation → α)
    (approximate : Nat → Approximation) : (tries w : Nat) → α
  | 0, w => last (approximate w)
  | tries + 1, w =>
    match (approximate w).settled? round with
    | some x => x
    | none => refine round last approximate tries (2 * w)

/-- The value at `p` bits when no refinement leaves the middle between two values: the middle is
the value with half as many bits as the approximation has, and it rounds to the even side. -/
def roundMiddle (p : Nat) (a : Approximation) : Dyadic :=
  roundDyadic p (a.toDyadic (bitLength a.mantissa / 2))

/-- The value at `p` bits of what `approximate` approximates. -/
def toBits (p : Nat) (approximate : Nat → Approximation) (w : Nat) : Dyadic :=
  refine (toDyadic p) (roundMiddle p) approximate 6 w

/-- The nearest natural number to what `approximate` approximates. -/
def toNearest (approximate : Nat → Approximation) (w : Nat) : Nat :=
  refine toNat toNat approximate 6 w

end Approximation

end SymbolicAlgebra
