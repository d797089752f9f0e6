/-!
# Elementary functions in fixed point

A fixed point value with `w` bits is a natural number that stands for itself divided by `2 ^ w`.
The functions of this module are sums of series in that form. Every division rounds down, so a sum
of `n` terms is off by a few times `n` units of the last place; `slack w` bounds all of them.
-/

namespace SymbolicAlgebra.FixedPoint

/-- A bound on the error of the functions below at `w` bits, in units of the last place. -/
def slack (w : Nat) : Nat :=
  16 * w + 64

/-! ### Constants -/

/-- The terms of `∑ 1 / (k * 2 ^ k)` from `k` on. -/
def logTwoTerms (w : Nat) : (count k : Nat) → Nat
  | 0, _ => 0
  | count + 1, k => (1 <<< w) / (k <<< k) + logTwoTerms w count (k + 1)

/-- The natural logarithm of two. -/
def logTwo (w : Nat) : Nat :=
  logTwoTerms w w 1

/-- The terms of `∑ (-1) ^ k / ((2 * k + 1) * n ^ (2 * k + 1))`, `power` being the next
`1 / n ^ (2 * k + 1)`. -/
def arctanTerms (square : Nat) : (count k power : Nat) → Int
  | 0, _, _ => 0
  | count + 1, k, power =>
    if power = 0 then 0
    else (power / (2 * k + 1) : Nat) - arctanTerms square count (k + 1) (power / square)

/-- The arc tangent of `1 / n`. -/
def arctanInverse (w n : Nat) : Int :=
  arctanTerms (n * n) w 0 ((1 <<< w) / n)

/-- The number `π`, as `16 * arctan (1 / 5) - 4 * arctan (1 / 239)`. -/
def pi (w : Nat) : Nat :=
  (16 * arctanInverse w 5 - 4 * arctanInverse w 239).toNat

/-! ### Exponential, logarithm and cosine -/

/-- The terms of the exponential series of `x` from the term of index `i` on. -/
def expTerms (w x : Nat) : (count i term : Nat) → Nat
  | 0, _, _ => 0
  | count + 1, i, term =>
    if term = 0 then 0 else term + expTerms w x count (i + 1) (term * x / ((i + 1) <<< w))

/-- The power of two with exponent `x`, for `x` from zero to one. -/
def exp2 (w x : Nat) : Nat :=
  expTerms w ((x * logTwo w) >>> w) (2 * w + 2) 0 (1 <<< w)

/-- The next `count` binary digits of the logarithm to base two of `x`, after the digits `acc`, for
`x` from one to two: squaring doubles the logarithm. -/
def log2Digits (w : Nat) : (count x acc : Nat) → Nat
  | 0, _, acc => acc
  | count + 1, x, acc =>
    let square := (x * x) >>> w
    if 2 <<< w ≤ square then log2Digits w count (square >>> 1) (2 * acc + 1)
    else log2Digits w count square (2 * acc)

/-- The logarithm to base two of `x`, for `x` from one to two. -/
def log2 (w x : Nat) : Nat :=
  log2Digits w w x 0

/-- The terms of an alternating series whose term of index `i` is the one before it times
`square / (i * (i - 1))`. -/
def alternatingTerms (w square : Nat) : (count i term : Nat) → Int
  | 0, _, _ => 0
  | count + 1, i, term =>
    if term = 0 then 0
    else (term : Int) -
      alternatingTerms w square count (i + 2) (term * square / (((i + 1) * (i + 2)) <<< w))

/-- The cosine of `x`, for `x` from zero to one. -/
def cos (w x : Nat) : Nat :=
  (alternatingTerms w ((x * x) >>> w) (w + 2) 0 (1 <<< w)).toNat

/-- The sine of `x`, for `x` from zero to one. -/
def sin (w x : Nat) : Nat :=
  (alternatingTerms w ((x * x) >>> w) (w + 2) 1 x).toNat

end SymbolicAlgebra.FixedPoint
