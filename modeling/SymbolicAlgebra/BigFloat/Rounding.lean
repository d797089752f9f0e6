/-!
# Rounding to a number of bits

Every rounding of the library is to the nearest value, a tie going to the even neighbour.
`roundQuotient` rounds a quotient to an integer; `roundScaled` and `roundRat` round a binary value
and a rational to a mantissa of `p` bits. Values are the dyadic rationals `n * 2 ^ (-k)`.
-/

namespace SymbolicAlgebra

/-- The nearest integer to `n / d`, a half going to the even neighbour. -/
def roundQuotient (n d : Nat) : Nat :=
  let q := n / d
  let twice := 2 * (n % d)
  if twice < d ∨ (twice = d ∧ q % 2 = 0) then q else q + 1

/-- The rounded quotient is at most half a unit away. -/
theorem roundQuotient_near (n d : Nat) (hd : 0 < d) :
    2 * n ≤ 2 * (d * roundQuotient n d) + d ∧ 2 * (d * roundQuotient n d) ≤ 2 * n + d := by
  have hmod := Nat.div_add_mod n d
  have hlt := Nat.mod_lt n hd
  simp only [roundQuotient]
  split
  · omega
  · rw [Nat.mul_add]
    omega

/-- A tie goes to the even neighbour. -/
theorem roundQuotient_even (n d : Nat) (h : 2 * (n % d) = d) : roundQuotient n d % 2 = 0 := by
  simp only [roundQuotient, h, Nat.lt_irrefl, true_and, false_or]
  generalize n / d = q
  split <;> omega

/-- The number of binary digits of a natural number. -/
def bitLength (n : Nat) : Nat :=
  if n = 0 then 0 else n.log2 + 1

/-- The value `n * 2 ^ e`. -/
def scaled (n e : Int) : Dyadic :=
  Dyadic.ofIntWithPrec n (-e)

/-- The value `n * 2 ^ e` rounded to a mantissa of `p` bits. -/
def roundScaled (p : Nat) (n e : Int) : Dyadic :=
  let excess := bitLength n.natAbs - p
  if excess = 0 then scaled n e
  else scaled (n.sign * roundQuotient n.natAbs (1 <<< excess)) (e + excess)

/-- A dyadic rational rounded to a mantissa of `p` bits. -/
def roundDyadic (p : Nat) : Dyadic → Dyadic
  | .zero => .zero
  | .ofOdd n k _ => roundScaled p n (-k)

/-- The exponent `t` with `2 ^ t ≤ a / b < 2 ^ (t + 1)`, for positive `a` and `b`. -/
def log2Quotient (a b : Nat) : Int :=
  let t : Int := (a.log2 : Int) - b.log2
  if b <<< t.toNat ≤ a <<< (-t).toNat then t else t - 1

/-- The quotient of `a` by a positive `b`, rounded to a mantissa of `p` bits. -/
def roundDiv (p : Nat) (a : Int) (b : Nat) : Dyadic :=
  if a = 0 then .zero
  else
    let shift : Int := p - 1 - log2Quotient a.natAbs b
    scaled (a.sign * roundQuotient (a.natAbs <<< shift.toNat) (b <<< (-shift).toNat)) (-shift)

/-- A rational rounded to a mantissa of `p` bits. -/
def roundRat (p : Nat) (q : Rat) : Dyadic :=
  roundDiv p q.num q.den

/-- The position of the leading bit of a nonzero value: `2 ^ t ≤ |x| < 2 ^ (t + 1)`. -/
def topBit : Dyadic → Int
  | .zero => 0
  | .ofOdd n k _ => (n.natAbs.log2 : Int) - k

end SymbolicAlgebra
