import SymbolicAlgebra.BigFloat.Basic
import SymbolicAlgebra.BigFloat.Power
import SymbolicAlgebra.Error

/-!
# Values too long to be written out

The exponent of a binary value has no bounds, but the integers that such a value is written out with
have. `refuseLong` refuses a value whose exponent is too far from zero for that, `boundedPow` an
exponent of a power, `refuseWideText` a decimal with too many digits, and `refuseWideQuotient` a
quotient with too many bits.
-/

namespace SymbolicAlgebra

/-- The number of bits of the longest integer that can be stored. It depends on the machine, so that
results about wide numbers speak of those that `refuseBits` refuses, whichever they are. -/
def storableBits : Nat := 4294967296

/-- The number of bits of the longest integer that there is a form for: as many digits of thirty
bits as a size of 63 bits counts in bytes, four to a digit. -/
def integerBits : Nat := 30 * 2305843009213693945

/-- An integer of so many bits, unless it is too long. -/
def refuseBits (bits : Int) : Except Error Unit :=
  if bits ≤ storableBits then .ok ()
  else .error (.fault (if bits ≤ integerBits then .outOfMemory else .overflow))

namespace BigFloat

/-- A value whose exponent is too far from zero for its fraction to be written out is refused. -/
def refuseLong : BigFloat → Except Error Unit
  | finite (.ofOdd _ k _) => refuseBits k.natAbs
  | _ => .ok ()

/-- A value with as many decimal digits as `p` bits are worth is refused if those are too many. -/
def refuseWideText (p : Int) : BigFloat → Except Error Unit
  | finite (.ofOdd _ _ _) => refuseBits p
  | _ => .ok ()

/-- A quotient that does not end is refused if its precision `p` is too large for its bits. -/
def refuseWideQuotient (p : Nat) (x y : BigFloat) : Except Error Unit :=
  match x, y with
  | finite (.ofOdd _ _ _), finite (.ofOdd n _ _) => if n.natAbs = 1 then .ok () else refuseBits p
  | _, _ => .ok ()

/-- The whole part of a dyadic rational, toward zero. -/
def truncateDyadic : Dyadic → Except Error Int
  | .zero => .ok 0
  | .ofOdd n k _ =>
    if k ≤ 0 then do
      refuseBits (-k)
      return n * ((1 <<< (-k).toNat : Nat) : Int)
    else if bitLength n.natAbs ≤ k then .ok 0
    else .ok (n.tdiv (1 <<< k.toNat : Nat))

/-- The power `x ^ y`, where an exponent `y` that is too large to be written out is refused. Powers
of one are known without it. -/
def boundedPow (p : Nat) (x y : BigFloat) : Except Error Power := do
  match y with
  | finite (.ofOdd _ k _) => if x ≠ one then refuseBits (-k)
  | _ => pure ()
  return pow p x y

end BigFloat

end SymbolicAlgebra
