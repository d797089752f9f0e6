import SymbolicAlgebra.Error
import SymbolicAlgebra.Text.Radix

/-!
# Decimal numerals

Reading and writing integers and exact fractions. A numeral has at most `numeralLimit` digits, in
either direction; a longer one is refused, whatever its value. Digits are grouped as in `Radix`.
-/

namespace SymbolicAlgebra

/-- The greatest number of digits that a numeral has. -/
def numeralLimit : Nat := 4300

/-- A power of ten. -/
def powerOfTen (n : Nat) : Nat :=
  Nat.pow 10 n

/-- The least number whose numeral is too long. -/
def numeralBound : Nat := powerOfTen numeralLimit

/-! ### Writing -/

/-- The numeral of an integer. -/
def integerText (n : Int) : Except Error String :=
  if n.natAbs < numeralBound then .ok (toString n) else .error (.fault .wrongValue)

/-- The numeral of a rational: its numerator, and its denominator unless that is one. -/
def rationalText (q : Rat) : Except Error String :=
  if q.den = 1 then integerText q.num
  else do
    let num ← integerText q.num
    let den ← integerText q.den
    return num ++ "/" ++ den

/-! ### Reading integers -/

/-- Digits, unless there are more than a decimal numeral has. The other bases have no limit. -/
def withinLimit? (r : Radix) (ds : List Nat) : Option (List Nat) :=
  if r = .decimal ∧ numeralLimit < ds.length then none else some ds

/-- The number with the digits of a whole text, unless there are too many. -/
def readNatural? (cs : List Char) : Option Nat := do
  let ds ← Radix.decimal.digits? cs
  return Radix.decimal.ofDigits (← withinLimit? .decimal ds)

/-- The integer that a text stands for in a base, unless it has too many digits. -/
def Radix.readInteger? (r : Radix) (cs : List Char) : Option Int := do
  let (negative, ds) ← r.signedDigits? cs
  return withSign negative (r.ofDigits (← withinLimit? r ds))

/-- An integer: blanks, a sign, digits, blanks. -/
def readInteger? (cs : List Char) : Option Int :=
  Radix.decimal.readInteger? cs

/-! ### Reading fractions -/

/-- The text before the first character of a kind, and the text after it if there is one. -/
def splitAtFirst (p : Char → Bool) : List Char → List Char × Option (List Char)
  | [] => ([], none)
  | c :: cs => if p c then ([], some cs) else
    let (before, after) := splitAtFirst p cs
    (c :: before, after)

/-- The mark of an exponent. -/
def isExponentMark (c : Char) : Bool :=
  c == 'e' || c == 'E'

/-- The digits of a text that may be empty. -/
def optionalDigits? (cs : List Char) : Option (List Nat) :=
  if cs = [] then some [] else Radix.decimal.digits? cs

/-- The product of an integer and a power of ten. -/
def timesPowerOfTen (n e : Int) : Rat :=
  if 0 ≤ e then (n * powerOfTen e.toNat : Int) else mkRat n (powerOfTen (-e).toNat)

/-- A decimal as it is written: the digits on the two sides of the point, and the sign and the
digits of the exponent. -/
structure DecimalLiteral where
  whole : List Nat
  fraction : List Nat
  isNegativeExponent : Bool
  exponentDigits : List Nat

namespace DecimalLiteral

/-- A decimal without a sign: digits, a point, digits and an exponent, where one of the two groups
of digits may be missing, and the point and the exponent too. -/
def read? (cs : List Char) : Option DecimalLiteral := do
  let (significand, exponent) := splitAtFirst isExponentMark cs
  let (whole, fraction) := splitAtFirst (· == '.') significand
  let whole ← optionalDigits? whole
  let fraction ← optionalDigits? (fraction.getD [])
  let (negative, rest) := Radix.splitSign (exponent.getD ['0'])
  let exponentDigits ← Radix.decimal.digits? rest
  guard (whole ≠ [] ∨ fraction ≠ [])
  return ⟨whole, fraction, negative, exponentDigits⟩

/-- The digits as an integer. -/
def significand (d : DecimalLiteral) : Nat :=
  Radix.decimal.ofDigits (d.whole ++ d.fraction)

/-- The exponent. -/
def exponent (d : DecimalLiteral) : Int :=
  Radix.withSign d.isNegativeExponent (Radix.decimal.ofDigits d.exponentDigits)

/-- The place of the last digit. -/
def place (d : DecimalLiteral) : Int :=
  d.exponent - d.fraction.length

/-- The value. -/
def toRat (d : DecimalLiteral) : Rat :=
  timesPowerOfTen d.significand d.place

/-- Whether no group of digits is too long. -/
def isWithinLimit (d : DecimalLiteral) : Bool :=
  [d.whole, d.fraction, d.exponentDigits].all (·.length ≤ numeralLimit)

end DecimalLiteral

/-- An exact fraction: blanks, a sign, then either two numbers with a slash between them or a
decimal, and blanks. -/
def readFraction (cs : List Char) : Except Error Rat :=
  let (negative, body) := Radix.splitSign (trimBlanks cs)
  match splitAtFirst (· == '/') body with
  | (num, some den) =>
    match readNatural? num, readNatural? den with
    | some n, some d =>
      if d = 0 then .error (.fault .zeroDivision) else .ok (mkRat (Radix.withSign negative n) d)
    | _, _ => .error (.fault .wrongValue)
  | (decimal, none) =>
    match (DecimalLiteral.read? decimal).filter DecimalLiteral.isWithinLimit with
    | some d => .ok (if negative then -d.toRat else d.toRat)
    | none => .error (.fault .wrongValue)

end SymbolicAlgebra
