import SymbolicAlgebra.BigFloat.Decimal
import SymbolicAlgebra.Text.Quoted

/-!
# Binary numbers of 64 bits

A `Binary64` is a number of the interchange format of 64 bits: 53 bits of significand, exponents
from -1074 to 971, signed zeros and infinities, and one value that is not a number. The decimal
that stands for such a number is the shortest one that reads back as it, and of those the nearest.
-/

namespace SymbolicAlgebra

/-- A number of the format of 64 bits. A finite one is `± significand * 2 ^ exponent`, where the
significand is below `2 ^ 53`, and from `2 ^ 52` on unless the exponent is the least. -/
inductive Binary64 where
  | finite (negative : Bool) (significand : Nat) (exponent : Int)
  | infinite (negative : Bool)
  | nan
deriving DecidableEq

namespace Binary64

/-- The least exponent. -/
def leastExponent : Int := -1074

/-- The greatest exponent. -/
def greatestExponent : Int := 971

/-- Zero, with a sign. -/
def zero (negative : Bool) : Binary64 :=
  finite negative 0 leastExponent

/-! ### Rounding to the format -/

/-- The number nearest to `± num / den`. -/
def ofQuotient (negative : Bool) (num den : Nat) : Binary64 :=
  if num = 0 then zero negative
  else
    let e := max (log2Quotient num den - 52) leastExponent
    let m := roundQuotient (num <<< (-e).toNat) (den <<< e.toNat)
    let (m, e) := if m = 1 <<< 53 then (1 <<< 52, e + 1) else (m, e)
    if greatestExponent < e then infinite negative else finite negative m e

/-- The number nearest to a rational. -/
def ofRat (q : Rat) : Binary64 :=
  ofQuotient (q.num < 0) q.num.natAbs q.den

/-- The number of bits of a significand. -/
def significandBits : Nat := 53

/-- The place of the leading bit from which on a value is beyond the format, in either direction. -/
def outerBit : Nat := 1100

/-- The number nearest to a binary value, which is first rounded to the bits of the significand and
then to the least exponent. -/
def ofBigFloat (x : BigFloat) : Binary64 :=
  match x.round significandBits with
  | .finite .zero => zero false
  | .finite (.ofOdd n k _) =>
    let top : Int := n.natAbs.log2 - k
    if outerBit < top then infinite (n < 0)
    else if top < -outerBit then zero (n < 0)
    else ofQuotient (n < 0) (n.natAbs <<< (-k).toNat) (1 <<< k.toNat)
  | .infinite negative => infinite negative
  | .nan _ => nan

/-- The decimal exponent from which on a value is beyond the format, in either direction. -/
def outerPlace : Nat := 400

/-- The number nearest to `± n * 10 ^ e`. -/
def ofDecimal (negative : Bool) (n : Nat) (e : Int) : Binary64 :=
  if n = 0 then zero negative
  else if outerPlace < e then infinite negative
  else if e + n.log2 / 3 + 1 < -outerPlace then zero negative
  else ofQuotient negative (n * powerOfTen e.toNat) (powerOfTen (-e).toNat)

/-- The names of the numbers that are no decimals. -/
def specialNames : List (String × (Bool → Binary64)) :=
  [("inf", infinite), ("infinity", infinite), ("nan", fun _ => nan)]

/-- The number nearest to what a text says: blanks, a sign, a decimal or a special name in either
case, and blanks. -/
def read? (s : String) : Option Binary64 :=
  let (negative, body) := Radix.splitSign (trimSpaces s.toList)
  match specialNames.lookup (String.ofList (body.map Char.toLower)) with
  | some special => some (special negative)
  | none => (DecimalLiteral.read? body).map fun d => ofDecimal negative d.significand d.place

/-! ### The exact value -/

/-- The sign as a factor. -/
def signed (negative : Bool) (n : Nat) : Int :=
  if negative then -(n : Int) else n

/-- The rational that a finite number is. -/
def toRat? : Binary64 → Option Rat
  | finite negative m e => some (scaled (signed negative m) e).toRat
  | _ => none

/-- The bits: sign, biased exponent and significand. -/
def bits : Binary64 → Nat
  | finite negative m e =>
    (if negative then 1 <<< 63 else 0) +
      (if m < 1 <<< 52 then m else ((e - leastExponent).toNat + 1) <<< 52 + (m - 1 <<< 52))
  | infinite negative => (if negative then 1 <<< 63 else 0) + 2047 <<< 52
  | nan => 4095 <<< 51

/-- The bits as sixteen hexadecimal digits. -/
def bitText (x : Binary64) : String :=
  String.ofList (hexDigits 16 x.bits)

/-! ### The shortest decimal -/

/-- A decimal `digits * 10 ^ exponent`. -/
structure Decimal where
  digits : Nat
  exponent : Int

/-- Whether `d * 10 ^ e` rounds to the finite number `m * 2 ^ k`. -/
def Decimal.readsAs (m : Nat) (k : Int) (d : Decimal) : Bool :=
  ofQuotient false (d.digits * powerOfTen d.exponent.toNat) (powerOfTen (-d.exponent).toNat) =
    finite false m k

/-- The decimal with its last digit at place `e` that is nearest to `num / den` among those that
read back as `m * 2 ^ k`: one of the two neighbours, the even one of two at the same distance. -/
def nearestAt? (m : Nat) (k : Int) (num den : Nat) (e : Int) : Option Decimal :=
  let num := num * powerOfTen (-e).toNat
  let den := den * powerOfTen e.toNat
  let near := roundQuotient num den
  let far := if near * den ≤ num then near + 1 else near - 1
  if Decimal.readsAs m k ⟨near, e⟩ then some ⟨near, e⟩
  else if Decimal.readsAs m k ⟨far, e⟩ then some ⟨far, e⟩
  else none

/-- The first hit as the last place goes down from `e`. -/
def shortestFrom (m : Nat) (k : Int) (num den : Nat) : (tries : Nat) → (e : Int) → Decimal
  | 0, e => (nearestAt? m k num den e).getD ⟨m, 0⟩
  | tries + 1, e =>
    match nearestAt? m k num den e with
    | some d => d
    | none => shortestFrom m k num den tries (e - 1)

/-- The shortest decimal that reads back as the positive number `m * 2 ^ k`. Seventeen digits
always do. -/
def shortest (m : Nat) (k : Int) : Decimal :=
  let num := m <<< k.toNat
  let den := 1 <<< (-k).toNat
  shortestFrom m k num den 17 (decimalExponent num den)

/-- Without an exponent a decimal is written when its leading digit is at most four places right of
the point and at most sixteen left of it. -/
def isPositional (e : Int) : Bool :=
  -4 ≤ e && e < 16

/-- The text of an exponent: a sign and two digits at least. -/
def exponentText (e : Int) : String :=
  (if e < 0 then "-" else "+") ++ (if e.natAbs < 10 then "0" else "") ++ toString e.natAbs

/-- The text of a positive decimal. -/
def Decimal.text (d : Decimal) : String :=
  let all := Nat.toDigits 10 d.digits
  let ds := dropTrailing (· == '0') all
  let e : Int := d.exponent + all.length - 1
  if isPositional e then
    if e < 0 then String.ofList ('0' :: '.' :: List.replicate ((-e).toNat - 1) '0' ++ ds)
    else
      let n := e.toNat + 1
      let whole := ds.take n ++ List.replicate (n - ds.length) '0'
      let fraction := ds.drop n
      String.ofList (whole ++ '.' :: (if fraction = [] then ['0'] else fraction))
  else
    let tail := if ds.length ≤ 1 then [] else '.' :: ds.drop 1
    String.ofList (ds.take 1 ++ tail) ++ "e" ++ exponentText e

/-- The text of a number: its shortest decimal. -/
def text : Binary64 → String
  | finite negative m k =>
    (if negative then "-" else "") ++ (if m = 0 then "0.0" else (shortest m k).text)
  | infinite negative => if negative then "-inf" else "inf"
  | nan => "nan"

/-- The rational that the shortest decimal of a finite number is. -/
def shortestRat? : Binary64 → Option Rat
  | finite negative m k =>
    if m = 0 then some 0
    else
      let d := shortest m k
      some (timesPowerOfTen (signed negative d.digits) d.exponent)
  | _ => none

/-- The binary value of `p` bits nearest to the shortest decimal. -/
def toBigFloat (p : Nat) : Binary64 → BigFloat
  | finite negative m k =>
    if m = 0 then .zero
    else
      let d := shortest m k
      .ofDecimal p (signed negative d.digits) d.exponent
  | infinite negative => .infinite negative
  | nan => .nan none

end Binary64

end SymbolicAlgebra
