import SymbolicAlgebra.BigFloat.Decimal
import SymbolicAlgebra.BigFloat.Length

/-!
# Texts that stand for binary values

`BigFloat.read` takes the value nearest to what a text says, at a precision. A text names a special
value, is a quotient of two integers, or is a number with a point and an exponent. The mark `0x`,
`0o` or `0b` after an optional minus makes the base sixteen, eight or two. The exponent follows an
`e`, or in base sixteen an `@`, and counts powers of the base; after a `p` it counts powers of two.
-/

namespace SymbolicAlgebra.BigFloat

/-- The names of the values that are no numbers on the line. -/
def specialNames : List (String × BigFloat) :=
  [("inf", infinite false), ("+inf", infinite false), ("-inf", infinite true), ("nan", nan none),
    ("oo", infinite false), ("+oo", infinite false), ("-oo", infinite true)]

/-- A text without the letters `l` at its end, which say nothing. -/
def dropSuffix (cs : List Char) : List Char :=
  dropTrailing (· == 'l') cs

/-- The marks that may stand before an exponent, each with the base whose power the exponent
gives. -/
def exponentMarks : Radix → List (Char × Radix)
  | .binary => [('e', .binary), ('p', .binary)]
  | .octal => [('e', .octal)]
  | .decimal => [('e', .decimal)]
  | .hexadecimal => [('@', .hexadecimal), ('p', .binary)]

/-- A number and its exponent with the base of the power; without a mark the exponent is missing. -/
def splitExponent (r : Radix) (cs : List Char) : List Char × Option (Radix × List Char) :=
  match (exponentMarks r).find? fun mark => cs.contains mark.1 with
  | some mark => ((splitAtFirst (· == mark.1) cs).1,
      (splitAtFirst (· == mark.1) cs).2.map (mark.2, ·))
  | none => (cs, none)

/-- The value of `p` bits nearest to the integer `n` times `base ^ e`, of which `places` digits in
base `r` stand after the point. A power of ten belongs to a decimal and to nothing else; a negative
one divides, which may be refused for the precision. -/
def ofLiteral (p : Nat) (r base : Radix) (n e : Int) (places : Nat) : Except Error BigFloat := do
  match r.bits?, base.bits? with
  | some bits, some exponentBits =>
    return finite (roundScaled p n (e * exponentBits - places * bits))
  | _, _ =>
    if e < places then refuseWideQuotient p (ofInt n) (ofInt 10)
    return ofDecimal p n (e - places)

/-- The digits of a number without its point, as an integer. A zero may be missing in front of the
point. -/
def significand? (r : Radix) (whole : List Char) : (fraction : Option (List Char)) → Option Int
  | none => r.readAny? whole
  | some fraction => r.readAny? ((if whole = [] then ['0'] else whole) ++ fraction)

/-- The value of `p` bits nearest to a number in a base: a sign, digits with at most one point among
them, and an exponent. Everything between the point and the exponent counts as a place, even a
blank, apart from zeros at the end. -/
def readPointed? (p : Nat) (r : Radix) (cs : List Char) : Option (Except Error BigFloat) := do
  let (significand, exponent) := splitExponent r cs
  let (whole, fraction) := splitAtFirst (· == '.') significand
  let fraction := fraction.map (dropTrailing (· == '0'))
  let (base, e) ← match exponent with
    | none => some (r, 0)
    | some (base, ds) => (readInteger? ds).map (base, ·)
  let n ← significand? r whole fraction
  return ofLiteral p r base n e (fraction.getD []).length

/-- The value of `p` bits nearest to a quotient of integers in a base. -/
def readQuotient (p : Nat) (r : Radix) (num den : List Char) : Except Error BigFloat :=
  match r.readInteger? (dropSuffix num), r.readInteger? (dropSuffix den) with
  | some n, some d =>
    if d = 0 then .error (.fault .zeroDivision)
    else do
      refuseWideQuotient p (ofInt n) (ofInt d)
      return finite (roundDiv p (n * d.sign) d.natAbs)
  | _, _ => .error (.fault .wrongValue)

/-- The value of `p` bits that a text stands for. Blanks around the text do not count, nor does
letter case, nor do underscores in a number that is no quotient. -/
def read (p : Nat) (s : String) : Except Error BigFloat :=
  let cs := trimBlanks (s.toList.map Char.toLower)
  match specialNames.lookup (String.ofList cs) with
  | some x => .ok x
  | none =>
    match splitAtFirst (· == '/') cs with
    | (num, some den) => readQuotient p (.ofMark cs) num den
    | (number, none) =>
      match readPointed? p (.ofMark cs) ((dropSuffix number).filter (· != '_')) with
      | some x => x
      | none => .error (.fault .wrongValue)

end SymbolicAlgebra.BigFloat
