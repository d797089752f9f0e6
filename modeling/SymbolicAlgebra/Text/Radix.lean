import SymbolicAlgebra.Text.Blank
import SymbolicAlgebra.Text.DecimalDigit

/-!
# Integers in a base

Reading integers in base two, eight, ten or sixteen. A base other than ten may be marked by a letter
after a zero, as in `0x1f`. Digits may be grouped by single underscores, and blanks may stand around
the integer.
-/

namespace SymbolicAlgebra

/-- A base in which integers are written. -/
inductive Radix where
  | binary
  | octal
  | decimal
  | hexadecimal
deriving DecidableEq, Repr

namespace Radix

/-- The base as a number. -/
def base : Radix → Nat
  | binary => 2
  | octal => 8
  | decimal => 10
  | hexadecimal => 16

/-- The letter that marks the base after a zero. -/
def letter? : Radix → Option Char
  | binary => some 'b'
  | octal => some 'o'
  | decimal => none
  | hexadecimal => some 'x'

/-- The number of bits that a digit stands for, if that is whole. -/
def bits? : Radix → Option Nat
  | binary => some 1
  | octal => some 3
  | decimal => none
  | hexadecimal => some 4

/-- The value of a letter as a digit: ten for `a`, in either case. -/
def letterValue? (c : Char) : Option Nat :=
  if c.isAlpha then some (c.toLower.toNat - 'a'.toNat + 10) else none

/-- The value of a digit: a decimal digit of any script, or a letter. -/
def digit? (r : Radix) (c : Char) : Option Nat := do
  let d ← (digitValue? c).or (letterValue? c)
  guard (d < r.base)
  return d

/-- The number with the given digits. -/
def ofDigits (r : Radix) (ds : List Nat) : Nat :=
  ds.foldl (fun n d => r.base * n + d) 0

/-! ### Reading digits -/

/-- The digits that follow a first digit. -/
def moreDigits? (r : Radix) : List Char → Option (List Nat)
  | [] => some []
  | '_' :: c :: cs => do
    let d ← r.digit? c
    let ds ← r.moreDigits? cs
    return d :: ds
  | c :: cs => do
    let d ← r.digit? c
    let ds ← r.moreDigits? cs
    return d :: ds

/-- The digits of a whole text, one at least, single underscores between them being dropped. -/
def digits? (r : Radix) : List Char → Option (List Nat)
  | [] => none
  | c :: cs => do
    let d ← r.digit? c
    let ds ← r.moreDigits? cs
    return d :: ds

/-- A text without the mark of the base, and without an underscore after it. -/
def dropMark (r : Radix) : List Char → List Char
  | '0' :: c :: cs =>
    if r.letter? = some c.toLower then (if cs.head? = some '_' then cs.tail else cs)
    else '0' :: c :: cs
  | cs => cs

/-! ### Reading integers -/

/-- A sign in front of a text: whether it is a minus, and the text after it. -/
def splitSign : List Char → Bool × List Char
  | '-' :: cs => (true, cs)
  | '+' :: cs => (false, cs)
  | cs => (false, cs)

/-- A number with its sign. -/
def withSign (negative : Bool) (n : Int) : Int :=
  if negative then -n else n

/-- The sign and the digits of an integer: blanks, a sign, a mark, digits, blanks. -/
def signedDigits? (r : Radix) (cs : List Char) : Option (Bool × List Nat) := do
  let (negative, rest) := splitSign (trimSpaces cs)
  let ds ← r.digits? (r.dropMark rest)
  return (negative, ds)

/-- The integer that a text stands for, whatever its length. -/
def readAny? (r : Radix) (cs : List Char) : Option Int := do
  let (negative, ds) ← r.signedDigits? cs
  return withSign negative (r.ofDigits ds)

/-- The base that a text is marked with after an optional minus, and else ten. -/
def ofMark : List Char → Radix
  | '-' :: cs => marked cs
  | cs => marked cs
where
  marked : List Char → Radix
    | '0' :: 'b' :: _ => binary
    | '0' :: 'o' :: _ => octal
    | '0' :: 'x' :: _ => hexadecimal
    | _ => decimal

end Radix

end SymbolicAlgebra
