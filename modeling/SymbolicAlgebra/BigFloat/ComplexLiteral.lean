import SymbolicAlgebra.BigFloat.Literal

/-!
# Texts that stand for complex numbers

A complex number is written as its real part, as its imaginary part with an `i` or a `j` after it,
or as both in this order. A part is a sign, digits, a denominator, a fraction and an exponent, each
of which may be missing, and so may the part itself. A parenthesis may stand at either end. Letter
case and blanks do not count.
-/

namespace SymbolicAlgebra

/-- A text without the digits that it begins with. -/
def dropDigits (cs : List Char) : List Char :=
  cs.dropWhile fun c => (digitValue? c).isSome

/-- A text without the sign that it begins with. -/
def dropSign (cs : List Char) : List Char :=
  (Radix.splitSign cs).2

/-- A text without the digits that it begins with, of which there is one at least. -/
def dropDigits? : List Char → Option (List Char)
  | c :: cs => if (digitValue? c).isSome then some (dropDigits cs) else none
  | [] => none

namespace ComplexLiteral

/-- A text without the denominator that it begins with. -/
def dropDenominator : List Char → List Char
  | '/' :: cs => (dropDigits? cs).getD ('/' :: cs)
  | cs => cs

/-- A text without the point that it begins with and the digits after it. -/
def dropFraction : List Char → List Char
  | '.' :: cs => dropDigits cs
  | cs => cs

/-- A text without the exponent that it begins with. -/
def dropExponent : List Char → List Char
  | 'e' :: cs => (dropDigits? (dropSign cs)).getD ('e' :: cs)
  | cs => cs

/-- A text without the longest part that it begins with. -/
def dropPart (cs : List Char) : List Char :=
  dropExponent (dropFraction (dropDenominator (dropDigits (dropSign cs))))

end ComplexLiteral

/-- A complex number as it is written: the text of its real part, and that of its imaginary part
without the letter. -/
structure ComplexLiteral where
  realPart : List Char
  imaginaryPart : Option (List Char)

namespace ComplexLiteral

/-- A text without the parentheses at its ends. -/
def dropParentheses (cs : List Char) : List Char :=
  let rest := match cs with
    | '(' :: rest => rest
    | cs => cs
  if rest.getLast? = some ')' then rest.dropLast else rest

/-- A complex number without parentheses and blanks around it. A text that is one part is imaginary
altogether if it ends in the letter. -/
def ofChars? (cs : List Char) : Option ComplexLiteral :=
  if cs.getLast? = some 'i' ∨ cs.getLast? = some 'j' then
    let parts := cs.dropLast
    let rest := dropPart parts
    if rest = [] then some ⟨[], some parts⟩
    else if dropPart rest = [] then some ⟨parts.take (parts.length - rest.length), some rest⟩
    else none
  else if dropPart cs = [] then some ⟨cs, none⟩
  else none

/-- The complex number that a text is written as, if it is one. -/
def read? (s : String) : Option ComplexLiteral :=
  ofChars? (dropParentheses ((s.toList.map Char.toLower).filter (· != ' ')))

/-- Whether a part is a quotient by zero. -/
def isByZero (part : List Char) : Bool :=
  BigFloat.read 1 (String.ofList part) matches .error (.fault .zeroDivision)

/-- Whether an imaginary part is there and a part is a quotient by zero. -/
def hasZeroDenominator (z : ComplexLiteral) : Bool :=
  z.imaginaryPart.any fun imaginaryPart => isByZero z.realPart || isByZero imaginaryPart

end ComplexLiteral

end SymbolicAlgebra
