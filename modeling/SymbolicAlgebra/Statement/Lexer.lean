import SymbolicAlgebra.Error
import SymbolicAlgebra.Statement.Token
import SymbolicAlgebra.Text.Blank
import SymbolicAlgebra.Text.DecimalDigit
import SymbolicAlgebra.Text.Letter

/-!
# From characters to tokens

`tokenize` splits a statement. A number is the longest run of digits and points from a digit, or
from a point before a digit, and holds one point at most. Every letter is a variable of its own,
blanks separate, and the symbols stand for themselves. Nothing else may occur.
-/

namespace SymbolicAlgebra

/-- A character that a number goes on with. -/
def isNumeralChar (c : Char) : Bool :=
  isAsciiDigit c || c == '.'

/-- Whether a number begins here: with a digit, or with a point that a digit follows. -/
def startsNumeral : List Char → Bool
  | '.' :: c :: _ => isAsciiDigit c
  | c :: _ => isAsciiDigit c
  | [] => false

/-- The place of the second point in a text. -/
def secondPoint? (cs : List Char) : Option Nat :=
  (cs.findIdx? (· == '.')).bind fun i =>
    ((cs.drop (i + 1)).findIdx? (· == '.')).map (i + 1 + ·)

/-- The lexeme that a single character is, if it is one. -/
def Lexeme.ofChar? (c : Char) : Option Lexeme :=
  if isLetter c then some (.letter c) else (Symbol.ofChar? c).map .symbol

/-- Why a text cannot be split, and the place. -/
structure LexicalError where
  cause : LexicalCause
  position : Nat
deriving DecidableEq, Repr

/-- The tokens of the rest of a statement, whose first character is at `position`, after the next
`skip` characters, which belong to the last token. -/
def tokensFrom : (skip position : Nat) → List Char → Except LexicalError (List Token)
  | _, position, [] => .ok [⟨.endOfInput, position⟩]
  | skip + 1, position, _ :: cs => tokensFrom skip (position + 1) cs
  | 0, position, c :: cs =>
    if isBlank c then tokensFrom 0 (position + 1) cs
    else if startsNumeral (c :: cs) then
      let numeral := (c :: cs).takeWhile isNumeralChar
      match secondPoint? numeral with
      | some i => .error ⟨.secondPoint, position + i⟩
      | none => do
        let ts ← tokensFrom (numeral.length - 1) (position + 1) cs
        return ⟨.number numeral, position⟩ :: ts
    else
      match Lexeme.ofChar? c with
      | some l => do
        let ts ← tokensFrom 0 (position + 1) cs
        return ⟨l, position⟩ :: ts
      | none => .error ⟨.unexpected c, position⟩

/-- Skipping characters is leaving them out. -/
theorem tokensFrom_skip (skip position : Nat) (cs : List Char) (h : skip ≤ cs.length) :
    tokensFrom skip position cs = tokensFrom 0 (position + skip) (cs.drop skip) := by
  induction cs generalizing skip position with
  | nil =>
    obtain rfl : skip = 0 := by simpa using h
    rfl
  | cons c cs ih =>
    cases skip with
    | zero => rfl
    | succ skip =>
      rw [tokensFrom, ih skip (position + 1) (by simpa using h), Nat.add_assoc, Nat.add_comm 1 skip]
      rfl

/-- The tokens of a statement, the end of the input last. -/
def tokenize (statement : String) : Except Error (List Token) :=
  match tokensFrom 0 0 statement.toList with
  | .ok ts => .ok ts
  | .error e => .error (.lexical e.cause statement e.position)

end SymbolicAlgebra
