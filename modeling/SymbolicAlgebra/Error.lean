/-!
# Why a computation is refused

`Error` lists the causes, each with the texts that belong to it, and `Error.message` gives the
wording. A cause that names a number, a tree or a token carries its rendered text, since rendering
can itself be refused. `Fault` is a refusal that has a kind and no wording of its own.
-/

namespace SymbolicAlgebra

/-- A refusal without words: only its kind is told. -/
inductive Fault where
  /-- An operand of a kind that the operation does not take. -/
  | wrongType
  /-- A text that does not read as the number it should be, or a numeral too long to read or
  show. -/
  | wrongValue
  /-- A quotient of integers by zero, met while a text is read. -/
  | zeroDivision
  /-- A value that is too large for its new form. -/
  | overflow
  /-- An integer too long to be stored. -/
  | outOfMemory
  /-- A value that does not have the asked operation. -/
  | noSuchOperation
deriving DecidableEq, Repr

/-- The work during which an expression of an unknown kind was met. -/
inductive Task where
  | simplification
  | canonicalOrdering
  | substitution
  | solving
deriving DecidableEq, Repr

/-- The name of a task. -/
def Task.name : Task → String
  | simplification => "simplification"
  | canonicalOrdering => "canonical ordering"
  | substitution => "substitution"
  | solving => "solving"

/-- Why a character ends the reading of a statement. -/
inductive LexicalCause where
  /-- A second decimal point in one number. -/
  | secondPoint
  /-- A character that begins no token. -/
  | unexpected (c : Char)
deriving DecidableEq, Repr

/-- The wording of a lexical cause. -/
def LexicalCause.message : LexicalCause → String
  | secondPoint => "Number has more than one decimal point"
  | unexpected c => "Unexpected character '" ++ c.toString ++ "'"

/-- What the grammar asked for where a token did not fit. -/
inductive GrammarCause where
  | afterStatement
  | variableAfterAt
  | replacement
  | doubleStar
  | closingParenthesis
  | operand
deriving DecidableEq, Repr

/-- The wording of a grammatical cause. -/
def GrammarCause.message : GrammarCause → String
  | afterStatement => "Unexpected token after the end of the statement"
  | variableAfterAt => "Expected a variable after '@'"
  | replacement => "Expected a number or a variable to substitute"
  | doubleStar => "Use '^' for powers instead of '**'"
  | closingParenthesis => "Expected ')'"
  | operand => "Expected a number, a variable or '('"

/-- Why a computation is refused. -/
inductive Error where
  /-- A number divided by zero. -/
  | divisionByZero (dividend : String)
  /-- A fraction written with the denominator zero. -/
  | zeroDenominator (numerator : String)
  /-- Zero raised to a negative power. -/
  | zeroToNegativePower (exponent : String)
  /-- A power that is not a real number. -/
  | notReal (base exponent : String)
  /-- An expression outside the closed set of kinds. -/
  | unsupported (kind : String) (task : Task)
  /-- The unknown does not occur in the equation. -/
  | unknownAbsent (unknown equation : String)
  /-- The unknown occurs twice or more on one side. -/
  | unknownRepeated (unknown side : String)
  /-- The unknown occurs `count` times after normalization. -/
  | unknownRepeatedIn (unknown : String) (count : Nat) (difference : String)
  /-- The unknown was counted but no path leads to it. -/
  | unknownLost (unknown difference : String)
  /-- A step of a plan that does not fit the node it meets. -/
  | stepMismatch (step node : String)
  /-- A plan that ends elsewhere than at the unknown. -/
  | replayMissed (node unknown : String)
  /-- A character that cannot be read. -/
  | lexical (cause : LexicalCause) (statement : String) (position : Nat)
  /-- A token that does not fit the grammar. -/
  | grammar (cause : GrammarCause) (token : String)
  /-- A directive of an unknown kind. -/
  | unknownDirective (directive : String)
  /-- A statement body that is neither an expression nor an equation, or is missing. -/
  | unknownStatement (body : Option String)
  /-- A variable name that is not one letter, quoted. -/
  | notALetter (quoted : String)
  /-- A variable name that is no text. -/
  | notAName (type : String)
  /-- An operand that stands for no expression. -/
  | notAnExpression (type : String)
  /-- An operand that stands for no number. -/
  | notANumber (type : String)
  /-- An operand that is no integer where one is needed. -/
  | notAnInteger (type : String)
  /-- An exponent that is no integer where one is needed. -/
  | notAnIntegerExponent (type : String)
  /-- A number that is infinite or not a number, where a fraction is needed. -/
  | notFinite (number : String)
  /-- A formula that still holds variables. -/
  | notConstant (formula : String)
  /-- A precision that is no integer. -/
  | precisionNotInteger (shown : String)
  /-- A precision below the least one. -/
  | precisionTooLow (precision : String)
  /-- A precision, set from outside, that does not read as an integer. -/
  | precisionUnreadable (quoted : String)
  /-- A refusal without words. -/
  | fault (fault : Fault)
deriving DecidableEq, Repr

/-! ### Computations that may be refused -/

section

variable {ε α β : Type}

/-- A sequence has a result when both of its parts have one. -/
theorem bind_eq_ok_iff {x : Except ε α} {f : α → Except ε β} {b : β} :
    x >>= f = .ok b ↔ ∃ a, x = .ok a ∧ f a = .ok b := by
  cases x <;> simp [bind, Except.bind]

theorem pure_eq_ok_iff {a b : α} : (pure a : Except ε α) = .ok b ↔ a = b := by
  simp [pure, Except.pure]

end

end SymbolicAlgebra
