import SymbolicAlgebra.Expr.Operator

/-!
# Tokens

A statement is read as a list of tokens: numbers, letters, ten symbols, and the end
of the input, which comes last. Each token knows the place of its first character in the statement,
counted in code points.
-/

namespace SymbolicAlgebra

/-- The characters with a meaning of their own. -/
inductive Symbol where
  | plus
  | minus
  | star
  | slash
  | caret
  | equals
  | leftParen
  | rightParen
  | atSign
  | comma
deriving DecidableEq, Repr

namespace Symbol

/-- The character of a symbol. -/
def char : Symbol → Char
  | plus => '+'
  | minus => '-'
  | star => '*'
  | slash => '/'
  | caret => '^'
  | equals => '='
  | leftParen => '('
  | rightParen => ')'
  | atSign => '@'
  | comma => ','

/-- All symbols. -/
def all : List Symbol :=
  [plus, minus, star, slash, caret, equals, leftParen, rightParen, atSign, comma]

/-- The symbol of a character. -/
def ofChar? (c : Char) : Option Symbol :=
  all.find? fun s => s.char = c

/-- The operation that a symbol stands for between two operands. -/
def operator? : Symbol → Option Operator
  | plus => some .add
  | minus => some .sub
  | star => some .mul
  | slash => some .div
  | caret => some .pow
  | _ => none

theorem char_of_ofChar? {c : Char} {s : Symbol} (h : ofChar? c = some s) : s.char = c := by
  simpa using List.find?_some h

end Symbol

/-- What a token is. A number is kept as it is written, since how it is read depends on the
settings. -/
inductive Lexeme where
  | number (numeral : List Char)
  | letter (c : Char)
  | symbol (s : Symbol)
  | endOfInput
deriving DecidableEq, Repr

/-- The characters of a lexeme. -/
def Lexeme.chars : Lexeme → List Char
  | number numeral => numeral
  | letter c => [c]
  | symbol s => [s.char]
  | endOfInput => []

/-- A lexeme and the place of its first character. -/
structure Token where
  lexeme : Lexeme
  position : Nat
deriving DecidableEq, Repr

namespace Token

/-- The text of a token. -/
def text (t : Token) : String :=
  String.ofList t.lexeme.chars

/-- A token as it is told to the writer of a statement, who counts columns from one. -/
def shown (t : Token) : String :=
  match t.lexeme with
  | .endOfInput => "end of input"
  | _ => "'" ++ t.text ++ "' (column " ++ toString (t.position + 1) ++ ")"

/-- The operation that a token stands for between two operands. -/
def operator? (t : Token) : Option Operator :=
  match t.lexeme with
  | .symbol s => s.operator?
  | _ => none

end Token

end SymbolicAlgebra
