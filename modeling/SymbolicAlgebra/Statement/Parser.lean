import SymbolicAlgebra.Config
import SymbolicAlgebra.Statement.Basic
import SymbolicAlgebra.Statement.Lexer

/-!
# From tokens to statements

The grammar of statements is

    statement  := equation ['@' directive]
    equation   := expression ['=' expression]
    expression := term (('+' | '-') term)*
    term       := unary (('*' | '/') unary)*
    unary      := ('-' | '+') unary | power
    power      := atom ('^' atom)*
    atom       := number | variable | '(' expression ')'
    directive  := variable [',' ['-'] (number | variable)]

Operations of one level are grouped from the left, and a minus sign applies to the whole power after
it. Each reader takes a part of a statement off the front of the tokens and gives it with the
tokens that remain. The end of the input is a token that no reader takes.
-/

namespace SymbolicAlgebra

/-- The reading of a part of a statement: the part and the tokens after it. -/
abbrev Reader (α : Type) := List Token → Except Error (α × List Token)

namespace Reader

/-- The first token, told to the writer of the statement. -/
def front : List Token → String
  | [] => (Token.mk .endOfInput 0).shown
  | t :: _ => t.shown

/-- The tokens do not fit. -/
def refuse {α : Type} (cause : GrammarCause) (ts : List Token) : Except Error α :=
  .error (.grammar cause (front ts))

/-- The operation of a level that the tokens begin with, and the tokens after it. -/
def operatorOf? (level : Level) : List Token → Option (Operator × List Token)
  | [] => none
  | t :: ts => (t.operator?.filter (·.level = level)).map (·, ts)

/-- Two stars in a row are no operation. -/
def refuseDoubleStar (op : Operator) : List Token → Except Error Unit
  | ⟨.symbol .star, p⟩ :: ts =>
    if op = .mul then refuse .doubleStar (⟨.symbol .star, p⟩ :: ts) else .ok ()
  | _ => .ok ()

/-- The operations of a level that follow a first operand, grouped from the left. There are no more
of them than tokens, which bounds their number `n`. -/
def operations (level : Level) (operand : Reader Expr) : (n : Nat) → Expr → Reader Expr
  | 0, e, ts => .ok (e, ts)
  | n + 1, e, ts =>
    match operatorOf? level ts with
    | none => .ok (e, ts)
    | some (op, ts) => do
      refuseDoubleStar op ts
      let (r, ts) ← operand ts
      operations level operand n (op.node e r) ts

/-- Operands with operations of a level between them. -/
def chain (level : Level) (operand : Reader Expr) : Reader Expr := fun ts => do
  let (e, ts) ← operand ts
  operations level operand ts.length e ts

/-- Signs, and what they apply to. -/
def unary (operand : Reader Expr) : Reader Expr
  | ⟨.symbol .minus, _⟩ :: ts => do
    let (e, ts) ← unary operand ts
    return (.neg e, ts)
  | ⟨.symbol .plus, _⟩ :: ts => unary operand ts
  | ts => operand ts

/-- A closing parenthesis. -/
def closing : List Token → Except Error (List Token)
  | ⟨.symbol .rightParen, _⟩ :: ts => .ok ts
  | ts => refuse .closingParenthesis ts

/-- A number, a variable, or what stands in parentheses. -/
def atom (config : Config) (inner : Reader Expr) : Reader Expr
  | ⟨.number numeral, _⟩ :: ts => do return (.const (← config.readNumeral numeral), ts)
  | ⟨.letter c, _⟩ :: ts => .ok (.var c.toString, ts)
  | ⟨.symbol .leftParen, _⟩ :: ts => do
    let (e, ts) ← inner ts
    return (e, ← closing ts)
  | ts => refuse .operand ts

/-- An expression with parentheses inside one another at most `depth` levels deep. -/
def expressionWithin (config : Config) : (depth : Nat) → Reader Expr
  | 0 => refuse .operand
  | depth + 1 =>
    chain .sum (chain .product (unary (chain .power (atom config (expressionWithin config depth)))))

/-- An expression. Parentheses are no deeper than there are tokens. -/
def expression (config : Config) : Reader Expr := fun ts =>
  expressionWithin config (ts.length + 1) ts

/-- An expression or an equation. -/
def body (config : Config) : Reader Body := fun ts => do
  let (lhs, ts) ← expression config ts
  match ts with
  | ⟨.symbol .equals, _⟩ :: ts => do
    let (rhs, ts) ← expression config ts
    return (.equation ⟨lhs, rhs⟩, ts)
  | ts => return (.expr lhs, ts)

/-- A number or a variable. -/
def simpleOperand (config : Config) : Reader Expr
  | ⟨.number numeral, _⟩ :: ts => do return (.const (← config.readNumeral numeral), ts)
  | ⟨.letter c, _⟩ :: ts => .ok (.var c.toString, ts)
  | ts => refuse .replacement ts

/-- What is put in the place of a variable. -/
def replacement (config : Config) : Reader Expr
  | ⟨.symbol .minus, _⟩ :: ts => do
    let (e, ts) ← simpleOperand config ts
    return (.neg e, ts)
  | ts => simpleOperand config ts

/-- A directive, after the sign that announces it. -/
def directive (config : Config) : Reader Directive
  | ⟨.letter c, _⟩ :: ⟨.symbol .comma, _⟩ :: ts => do
    let (t, ts) ← replacement config ts
    return (.substitute c.toString t, ts)
  | ⟨.letter c, _⟩ :: ts => .ok (.solve c.toString, ts)
  | ts => refuse .variableAfterAt ts

/-- A directive, if there is one. -/
def directive? (config : Config) : Reader (Option Directive)
  | ⟨.symbol .atSign, _⟩ :: ts => do
    let (d, ts) ← directive config ts
    return (some d, ts)
  | ts => .ok (none, ts)

/-- The end of a statement. -/
def ending : List Token → Except Error Unit
  | [] => .ok ()
  | ⟨.endOfInput, _⟩ :: _ => .ok ()
  | ts => refuse .afterStatement ts

end Reader

namespace Statement

/-- The statement that a list of tokens spells. -/
def ofTokens (config : Config) (ts : List Token) : Except Error Statement := do
  let (body, ts) ← Reader.body config ts
  let (directive, ts) ← Reader.directive? config ts
  Reader.ending ts
  return ⟨body, directive⟩

/-- The statement that a text spells. -/
def parse (config : Config) (text : String) : Except Error Statement := do
  ofTokens config (← tokenize text)

end Statement

end SymbolicAlgebra
