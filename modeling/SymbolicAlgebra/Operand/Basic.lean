import SymbolicAlgebra.BigFloat.Literal
import SymbolicAlgebra.Equation.Solve
import SymbolicAlgebra.Formula
import SymbolicAlgebra.Operand.Plain

/-!
# Operands

An operand is whatever an operation may be given: a number, an expression, a formula, an equation,
or a plain value such as an integer, a fraction, a number of 64 bits, a text or a collection. This
module says which operands stand for a number, for an expression and for a side of an equation, and
how each of them is shown.
-/

namespace SymbolicAlgebra

/-- A value that an operation may be given. -/
inductive Operand where
  | number (a : Number)
  | expr (e : Expr)
  | formula (a : Formula)
  | equation (a : Equation)
  | integer (n : Int)
  | fraction (q : Rat)
  | double (x : Binary64)
  | bigFloat (x : BigFloat)
  | text (s : String)
  | truth (b : Bool)
  | absent
  | emptyList
  | expressions (es : List Expr)
  | names (xs : List String)

namespace Operand

instance : Inhabited Operand := ⟨absent⟩

/-- The name of the type of an operand, as messages give it. -/
def typeName : Operand → String
  | number _ => "Number"
  | expr e => e.kindName
  | formula _ => "Formula"
  | equation _ => "Equation"
  | integer _ => "int"
  | fraction _ => "Fraction"
  | double _ => "float"
  | bigFloat _ => "mpf"
  | text _ => "str"
  | truth _ => "bool"
  | absent => "NoneType"
  | emptyList => "list"
  | expressions _ => "tuple"
  | names _ => "frozenset"

/-! ### Texts -/

/-- The text of a truth value. -/
def truthText (b : Bool) : String :=
  if b then "True" else "False"

/-- The texts of the members of a collection in order; a comma follows a single one. -/
def tupleText : List String → String
  | [s] => "(" ++ s ++ ",)"
  | ss => "(" ++ ", ".intercalate ss ++ ")"

/-- The texts of the members of a collection without order. -/
def setText : List String → String
  | [] => "frozenset()"
  | ss => "frozenset(\x7b" ++ ", ".intercalate ss ++ "\x7d)"

/-- An operand as its construction. -/
def describe : Operand → Except Error String
  | number a => do return "Number(" ++ (← a.text) ++ ")"
  | expr e => e.describe
  | formula a => a.describe
  | equation a => a.describe
  | integer n => integerText n
  | fraction q => do
    return "Fraction(" ++ (← integerText q.num) ++ ", " ++ (← integerText q.den) ++ ")"
  | double x => .ok x.text
  | bigFloat x => .ok ("mpf('" ++ x.render 17 ++ "')")
  | text s => .ok (quoted s)
  | truth b => .ok (truthText b)
  | absent => .ok "None"
  | emptyList => .ok "[]"
  | expressions es => do return tupleText (← Expr.describeList es)
  | names xs => .ok (setText (xs.map quoted))

/-- An operand as text. -/
def shown : Operand → Except Error String
  | number a => a.text
  | expr e => e.text
  | formula a => a.text
  | equation a => a.text
  | fraction q => rationalText q
  | bigFloat x => .ok (x.render 15)
  | text s => .ok s
  | a => a.describe

/-- An operand as it appears inside a message. -/
def mentioned : Operand → Except Error String
  | bigFloat x => .ok (x.renderIn .brief 15)
  | a => a.shown

/-! ### Standing for a number -/

/-- A refusal of an operand for its type, which quotes the operand. -/
def refuse {α : Type} (a : Operand) : Except Error α := do
  discard a.describe
  throw (.fault .wrongType)

/-- The binary value of `p` bits that an operand is rounded to. A fraction is rounded in two steps,
a number of 64 bits through its shortest decimal. A collection is taken as the parts of a value, of
which there are two or four; but expressions are none. -/
def toBigFloat (p : Nat) : Operand → Except Error BigFloat
  | fraction q => do
    BigFloat.refuseWideQuotient p (.ofInt q.num) (.ofInt q.den)
    return (Number.rational q).toBigFloat p
  | double x => .ok (x.toBigFloat p)
  | text s => BigFloat.read p s
  | integer n => .ok ((Number.integer n).toBigFloat p)
  | truth b => .ok ((Number.integer (if b then 1 else 0)).toBigFloat p)
  | bigFloat x => .ok (x.round p)
  | expressions es =>
    .error (.fault (if es.length = 2 ∨ es.length = 4 then .wrongType else .wrongValue))
  | a => a.refuse

/-- The floating point number of precision `p` that an operand gives. -/
def toFloat (p : Int) (a : Operand) : Except Error Number := do
  return .float (← a.toBigFloat (roundingBits p)) p

/-- The plain number that an operand is; a truth value counts as one or zero. -/
def plain? : Operand → Option Plain
  | integer n => some (.integer n)
  | truth b => some (.integer (if b then 1 else 0))
  | fraction q => some (.fraction q)
  | double x => some (.double x)
  | bigFloat x => some (.bigFloat x)
  | _ => none

/-- A plain number as an operand. -/
def ofPlain : Plain → Operand
  | .integer n => integer n
  | .fraction q => fraction q
  | .double x => double x
  | .bigFloat x => bigFloat x

/-- The number that a number or a plain numeric value takes part in arithmetic as. Truth values and
texts take no part. -/
def asNumber? : Operand → Option Number
  | number a => some a
  | integer n => some (.integer n)
  | fraction q => some (.rational q)
  | double x => some (.float (x.toBigFloat defaultPrecision) defaultPrecision)
  | bigFloat x => some (.float (x.round defaultPrecision) defaultPrecision)
  | _ => none

/-- The number that an operand is converted to on request, when a text is read too. -/
def toNumber (a : Operand) : Except Error Number :=
  match a, a.asNumber? with
  | _, some x => .ok x
  | text _, none => a.toFloat defaultPrecision
  | _, none => .error (.notANumber a.typeName)

/-! ### Standing for an expression -/

/-- The expression that an operand stands for beside an expression. -/
def toExpr (a : Operand) : Except Error Expr :=
  match a, a.asNumber? with
  | expr e, _ => .ok e
  | _, some x => .ok (.const x)
  | _, none => .error (.notAnExpression a.typeName)

/-- The expression that an operand stands for beside a formula: a text is the letter of a
variable. -/
def toFormulaExpr : Operand → Except Error Expr
  | formula a => .ok a.expr
  | text s => Expr.ofLetter s
  | a => a.toExpr

/-- The expression that an operand stands for as a side of an equation. -/
def toSide : Operand → Except Error Expr
  | formula a => .ok a.expr
  | a => a.toExpr

end Operand

end SymbolicAlgebra
