import SymbolicAlgebra.BigFloat.ComplexLiteral
import SymbolicAlgebra.Operand.Arithmetic

/-!
# Functions of operands

The functions of numbers, expressions, formulas and equations for operands of any kind: each says
which operands it takes and how it refuses the others.
-/

namespace SymbolicAlgebra.Operand

/-! ### Conversions to plain values -/

/-- Whether an operand counts as true: a number that is not zero, a text or a collection that is not
empty, and anything of another kind. -/
def toTruth : Operand → Bool
  | number a => !a.isZero
  | text s => s ≠ ""
  | absent => false
  | emptyList => false
  | expressions es => !es.isEmpty
  | names xs => !xs.isEmpty
  | a => !a.plain?.any Plain.isZero

/-- The whole part of an operand. -/
def toInteger : Operand → Except Error Int
  | number a => a.truncate
  | text s =>
    match readInteger? s.toList with
    | some n => .ok n
    | none => .error (.fault .wrongValue)
  | a =>
    match a.plain? with
    | some x => x.toNumber.truncate
    | none => .error (.fault .wrongType)

/-- The number of 64 bits nearest to an operand; a text is read. -/
def toDouble : Operand → Except Error Binary64
  | number a => a.toBinary64
  | text s =>
    match Binary64.read? s with
    | some x => .ok x
    | none => .error (.fault .wrongValue)
  | a =>
    match a.plain? with
    | some x => x.toDouble
    | none => .error (.fault .wrongType)

/-- The value of an integer or a fraction. -/
def exactPart? : Operand → Option Rat
  | integer n => some n
  | fraction q => some q
  | truth b => some (if b then 1 else 0)
  | _ => none

/-- The friendly fraction of a binary value, where the limit is any operand that can be compared
with integers. A limit that has to be computed with must be exact; one that is not a number is never
reached by the denominators, and the last of them divides by zero. -/
def friendlyWithin (limit : Operand) (a : Friendly) : Except Error Rat := do
  if ← (integer a.decimal.den).compare .le limit then return a.decimal
  if ← limit.compare .lt (integer 1) then throw (.fault .wrongValue)
  if ← (integer a.exact.den).compare .le limit then return a.exact
  match limit.exactPart? with
  | some m => return limitDenominator m.floor.toNat a.exact
  | none =>
    throw (.fault (if ← limit.compare .ge (integer 1) then .wrongType else .zeroDivision))

/-- The friendly fraction of an operand. A text is read exactly, whatever the limit. -/
def toFriendlyRat (limit : Operand) : Operand → Except Error Rat
  | fraction q => .ok q
  | integer n => .ok n
  | truth b => .ok (if b then 1 else 0)
  | text s => readFraction s.toList
  | bigFloat x => do friendlyWithin limit (← x.friendly)
  | double x => do friendlyWithin limit (← x.friendly)
  | number a =>
    if a.isFinite then .error (.fault .wrongValue) else do throw (.notFinite (← a.text))
  | formula f =>
    if f.number?.any Number.isInfinite then do throw (.notFinite (← f.text))
    else .error (.fault .wrongValue)
  | _ => .error (.fault .wrongValue)

/-- The refusal of a text that stands for no real number, by whether it stands for a complex one. -/
def complexFault (s : String) : Fault :=
  match ComplexLiteral.read? s with
  | some z => if z.hasZeroDenominator then .zeroDivision else .noSuchOperation
  | none => .wrongType

/-- The exact fraction of an operand. A text is refused in one way or another, by what it says. -/
def toExactRat : Operand → Except Error Rat
  | fraction q => .ok q
  | integer n => .ok n
  | truth b => .ok (if b then 1 else 0)
  | double x => x.toRat
  | bigFloat x => x.toRat
  | text s =>
    match BigFloat.read signPrecision s with
    | .ok x => if x.isFinite then .error (.fault .noSuchOperation) else .error (.notFinite s)
    | .error (.fault .zeroDivision) => .error (.fault .zeroDivision)
    | .error _ => .error (.fault (complexFault s))
  | a => a.refuse

/-! ### Numbers -/

/-- The integer number of an integer. -/
def toIntegerNumber : Operand → Except Error Number
  | integer n => .ok (.integer n)
  | a => .error (.notAnInteger a.typeName)

/-- The fraction that an operand is by itself; a text is read. -/
def toFraction (a : Operand) : Except Error Rat :=
  match a, a.exactPart? with
  | _, some q => .ok q
  | double x, none => x.toRat
  | text s, none => readFraction s.toList
  | _, none => .error (.fault .wrongType)

/-- The rational number with a numerator and a denominator. Without a denominator the numerator is
the whole fraction. -/
def toRationalNumber (num den : Operand) : Except Error Number := do
  if ← den.equals (integer 0) then throw (.zeroDenominator (← num.mentioned))
  match den, num.exactPart?, den.exactPart? with
  | absent, _, _ => return .rational (← num.toFraction)
  | _, some n, some d => Number.ofFraction n d
  | _, _, _ => throw (.fault .wrongType)

/-- A function of numbers. -/
def onNumber {α : Type} (f : Number → Except Error α) : Operand → Except Error α
  | number a => f a
  | _ => .error (.fault .noSuchOperation)

/-- The precision that an operand gives, or another one where the operand counts as false. -/
def precisionOr (other : Int) (a : Operand) : Except Error Int :=
  if a.toTruth then a.toInteger else .ok other

/-- The floating point number that an operand gives, with a precision that another operand gives. -/
def toFloatWith (precision a : Operand) : Except Error Number := do
  a.toFloat (← precision.precisionOr defaultPrecision)

/-- The value of a number rounded to a precision, or else to its own. -/
def roundNumber (precision : Operand) (a : Number) : Except Error BigFloat := do
  return a.toBigFloat (roundingBits (← precision.precisionOr a.ownPrecision))

/-- The value that an operand holds: a number holds a plain number, a constant a number, an opposite
an expression, and a constant formula a number. -/
def value : Operand → Except Error Operand
  | number (.integer n) => .ok (integer n)
  | number (.rational q) => .ok (fraction q)
  | number (.float x _) => .ok (bigFloat x)
  | expr (.const a) => .ok (number a)
  | expr (.neg e) => .ok (expr e)
  | formula f => do return number (← f.value)
  | _ => .error (.fault .noSuchOperation)

/-! ### Expressions -/

/-- The variable of a name. -/
def toVariable : Operand → Except Error Expr
  | text s => Expr.ofLetter s
  | a => .error (.notAName a.typeName)

/-- An expression, for a task that refuses everything else. -/
def requireExpr (task : Task) : Operand → Except Error Expr
  | expr e => .ok e
  | a => .error (.unsupported (lowerCase a.typeName) task)

/-- The children of an expression. -/
def children : Operand → Except Error (List Expr)
  | expr e => .ok e.children
  | _ => .error (.fault .noSuchOperation)

/-- The names of the variables of an expression or a formula. -/
def freeVariables : Operand → Except Error (List String)
  | expr e => .ok e.freeVariables
  | formula a => .ok a.expr.freeVariables
  | _ => .error (.fault .noSuchOperation)

/-- How often the variable that an operand names occurs in an expression. What is no text names
none. -/
def occurrencesIn (e : Expr) : (name : Operand) → Nat
  | text x => e.countOccurrences x
  | _ => 0

/-- How often a variable occurs in an expression. -/
def countInExpr (name : Operand) : Operand → Except Error Nat
  | expr e => .ok (occurrencesIn e name)
  | _ => .error (.fault .noSuchOperation)

/-- The variable that an operand names, and what takes its place. What is no text names none, and
then a variable is put in its own place. -/
def variableAndReplacement (t : Expr) : (name : Operand) → String × Expr
  | text x => (x, t)
  | _ => ("", .var "")

/-- An expression with an operand in place of a variable. -/
def replaceIn (name t a : Operand) : Except Error Expr := do
  let (x, t) := variableAndReplacement (← t.toExpr) name
  replace x t (← a.requireExpr .substitution)

/-- The canonical form of an expression with an operand in place of a variable. -/
def substituteIn (name t a : Operand) : Except Error Expr := do
  canonical (← replaceIn name t a)

/-! ### Formulas and equations -/

/-- The formula of an operand. -/
def toFormula (a : Operand) : Except Error Formula := do
  Formula.ofExpr (← a.toFormulaExpr)

/-- A function of formulas. -/
def onFormula {α : Type} (f : Formula → Except Error α) : Operand → Except Error α
  | formula a => f a
  | _ => .error (.fault .noSuchOperation)

/-- The power of a number or a formula. -/
def power (a e : Operand) : Except Error Operand :=
  match a with
  | number x => do return number (← x.pow (← e.toNumber))
  | formula f => do
    let p ← e.toFormulaExpr
    return formula (← Formula.ofExpr (.pow f.expr p))
  | _ => .error (.fault .noSuchOperation)

/-- The power of a formula with an integer exponent. -/
def integerPower (e : Operand) (f : Formula) : Except Error Formula :=
  match e with
  | integer n => Formula.ofExpr (.pow f.expr (.const (.integer n)))
  | e => .error (.notAnIntegerExponent e.typeName)

/-- The power of a formula with a floating point exponent. -/
def floatPower (e : Operand) (f : Formula) : Except Error Formula := do
  let p ← e.toFloat defaultPrecision
  Formula.ofExpr (.pow f.expr (.const p))

/-- The logarithm of a formula. -/
def logarithm (base : Operand) (f : Formula) : Except Error Formula := do
  let b ← base.toFormulaExpr
  Formula.ofExpr (.log b f.expr)

/-- A formula or an equation with an operand in place of a variable. -/
def substitute (name t : Operand) : Operand → Except Error Operand
  | formula f => do
    let (x, t) := variableAndReplacement (← t.toFormulaExpr) name
    return formula (← f.substitute x t)
  | equation a => do
    let (x, t) := variableAndReplacement (← t.toSide) name
    return equation (← a.substitute x t)
  | _ => .error (.fault .noSuchOperation)

/-- How often a part occurs in a text, no two places overlapping. -/
def countParts (x s : String) : Nat :=
  if x = "" then s.length + 1 else (s.splitOn x).length - 1

/-- How many operands of a list equal an operand. -/
def countEqual (a : Operand) : List Operand → Except Error Nat
  | [] => .ok 0
  | b :: bs => do
    let more ← if a.sharesMark b then .ok true else b.equals a
    return (if more then 1 else 0) + (← countEqual a bs)

/-- How often a variable occurs in a formula or an equation, a part in a text, or a member in a
list. -/
def count (name : Operand) : Operand → Except Error Nat
  | formula f => .ok (occurrencesIn f.expr name)
  | equation a => .ok (occurrencesIn a.lhs name + occurrencesIn a.rhs name)
  | text s =>
    match name with
    | text x => .ok (countParts x s)
    | _ => .error (.fault .wrongType)
  | emptyList => .ok 0
  | expressions es => countEqual name (es.map expr)
  | _ => .error (.fault .noSuchOperation)

/-! ### Solving -/

/-- The equation that an operand is, or that its two sides make: a sum, a difference or a product is
taken as a pair of sides too. -/
def sides? : Operand → Option Equation
  | equation a => some a
  | expr (.add l r) => some ⟨l, r⟩
  | expr (.sub l r) => some ⟨l, r⟩
  | expr (.mul l r) => some ⟨l, r⟩
  | _ => none

/-- The name of the variable that an operand stands for as an unknown: a text, or a variable. -/
def unknownName? : Operand → Option String
  | text x => some x
  | expr (.var x) => some x
  | _ => none

/-- The expression that an unknown equals by an equation. What is no unknown occurs nowhere. -/
def solveFor (unknown : Operand) (a : Equation) : Except Error Expr :=
  match unknown.unknownName? with
  | some x => a.solve x
  | none => do
    discard (a.normalizedNote (← a.difference))
    throw (.unknownAbsent (← unknown.mentioned) (← a.text))

/-- The expression that an unknown equals by the sides that an operand has. A refusal for want of
the unknown quotes the operand. -/
def solve (unknown a : Operand) : Except Error Expr :=
  match a.sides? with
  | none => .error (.fault .noSuchOperation)
  | some sides =>
    match unknown.solveFor sides with
    | .error (.unknownAbsent x _) => do throw (.unknownAbsent x (← a.shown))
    | r => r

/-- The expression that an unknown equals by an equation; nothing else is one. -/
def solveEquation (unknown : Operand) : Operand → Except Error Expr
  | equation a => unknown.solveFor a
  | _ => .error (.fault .noSuchOperation)

end SymbolicAlgebra.Operand
