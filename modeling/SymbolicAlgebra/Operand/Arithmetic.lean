import SymbolicAlgebra.Operand.Basic

/-!
# Operations on operands of any kind

An operation between two operands is one of formulas if either is a formula and the left one is no
expression; it builds an expression if the left one is an expression, or the right one is and no
formula decides; and it is one of numbers if either is a number. Without any of these it is one of
plain numbers, or joins, repeats or subtracts collections. Comparison follows the same lines.
-/

namespace SymbolicAlgebra

namespace Operator

/-- The operation on numbers. -/
def onNumbers : Operator → Number → Number → Except Error Number
  | add, a, b => .ok (a + b)
  | sub, a, b => .ok (a - b)
  | mul, a, b => .ok (a * b)
  | div, a, b => a.div b
  | pow, a, b => a.pow b

end Operator

/-- The order relations between two operands. -/
inductive Comparison where
  | lt
  | le
  | gt
  | ge
deriving DecidableEq, Repr

namespace Comparison

/-- The relation that holds of the operands in the other order. -/
def swap : Comparison → Comparison
  | lt => gt
  | le => ge
  | gt => lt
  | ge => le

/-- The relation on numbers. -/
def onNumbers : Comparison → Number → Number → Bool
  | lt => Number.lt
  | le => Number.le
  | gt => Number.gt
  | ge => Number.ge

/-- Whether the relation holds of operands in an order. -/
def admits : Comparison → Ordering → Bool
  | lt => Ordering.isLT
  | le => Ordering.isLE
  | gt => Ordering.isGT
  | ge => Ordering.isGE

end Comparison

namespace Operand

/-! ### Arithmetic -/

/-- A text or a list in so many copies, none for a number below zero. -/
def repeated (n : Int) : Operand → Except Error Operand
  | text s => .ok (text (String.join (List.replicate n.toNat s)))
  | emptyList => .ok emptyList
  | expressions es => .ok (expressions (List.replicate n.toNat es).flatten)
  | _ => .error (.fault .wrongType)

/-- A power of which one side is no number. A fraction on the other side is converted first, which
may be refused for its size. -/
def refusePower (a b : Operand) : Except Error Operand := do
  match a, b with
  | fraction q, _ => discard (Number.rational q).toBinary64
  | _, fraction q => if q.den ≠ 1 then discard (Number.rational q).toBinary64
  | _, _ => pure ()
  throw (.fault .wrongType)

/-- An operation on two collections, or on a collection and an integer. -/
def combine (op : Operator) (a b : Operand) : Except Error Operand :=
  match op, a, b with
  | .add, text s, text t => .ok (text (s ++ t))
  | .add, emptyList, emptyList => .ok emptyList
  | .add, expressions es, expressions es' => .ok (expressions (es ++ es'))
  | .sub, names xs, names ys => .ok (names (xs.filter (· ∉ ys)))
  | .mul, a, b =>
    match a.plain?, b.plain? with
    | some (.integer n), none => repeated n b
    | none, some (.integer n) => repeated n a
    | _, _ => .error (.fault .wrongType)
  | .pow, a, b => refusePower a b
  | _, _, _ => .error (.fault .wrongType)

/-- An operation on two plain operands. -/
def applyPlain (op : Operator) (a b : Operand) : Except Error Operand :=
  match a.plain?, b.plain? with
  | some x, some y => do return ofPlain (← x.apply op y)
  | _, _ => combine op a b

/-- A plain operand on the left as it meets an operand of the library: a fraction that is raised to
a power becomes a number of 64 bits. -/
def lowered (op : Operator) : Operand → Except Error Operand
  | fraction q =>
    if op = .pow then do return double (← (Number.rational q).toBinary64) else .ok (fraction q)
  | a => .ok a

/-- An operation whose right operand is one of the library's, and decides. -/
def applyReflected (op : Operator) (a b : Operand) : Except Error Operand := do
  let a ← a.lowered op
  match b with
  | formula g =>
    let e ← a.toFormulaExpr
    return formula (← Formula.ofExpr (op.node e g.expr))
  | expr e => return expr (op.node (← a.toExpr) e)
  | number y =>
    match a.asNumber? with
    | some x => return number (← op.onNumbers x y)
    | none => throw (.fault .wrongType)
  | _ => throw (.fault .wrongType)

/-- Whether an operand is one of the library's that takes part in operations. -/
def isOwn : Operand → Bool
  | number _ => true
  | expr _ => true
  | formula _ => true
  | _ => false

/-- An operation between two operands. -/
def apply (op : Operator) (a b : Operand) : Except Error Operand :=
  match a with
  | formula f => do
    let e ← b.toFormulaExpr
    return formula (← Formula.ofExpr (op.node f.expr e))
  | expr e => do return expr (op.node e (← b.toExpr))
  | number x =>
    match b.asNumber? with
    | some y => do return number (← op.onNumbers x y)
    | none => applyReflected op a b
  | a => if b.isOwn then applyReflected op a b else applyPlain op a b

/-- The opposite. -/
def neg : Operand → Except Error Operand
  | number a => .ok (number (-a))
  | expr e => .ok (expr (.neg e))
  | formula a => do return formula (← Formula.ofExpr (.neg a.expr))
  | a =>
    match a.plain? with
    | some x => .ok (ofPlain x.neg)
    | none => .error (.fault .wrongType)

/-- The operand itself, where a plus sign may stand before it. -/
def pos : Operand → Except Error Operand
  | expr e => .ok (expr e)
  | a =>
    match a.plain? with
    | some x => .ok (ofPlain x.pos)
    | none => .error (.fault .wrongType)

/-- The absolute value; that of a number of the library needs its exact value. -/
def abs : Operand → Except Error Operand
  | number a => do
    a.refuseLong
    return number a.abs
  | a =>
    match a.plain? with
    | some x => .ok (ofPlain x.abs)
    | none => .error (.fault .wrongType)

/-! ### Equality -/

/-- Whether an operand may equal a formula that is written another way. -/
def isFormulaLike : Operand → Bool
  | expr _ => true
  | a => a.asNumber?.isSome

/-- Equality of a formula and an operand of another kind. -/
def equalsFormula (f : Formula) (b : Operand) : Except Error Bool :=
  if b.isFormulaLike then do return f.expr == (← Formula.ofExpr (← b.toExpr)).expr else .ok false

/-- Equality of two numbers, which needs the exact values of both. -/
def equalNumbers (x y : Number) : Except Error Bool := do
  x.refuseLong
  y.refuseLong
  return x == y

/-- Equality of two operands of which none is a formula. Numbers of the library equal numeric
operands that are no truth values, plain numbers equal each other by value. -/
def equalsPlain (a b : Operand) : Except Error Bool :=
  match a, b with
  | expr e, expr e' => .ok (e == e')
  | equation a, equation b => .ok (a == b)
  | text s, text t => .ok (s = t)
  | absent, absent => .ok true
  | emptyList, emptyList => .ok true
  | expressions es, expressions es' => .ok (es == es')
  | names xs, names ys => .ok (xs.all (· ∈ ys) && ys.all (· ∈ xs))
  | a, b =>
    match a.plain?, b.plain? with
    | some x, some y => .ok (x.compare? y = some .eq)
    | _, _ =>
      match a.asNumber?, b.asNumber? with
      | some x, some y => equalNumbers x y
      | _, _ => .ok false

/-- Equality of two operands. -/
def equals (a b : Operand) : Except Error Bool :=
  match a, b with
  | formula f, formula g => .ok (f == g)
  | formula f, b => equalsFormula f b
  | a, formula g => equalsFormula g a
  | a, b => equalsPlain a b

/-! ### Order -/

/-- The order of two lists of expressions. Expressions have none, so the lists must agree as far as
the shorter one goes. -/
def comparePrefixes (r : Comparison) : List Expr → List Expr → Except Error Bool
  | e :: es, e' :: es' => if e == e' then comparePrefixes r es es' else .error (.fault .wrongType)
  | es, es' => .ok (r.admits (compare es.length es'.length))

/-- Whether a set of names is related to another by inclusion. -/
def includes (r : Comparison) (xs ys : List String) : Bool :=
  let sub := xs.all (· ∈ ys)
  let sup := ys.all (· ∈ xs)
  match r with
  | .lt => sub && !sup
  | .le => sub
  | .gt => sup && !sub
  | .ge => sup

/-- Comparison of two plain operands of one kind. -/
def comparePlain (r : Comparison) (a b : Operand) : Except Error Bool :=
  match a, b with
  | text s, text t => .ok (r.admits (compareOfLessAndEq s t))
  | emptyList, emptyList => .ok (r.admits .eq)
  | expressions es, expressions es' => comparePrefixes r es es'
  | names xs, names ys => .ok (includes r xs ys)
  | a, b =>
    match a.plain?, b.plain? with
    | some x, some y => .ok ((x.compare? y).any r.admits)
    | _, _ => .error (.fault .wrongType)

/-- Comparison of two numbers, which needs the exact values of both. -/
def compareNumbers (r : Comparison) (x y : Number) : Except Error Bool := do
  x.refuseLong
  y.refuseLong
  return r.onNumbers x y

/-- Comparison of two operands. A number of the library is comparable to numeric operands. -/
def compare (r : Comparison) (a b : Operand) : Except Error Bool :=
  match a, b with
  | number x, b =>
    match b.asNumber? with
    | some y => compareNumbers r x y
    | none => .error (.fault .wrongType)
  | a, number y =>
    match a.asNumber? with
    | some x => compareNumbers r.swap y x
    | none => .error (.fault .wrongType)
  | a, b => comparePlain r a b

/-! ### Collections without repetition -/

/-- The exact value of a numeric operand, without the rounding of arithmetic. -/
def exactNumber? : Operand → Option Number
  | number a => some a
  | a => a.plain?.map Plain.toNumber

/-- The expression that an expression or a formula holds. -/
def heldExpr? : Operand → Option Expr
  | expr e => some e
  | formula f => some f.expr
  | _ => none

/-- Whether two operands may be one entry: what is numeric by its exact value, expressions and
formulas by the expression that they hold, and all else in any case. -/
def mayCoincide (a b : Operand) : Bool :=
  match a.exactNumber?, b.exactNumber?, a.heldExpr?, b.heldExpr? with
  | some x, some y, _, _ => x == y
  | _, _, some e, some e' => e == e'
  | none, none, none, none => true
  | _, _, _, _ => false

/-- Whether two operands are one and the same value that is not a number. -/
def sharesMark : Operand → Operand → Bool
  | number a, number b => a.bigFloat.sharesMark b.bigFloat
  | bigFloat x, bigFloat y => x.sharesMark y
  | _, _ => false

/-- Whether an operand is equal to another as an entry. -/
def isEntry (a b : Operand) : Except Error Bool :=
  if a.sharesMark b then .ok true
  else if a.mayCoincide b then a.equals b
  else .ok false

/-- Whether a collection without repetition has an entry that equals an operand. -/
def hasEntry (b : Operand) : List Operand → Except Error Bool
  | [] => .ok false
  | a :: as => do
    if ← a.isEntry b then return true
    hasEntry b as

/-- An operand that can be no entry is refused: a list, or what holds a number too long to be
written out. -/
def refuseEntry : Operand → Except Error Unit
  | emptyList => .error (.fault .wrongType)
  | number a => a.refuseLong
  | expr e => e.refuseLong
  | formula f => f.expr.refuseLong
  | equation a => do
    a.lhs.refuseLong
    a.rhs.refuseLong
  | expressions es => es.forM Expr.refuseLong
  | _ => .ok ()

/-- The entries of a collection without repetition, the first of equal operands standing for all. -/
def entries : (found rest : List Operand) → Except Error (List Operand)
  | found, [] => .ok found
  | found, a :: as => do
    a.refuseEntry
    if ← hasEntry a found then entries found as else entries (found ++ [a]) as

/-- The number of different operands in a list. -/
def countDistinct (as : List Operand) : Except Error Nat := do
  return (← entries [] as).length

end Operand

end SymbolicAlgebra
