import SymbolicAlgebra.Expr.LikeKey
import SymbolicAlgebra.Simplify.Bounded
import SymbolicAlgebra.Text.LowerCase

/-!
# One level of simplification

`Simplify.step simp e` simplifies an expression given a simplifier `simp` for whatever expressions
come up on the way: parts of `e`, and expressions rebuilt from simplified parts. The rules are

* constants are computed, and sums of zero terms, products with zero, and powers with exponent zero
  or one disappear;
* a difference becomes a sum with an opposite, and an opposite moves into sums, products and
  quotients;
* terms of a sum that differ by a constant factor are collected at the place of the first, and so
  are factors of a product that differ by their exponents.

`Simplify.within n` allows `n` levels of such calls. Its outcome is a result, an error, or nothing
where `n` levels do not suffice.
-/

namespace SymbolicAlgebra

namespace Simplify

/-! ### Sums -/

/-- A term of a sum as the part without its constant factor, and that factor. -/
def splitCoefficient : Expr → Expr × Number
  | .mul (.const c) r => (r, c)
  | .mul l (.const c) => (l, c)
  | .neg e => (e, .integer (-1))
  | e => (e, 1)

/-- Terms that are alike: their common representative, the first of them, and the sum of their
coefficients. -/
structure LikeTerms where
  key : Expr
  term : Expr
  coefficient : Number

/-- The terms of a sum, collected, and its constant. -/
structure CollectedSum where
  constant : Number
  terms : List LikeTerms

/-- A term added to those it is like, or else after all others. -/
def addTerm (key term : Expr) (coefficient : Number) : List LikeTerms → List LikeTerms
  | [] => [⟨key, term, 0 + coefficient⟩]
  | t :: ts =>
    if t.key == key then { t with coefficient := t.coefficient + coefficient } :: ts
    else t :: addTerm key term coefficient ts

/-- An operand that is no constant, added to a collected sum. -/
def CollectedSum.addTerm (s : CollectedSum) (e : Expr) : Except Error CollectedSum := do
  let key ← (splitCoefficient e).1.likeKey
  return { s with
    terms := Simplify.addTerm key (splitCoefficient e).1 (splitCoefficient e).2 s.terms }

/-- An operand added to a collected sum. -/
def CollectedSum.add (s : CollectedSum) : Expr → Except Error CollectedSum
  | .const c => .ok { s with constant := s.constant + c }
  | e => s.addTerm e

/-! ### Products -/

/-- Factors that are alike: the common representative of their bases, the first of these, and their
exponents. -/
structure LikeFactors where
  key : Expr
  base : Expr
  exponents : List Expr

/-- The factors of a product, collected, and its constant. -/
structure CollectedProduct where
  constant : Number
  factors : List LikeFactors

/-- A factor added to those it is like, or else after all others. -/
def addFactor (key base exponent : Expr) : List LikeFactors → List LikeFactors
  | [] => [⟨key, base, [exponent]⟩]
  | f :: fs =>
    if f.key == key then { f with exponents := f.exponents ++ [exponent] } :: fs
    else f :: addFactor key base exponent fs

/-- A factor as its base and its exponent. -/
def splitExponent : Expr → Expr × Expr
  | .pow b p => (b, p)
  | e => (e, .const 1)

/-- A factor that is neither a constant nor an opposite, added to a collected product. -/
def CollectedProduct.addFactor (s : CollectedProduct) (e : Expr) :
    Except Error CollectedProduct := do
  let key ← (splitExponent e).1.likeKey
  return { s with
    factors := Simplify.addFactor key (splitExponent e).1 (splitExponent e).2 s.factors }

/-- What becomes of the factors of a product: the first constant that is zero, or all of them
collected. -/
inductive ProductOutcome where
  | zero (c : Number)
  | collected (s : CollectedProduct)

/-- The factors of a product, added to those that are collected already. -/
def collectFactors : List Expr → CollectedProduct → Except Error ProductOutcome
  | [], s => .ok (.collected s)
  | .const c :: es, s =>
    if c.isZero then .ok (.zero c) else collectFactors es { s with constant := s.constant * c }
  | .neg e :: es, s => do
    let s ← { s with constant := -s.constant }.addFactor e
    collectFactors es s
  | e :: es, s => do
    let s ← s.addFactor e
    collectFactors es s

/-! ### The rules -/

/-- What is gathered while a chain is put together again: its constant and its other operands. -/
structure Gathered where
  constant : Number
  operands : List Expr

/-- An operand gathered, where constants are combined by `op`. -/
def Gathered.add (op : Number → Number → Number) (g : Gathered) : Expr → Gathered
  | .const c => { g with constant := op g.constant c }
  | e => { g with operands := g.operands ++ [e] }

/-- The sum of what was gathered. -/
def Gathered.toSum (g : Gathered) : Expr :=
  match g.operands with
  | [] => .const g.constant
  | es =>
    if g.constant.isZero then Chain.sum.build es
    else Chain.sum.build (.const g.constant :: es)

/-- Whether an expression takes a minus sign in place of the factor minus one. -/
def takesSign : Expr → Bool
  | .var _ => true
  | .pow _ _ => true
  | .log _ _ => true
  | _ => false

/-- The product of what was gathered. -/
def Gathered.toProduct (g : Gathered) : Expr :=
  if g.constant.isZero then .const g.constant
  else
    match g.operands with
    | [] => .const g.constant
    | e :: es =>
      if g.constant == .integer (-1) && es.isEmpty && takesSign e then .neg e
      else if g.constant.isOne then Chain.product.build (e :: es)
      else Chain.product.build (.const g.constant :: e :: es)

/-- A product whose constant is too long to be compared with minus one is refused, unless the
constant is all that there is. -/
def Gathered.refuseLong (g : Gathered) : Except Error Unit :=
  if g.operands.isEmpty then .ok () else g.constant.refuseLong

section

variable (simp : Expr → Bounded Expr)

/-- The simplified operands of a chain. A part that is no such chain is simplified, and if that
makes it one, its operands join the others. -/
def operands : Chain → Expr → Bounded (List Expr)
  | .sum, .add l r => do return (← operands .sum l) ++ (← operands .sum r)
  | .product, .mul l r => do return (← operands .product l) ++ (← operands .product r)
  | c, e => do return c.operands (← simp e)

/-- Like terms as one term. -/
def LikeTerms.toTerm (t : LikeTerms) : Bounded Expr :=
  if t.coefficient.isOne then pure t.term else simp (.mul (.const t.coefficient) t.term)

/-- Collected terms gathered; those whose coefficients cancel are left out. -/
def gatherTerms : List LikeTerms → Gathered → Bounded Gathered
  | [], g => pure g
  | t :: ts, g =>
    if t.coefficient.isZero then gatherTerms ts g
    else do gatherTerms ts (g.add (· + ·) (← t.toTerm simp))

/-- The simplified sum of two expressions. -/
def sum (l r : Expr) : Bounded Expr := do
  let es ← operands simp .sum (.add l r)
  let s ← Bounded.ofExcept (es.foldlM CollectedSum.add ⟨0, []⟩)
  let g ← gatherTerms simp s.terms ⟨s.constant, []⟩
  return g.toSum

/-- A constant too long to be compared with one is refused. -/
def refuseLongConstant : Expr → Except Error Unit
  | .const c => c.refuseLong
  | _ => .ok ()

/-- Like factors as one factor. -/
def LikeFactors.toFactor (f : LikeFactors) : Bounded Expr :=
  match f.exponents with
  | [p] => do
    Bounded.ofExcept (refuseLongConstant p)
    return if p == .const 1 then f.base else .pow f.base p
  | ps => simp (.pow f.base (Chain.sum.build ps))

/-- Collected factors gathered. -/
def gatherFactors : List LikeFactors → Gathered → Bounded Gathered
  | [], g => pure g
  | f :: fs, g => do gatherFactors fs (g.add (· * ·) (← f.toFactor simp))

/-- The simplified product of two expressions. -/
def product (l r : Expr) : Bounded Expr := do
  let es ← operands simp .product (.mul l r)
  match ← Bounded.ofExcept (collectFactors es ⟨1, []⟩) with
  | .zero c => return .const c
  | .collected s =>
    let g ← gatherFactors simp s.factors ⟨s.constant, []⟩
    Bounded.ofExcept g.refuseLong
    return g.toProduct

/-- The quotient of two simplified expressions. -/
def quotient : Expr → Expr → Except Error Expr
  | .const a, .const b => do return .const (← a.div b)
  | n, d => .ok (.div n d)

/-- The power of two constants, left as it is where it is not a real number. -/
def constantPower (b p : Number) : Except Error Expr :=
  match b.pow p with
  | .ok c => .ok (.const c)
  | .error (.notReal _ _) => .ok (.pow (.const b) (.const p))
  | .error e => .error e

/-- The power of two simplified expressions, where the exponent is neither zero nor one. -/
def powerOf : Expr → Expr → Bounded Expr
  | .pow b q, p => do simp (.pow b (← simp (.mul p q)))
  | .const b, .const p => Bounded.ofExcept (constantPower b p)
  | b, p => pure (.pow b p)

/-- The power of two simplified expressions. -/
def power (b p : Expr) : Bounded Expr :=
  match p with
  | .const c => if c.isOne then pure b else if c.isZero then pure (.const 1) else powerOf simp b p
  | p => powerOf simp b p

/-- The opposite of a simplified expression. -/
def opposite : Expr → Bounded Expr
  | .const c => pure (.const (-c))
  | .add l r => simp (.add (.neg l) (.neg r))
  | .sub l r => simp (.add (.neg l) r)
  | .mul l r => simp (.mul (.neg l) r)
  | .div n d => simp (.div (.neg n) d)
  | .neg e => pure e
  | e => pure (.neg e)

/-- An expression simplified by means of a simplifier for those that come up on the way. -/
def step : Expr → Bounded Expr
  | .const c => pure (.const c)
  | .var x => pure (.var x)
  | .add l r => sum simp l r
  | .sub l r => do
    let lhs ← simp l
    let negated ← simp (.neg (← simp r))
    simp (.add lhs negated)
  | .mul l r => product simp l r
  | .div n d => do
    let num ← simp n
    let den ← simp d
    Bounded.ofExcept (quotient num den)
  | .pow b p => do
    let base ← simp b
    let exponent ← simp p
    power simp base exponent
  | .log b a => do
    let base ← simp b
    let argument ← simp a
    return .log base argument
  | .neg e => do opposite simp (← simp e)
  | .other _ kind _ => throw (.unsupported (lowerCase kind) .simplification)

end

/-- An expression simplified with at most `n` levels of calls. -/
def within : (n : Nat) → Expr → Bounded Expr
  | 0, _ => ExceptT.mk none
  | n + 1, e => step (within n) e

end Simplify

end SymbolicAlgebra
