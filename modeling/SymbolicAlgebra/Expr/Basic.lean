import SymbolicAlgebra.Number.Arithmetic

/-!
# Expressions

An expression is a tree over numbers and variables. Nine kinds of nodes form the closed set that the
library computes with. An expression of any other kind is kept as its name and its operands: it has
children and variables, and every function that treats kinds apart refuses it. What else it may
hold is unknown, so it carries a mark and is the same only as itself.

Building an expression never simplifies it. Two expressions are the same when they have the same
shape and constants of equal value at the same places (`Expr.same`); the representation of a
constant does not count there.
-/

namespace SymbolicAlgebra

/-- An expression. -/
inductive Expr where
  | const (c : Number)
  | var (name : String)
  | add (lhs rhs : Expr)
  | sub (lhs rhs : Expr)
  | mul (lhs rhs : Expr)
  | div (num den : Expr)
  | pow (base exponent : Expr)
  | log (base argument : Expr)
  | neg (e : Expr)
  | other (mark : Mark) (kind : String) (operands : List Expr)

namespace Expr

instance : Inhabited Expr := ⟨const 0⟩

/-- Induction on expressions; the hypothesis for a node of another kind speaks of its operands. -/
@[elab_as_elim, induction_eliminator]
theorem induct {motive : Expr → Prop}
    (const : ∀ c, motive (.const c))
    (var : ∀ x, motive (.var x))
    (add : ∀ l r, motive l → motive r → motive (.add l r))
    (sub : ∀ l r, motive l → motive r → motive (.sub l r))
    (mul : ∀ l r, motive l → motive r → motive (.mul l r))
    (div : ∀ n d, motive n → motive d → motive (.div n d))
    (pow : ∀ b p, motive b → motive p → motive (.pow b p))
    (log : ∀ b a, motive b → motive a → motive (.log b a))
    (neg : ∀ e, motive e → motive (.neg e))
    (other : ∀ m k es, (∀ e ∈ es, motive e) → motive (.other m k es))
    (e : Expr) : motive e :=
  match e with
  | .const c => const c
  | .var x => var x
  | .add l r => add l r (induct const var add sub mul div pow log neg other l)
      (induct const var add sub mul div pow log neg other r)
  | .sub l r => sub l r (induct const var add sub mul div pow log neg other l)
      (induct const var add sub mul div pow log neg other r)
  | .mul l r => mul l r (induct const var add sub mul div pow log neg other l)
      (induct const var add sub mul div pow log neg other r)
  | .div n d => div n d (induct const var add sub mul div pow log neg other n)
      (induct const var add sub mul div pow log neg other d)
  | .pow b p => pow b p (induct const var add sub mul div pow log neg other b)
      (induct const var add sub mul div pow log neg other p)
  | .log b a => log b a (induct const var add sub mul div pow log neg other b)
      (induct const var add sub mul div pow log neg other a)
  | .neg e => neg e (induct const var add sub mul div pow log neg other e)
  | .other m k es => other m k es fun e _ => induct const var add sub mul div pow log neg other e

/-! ### Parts -/

/-- The direct parts, from left to right. -/
def children : Expr → List Expr
  | const _ => []
  | var _ => []
  | add l r => [l, r]
  | sub l r => [l, r]
  | mul l r => [l, r]
  | div n d => [n, d]
  | pow b p => [b, p]
  | log b a => [b, a]
  | neg e => [e]
  | other _ _ es => es

/-- The name of the kind of node. -/
def kindName : Expr → String
  | const _ => "Constant"
  | var _ => "Variable"
  | add _ _ => "Add"
  | sub _ _ => "Sub"
  | mul _ _ => "Mul"
  | div _ _ => "Div"
  | pow _ _ => "Pow"
  | log _ _ => "Log"
  | neg _ => "Negate"
  | other _ kind _ => kind

/-- Whether every node is of the closed set of kinds. -/
def isClosed : Expr → Bool
  | const _ => true
  | var _ => true
  | add l r => l.isClosed && r.isClosed
  | sub l r => l.isClosed && r.isClosed
  | mul l r => l.isClosed && r.isClosed
  | div n d => n.isClosed && d.isClosed
  | pow b p => b.isClosed && p.isClosed
  | log b a => b.isClosed && a.isClosed
  | neg e => e.isClosed
  | other _ _ _ => false

mutual

/-- The names of the variables, in the order of their places, each as often as it occurs. -/
def variableNames : Expr → List String
  | const _ => []
  | var x => [x]
  | add l r => l.variableNames ++ r.variableNames
  | sub l r => l.variableNames ++ r.variableNames
  | mul l r => l.variableNames ++ r.variableNames
  | div n d => n.variableNames ++ d.variableNames
  | pow b p => b.variableNames ++ p.variableNames
  | log b a => b.variableNames ++ a.variableNames
  | neg e => e.variableNames
  | other _ _ es => variableNamesOfList es

/-- The names of the variables of a list of expressions. -/
def variableNamesOfList : List Expr → List String
  | [] => []
  | e :: es => e.variableNames ++ variableNamesOfList es

end

/-- A name put into an increasing list of names, unless it is there. -/
def insertName (x : String) : List String → List String
  | [] => [x]
  | y :: ys => if x = y then y :: ys else if x < y then x :: y :: ys else y :: insertName x ys

/-- The names of the variables, each once, in the order of code points. -/
def freeVariables (e : Expr) : List String :=
  e.variableNames.foldr insertName []

/-- How often a variable occurs. -/
def countOccurrences (x : String) (e : Expr) : Nat :=
  e.variableNames.count x

section

variable {x : String}

@[simp] theorem countOccurrences_const (c : Number) : (const c).countOccurrences x = 0 := rfl

@[simp] theorem countOccurrences_var_self (x : String) : (var x).countOccurrences x = 1 := by
  simp [countOccurrences, variableNames]

@[simp] theorem countOccurrences_add (l r : Expr) :
    (add l r).countOccurrences x = l.countOccurrences x + r.countOccurrences x :=
  List.count_append ..

@[simp] theorem countOccurrences_sub (l r : Expr) :
    (sub l r).countOccurrences x = l.countOccurrences x + r.countOccurrences x :=
  List.count_append ..

@[simp] theorem countOccurrences_mul (l r : Expr) :
    (mul l r).countOccurrences x = l.countOccurrences x + r.countOccurrences x :=
  List.count_append ..

@[simp] theorem countOccurrences_div (n d : Expr) :
    (div n d).countOccurrences x = n.countOccurrences x + d.countOccurrences x :=
  List.count_append ..

@[simp] theorem countOccurrences_pow (b p : Expr) :
    (pow b p).countOccurrences x = b.countOccurrences x + p.countOccurrences x :=
  List.count_append ..

@[simp] theorem countOccurrences_log (b a : Expr) :
    (log b a).countOccurrences x = b.countOccurrences x + a.countOccurrences x :=
  List.count_append ..

@[simp] theorem countOccurrences_neg (e : Expr) :
    (neg e).countOccurrences x = e.countOccurrences x := rfl

end

/-- An expression with a constant too long to be written out is refused. -/
def refuseLong : Expr → Except Error Unit
  | const c => c.refuseLong
  | var _ => .ok ()
  | add l r => do l.refuseLong; r.refuseLong
  | sub l r => do l.refuseLong; r.refuseLong
  | mul l r => do l.refuseLong; r.refuseLong
  | div n d => do n.refuseLong; d.refuseLong
  | pow b p => do b.refuseLong; p.refuseLong
  | log b a => do b.refuseLong; a.refuseLong
  | neg e => e.refuseLong
  | other _ _ _ => .ok ()

/-! ### Sameness -/

/-- Whether two expressions have the same shape, the same variables and the same constants. -/
def same : Expr → Expr → Bool
  | const c, const d => c.same d
  | var x, var y => x == y
  | add l r, add l' r' => same l l' && same r r'
  | sub l r, sub l' r' => same l l' && same r r'
  | mul l r, mul l' r' => same l l' && same r r'
  | div n d, div n' d' => same n n' && same d d'
  | pow b p, pow b' p' => same b b' && same p p'
  | log b a, log b' a' => same b b' && same a a'
  | neg e, neg e' => same e e'
  | other m _ _, other m' _ _ => m.agrees m'
  | _, _ => false

instance : BEq Expr := ⟨same⟩

end Expr

end SymbolicAlgebra
