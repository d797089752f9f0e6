import SymbolicAlgebra.Expr.Basic

/-!
# Chains

Addition and multiplication are associative, so nested nodes of one of them form a chain of
operands. `Chain.operands` takes a chain apart and `Chain.build` puts operands together to the
right: `a + (b + c)`.
-/

namespace SymbolicAlgebra

/-- The two associative and commutative operations. -/
inductive Chain where
  | sum
  | product
deriving DecidableEq, Repr

namespace Chain

/-- One step of a chain. -/
def node : Chain → Expr → Expr → Expr
  | sum => .add
  | product => .mul

/-- The operands of a chain, from left to right. An expression of another kind is its only
operand. -/
def operands : Chain → Expr → List Expr
  | sum, .add l r => operands sum l ++ operands sum r
  | product, .mul l r => operands product l ++ operands product r
  | _, e => [e]

/-- The chain of a first operand and those after it. -/
def link (c : Chain) (e : Expr) : List Expr → Expr
  | [] => e
  | e' :: es => c.node e (link c e' es)

/-- The chain of the operands of a list that is not empty; the empty one gives the value that
changes nothing in the chain. -/
def build (c : Chain) : List Expr → Expr
  | [] => .const (match c with | sum => 0 | product => 1)
  | e :: es => c.link e es

@[simp] theorem operands_sum_add (l r : Expr) :
    operands sum (.add l r) = operands sum l ++ operands sum r := by
  rw [operands]

@[simp] theorem operands_product_mul (l r : Expr) :
    operands product (.mul l r) = operands product l ++ operands product r := by
  rw [operands]

@[simp] theorem operands_node (c : Chain) (l r : Expr) :
    operands c (c.node l r) = operands c l ++ operands c r := by
  cases c <;> simp [node]

@[simp] theorem countOccurrences_node {x : String} (c : Chain) (l r : Expr) :
    (c.node l r).countOccurrences x = l.countOccurrences x + r.countOccurrences x := by
  cases c <;> simp [node]

/-- A step of one chain is no step of the other. -/
theorem operands_node_of_ne {c d : Chain} (h : c ≠ d) (l r : Expr) :
    operands d (c.node l r) = [c.node l r] := by
  cases c <;> cases d <;> first | rfl | exact absurd rfl h

/-- Induction along a chain: an expression is a step of the chain, or its only operand. -/
@[elab_as_elim]
theorem induct (c : Chain) {motive : Expr → Prop}
    (node : ∀ l r, motive l → motive r → motive (c.node l r))
    (leaf : ∀ e, operands c e = [e] → motive e) (e : Expr) : motive e := by
  induction e with
  | add l r ihl ihr =>
    cases c with
    | sum => exact node l r ihl ihr
    | product => exact leaf _ rfl
  | mul l r ihl ihr =>
    cases c with
    | sum => exact leaf _ rfl
    | product => exact node l r ihl ihr
  | _ => cases c <;> exact leaf _ rfl

/-- A chain has an operand. -/
theorem operands_ne_nil (c : Chain) (e : Expr) : operands c e ≠ [] := by
  induction e with
  | add l r ihl _ => cases c <;> simp [operands, ihl]
  | mul l r ihl _ => cases c <;> simp [operands, ihl]
  | _ => cases c <;> simp [operands]

/-- The operands of a chain are no such chains. -/
theorem operands_of_mem_operands {c : Chain} {e x : Expr} (hx : x ∈ c.operands e) :
    c.operands x = [x] := by
  induction e using induct c with
  | node l r ihl ihr =>
    rw [operands_node, List.mem_append] at hx
    exact hx.elim ihl ihr
  | leaf e he =>
    rw [he, List.mem_singleton] at hx
    rw [hx, he]

/-- A step of a chain has more than one operand. -/
theorem two_le_length_operands (c : Chain) (l r : Expr) : 2 ≤ (c.operands (c.node l r)).length := by
  have hl := List.length_pos_iff.2 (c.operands_ne_nil l)
  have hr := List.length_pos_iff.2 (c.operands_ne_nil r)
  rw [operands_node, List.length_append]
  omega

theorem operands_node_ne (c : Chain) (l r e : Expr) : c.operands (c.node l r) ≠ [e] := by
  intro h
  have hlen := c.two_le_length_operands l r
  simp [h] at hlen

/-- The operands of a built chain are the operands of its parts. -/
theorem operands_link (c : Chain) (e : Expr) (es : List Expr) :
    operands c (c.link e es) = (e :: es).flatMap (operands c) := by
  induction es generalizing e with
  | nil => simp [link]
  | cons e' es ih => simp [link, ih]

/-- The operands of a built chain are the operands of its parts. -/
theorem operands_build (c : Chain) {es : List Expr} (h : es ≠ []) :
    operands c (c.build es) = es.flatMap (operands c) := by
  cases es with
  | nil => exact absurd rfl h
  | cons e es => exact operands_link c e es

end Chain

end SymbolicAlgebra
