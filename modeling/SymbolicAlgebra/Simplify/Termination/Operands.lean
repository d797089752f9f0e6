import SymbolicAlgebra.Simplify.Rank
import SymbolicAlgebra.Simplify.Step

/-!
# The depth of simplification, and the operands of a chain

The expressions that come up while an expression is simplified have smaller depths, where the depth
is twice the rank, and one more for an opposite. What is shown of a simplifier is that it settles
the expressions up to a rank (`Handles`), with results of no greater rank that are tidy (`Reduces`).
Being tidy means that minus signs stand before variables, powers and logarithms only.

The first step of both sums and products is to simplify the operands of a chain; together these
contribute no more to the rank than the chain does (`operands_settles`).
-/

namespace SymbolicAlgebra.Simplify

open SymbolicAlgebra.Expr Bounded

/-- Whether minus signs stand before variables, powers and logarithms only, and all nodes are of the
closed set of kinds. -/
def Tidy : Expr → Prop
  | .const _ => True
  | .var _ => True
  | .add l r => Tidy l ∧ Tidy r
  | .sub l r => Tidy l ∧ Tidy r
  | .mul l r => Tidy l ∧ Tidy r
  | .div n d => Tidy n ∧ Tidy d
  | .pow b p => Tidy b ∧ Tidy p
  | .log b a => Tidy b ∧ Tidy a
  | .neg e => takesSign e ∧ Tidy e
  | .other _ _ _ => False

/-- The number of levels that the simplification of an expression stays within. -/
def depth (e : Expr) : Nat :=
  2 * e.rank + match e with | .neg _ => 1 | _ => 0

theorem depth_lt_of_rank_lt {e e' : Expr} (h : e.rank < e'.rank) : depth e < depth e' := by
  unfold depth
  split <;> omega

/-- What is said of the result of a simplification. -/
def Reduces (e r : Expr) : Prop :=
  r.rank ≤ e.rank ∧ Tidy r

/-- A simplifier that settles all expressions up to a rank. -/
def Handles (simp : Expr → Bounded Expr) (n : Nat) : Prop :=
  ∀ x, x.rank ≤ n → (simp x).Settles (Reduces x)

variable {simp : Expr → Bounded Expr} {n : Nat}

/-! ### Operands -/

/-- The operands of a tidy chain are tidy and are no chains themselves. -/
theorem tidy_of_mem_operands {c : Chain} {e x : Expr} (he : Tidy e) (hx : x ∈ c.operands e) :
    Tidy x ∧ c.operands x = [x] := by
  induction e with
  | add l r ihl ihr =>
    cases c with
    | sum =>
      rw [Chain.operands_sum_add, List.mem_append] at hx
      exact hx.elim (ihl he.1) (ihr he.2)
    | product => grind [Chain.operands]
  | mul l r ihl ihr =>
    cases c with
    | sum => grind [Chain.operands]
    | product =>
      rw [Chain.operands_product_mul, List.mem_append] at hx
      exact hx.elim (ihl he.1) (ihr he.2)
  | _ => grind [Chain.operands]

/-- A chain of tidy parts is tidy. -/
theorem tidy_build {c : Chain} {es : List Expr} (h : ∀ e ∈ es, Tidy e) : Tidy (c.build es) := by
  cases es with
  | nil => trivial
  | cons e es =>
    show Tidy (c.link e es)
    induction es generalizing e with
    | nil => exact h e (by simp)
    | cons e' es ih =>
      have he := h e (by simp)
      have hes := ih e' fun x hx => h x (by simp [hx])
      cases c <;> exact ⟨he, hes⟩

/-- What is said of the operands of a chain. -/
structure AreOperands (c : Chain) (e : Expr) (es : List Expr) : Prop where
  ne_nil : es ≠ []
  total_le : c.total es ≤ c.size e
  tidy : ∀ x ∈ es, Tidy x ∧ c.operands x = [x]

theorem AreOperands.append {c : Chain} {l r : Expr} {es es' : List Expr}
    (h : AreOperands c l es) (h' : AreOperands c r es') :
    AreOperands c (c.node l r) (es ++ es') where
  ne_nil := by simp [h.ne_nil]
  total_le := by
    rw [Chain.total_append, Chain.size_node]
    exact c.join_mono h.total_le h'.total_le
  tidy x hx := (List.mem_append.1 hx).elim (h.tidy x) (h'.tidy x)

/-- A simplified part gives operands. -/
theorem operands_leaf_settles (c : Chain) (e : Expr) (h : (simp e).Settles (Reduces e)) :
    (do return c.operands (← simp e) : Bounded (List Expr)).Settles (AreOperands c e) :=
  h.bind fun r hr => settles_pure {
    ne_nil := c.operands_ne_nil r
    total_le := c.total_operands r ▸ c.size_mono hr.1
    tidy := fun _ hx => tidy_of_mem_operands hr.2 hx }

theorem operands_settles (h : Handles simp n) (c : Chain) {e : Expr} (he : e.rank ≤ n) :
    (operands simp c e).Settles (AreOperands c e) := by
  induction e with
  | add l r ihl ihr =>
    cases c with
    | sum =>
      simp only [rank] at he
      exact (ihl (by omega)).bind fun es hes => (ihr (by omega)).bind fun es' hes' =>
        settles_pure (hes.append hes')
    | product => exact operands_leaf_settles .product _ (h _ he)
  | mul l r ihl ihr =>
    cases c with
    | sum => exact operands_leaf_settles .sum _ (h _ he)
    | product =>
      exact (ihl (Nat.le_trans (Nat.le_of_lt (rank_lt_mul_left l r)) he)).bind fun es hes =>
        (ihr (Nat.le_trans (Nat.le_of_lt (rank_lt_mul_right l r)) he)).bind fun es' hes' =>
          settles_pure (hes.append hes')
  | _ => cases c <;> exact operands_leaf_settles _ _ (h _ he)

end SymbolicAlgebra.Simplify
