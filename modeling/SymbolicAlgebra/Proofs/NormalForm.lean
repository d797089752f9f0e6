import SymbolicAlgebra.Proofs.Rounding
import SymbolicAlgebra.Simplify.Termination.Operands

/-!
# Normal forms

An expression is in normal form if nothing is left for any rule of simplification. Its chains lean
to the right; a number stands at the front of a chain only, where it matters and is rounded; the
other operands of a chain are unlike each other. A minus sign stands before variables, powers and
logarithms only, and no factor of a product has one.

A chain in normal form is put together from operands that are in normal form and are no such chains
themselves (`normal_build`), and these are what it is taken apart into (`Normal.operands`).
-/

namespace SymbolicAlgebra

open Simplify

/-- Whether an expression is a number. -/
def Expr.isConstant : Expr → Bool
  | .const _ => true
  | _ => false

lemma Expr.eq_const_of_isConstant {e : Expr} (h : e.isConstant) : ∃ c, e = .const c := by
  cases e with
  | const c => exact ⟨c, rfl⟩
  | _ => cases h

namespace Simplify

/-- The key by which a term of a sum is collected. -/
def termKey (e : Expr) : Except Error Expr :=
  (splitCoefficient e).1.likeKey

/-- The key by which a factor of a product is collected. -/
def factorKey (e : Expr) : Except Error Expr :=
  (splitExponent e).1.likeKey

/-- Operands with keys, any two of which differ. -/
structure Unlike (key : Expr → Except Error Expr) (es : List Expr) : Prop where
  known : ∀ e ∈ es, ∃ k, key e = .ok k
  distinct : es.Pairwise fun e e' => ∀ k k', key e = .ok k → key e' = .ok k' → (k == k') = false

lemma Unlike.sublist {key : Expr → Except Error Expr} {es es' : List Expr} (h : Unlike key es)
    (hs : es'.Sublist es) : Unlike key es' where
  known e he := h.known e (hs.subset he)
  distinct := h.distinct.sublist hs

end Simplify

/-- The operands of a sum in normal form. -/
structure IsNormalSum (es : List Expr) : Prop where
  head : ∀ c es', es = .const c :: es' → c.isZero = false ∧ c.rounded = c
  tail : ∀ e ∈ es.tail, e.isConstant = false
  unlike : Unlike termKey (es.filter (!·.isConstant))

/-- The operands of a product in normal form. A factor minus one alone with a variable, a power or a
logarithm becomes a minus sign. -/
structure IsNormalProduct (es : List Expr) : Prop where
  head : ∀ c es', es = .const c :: es' → c.isZero = false ∧ c.isOne = false ∧ c.rounded = c ∧
    c.refuseLong = .ok ()
  sign : ∀ c e, es = [.const c, e] → c == .integer (-1) → takesSign e = false
  tail : ∀ e ∈ es.tail, e.isConstant = false
  unlike : Unlike factorKey (es.filter (!·.isConstant))
  unsigned : ∀ e, .neg e ∉ es
  short : ∀ e ∈ es, refuseLongConstant (splitExponent e).2 = .ok ()

/-- The operands of a chain in normal form. -/
def IsNormalChain : Chain → List Expr → Prop
  | .sum => IsNormalSum
  | .product => IsNormalProduct

/-- The parts of a power in normal form. -/
structure IsNormalPower (b p : Expr) : Prop where
  exponent : ∀ c, p = .const c → c.isOne = false ∧ c.isZero = false
  base : ∀ b' q, b ≠ .pow b' q
  notReal : ∀ c d, b = .const c → p = .const d → ∃ s t, c.pow d = .error (.notReal s t)

/-- An expression in normal form. -/
def Expr.Normal : Expr → Prop
  | .const _ => True
  | .var _ => True
  | .add l r => l.Normal ∧ r.Normal ∧ Chain.sum.operands l = [l] ∧
    IsNormalSum (l :: Chain.sum.operands r)
  | .sub _ _ => False
  | .mul l r => l.Normal ∧ r.Normal ∧ Chain.product.operands l = [l] ∧
    IsNormalProduct (l :: Chain.product.operands r)
  | .div n d => n.Normal ∧ d.Normal ∧ (n.isConstant && d.isConstant) = false
  | .pow b p => b.Normal ∧ p.Normal ∧ IsNormalPower b p
  | .log b a => b.Normal ∧ a.Normal
  | .neg e => takesSign e ∧ e.Normal
  | .other _ _ _ => False

/-! ### Chains -/

/-- Operands that are no chains themselves are taken apart into themselves. -/
lemma Chain.flatMap_operands {c : Chain} {es : List Expr} (h : ∀ e ∈ es, c.operands e = [e]) :
    es.flatMap c.operands = es := by
  induction es with
  | nil => rfl
  | cons e es ih =>
    rw [List.flatMap_cons, h e (by simp), ih fun x hx => h x (by simp [hx])]
    rfl

lemma IsNormalSum.of_cons {e e' : Expr} {es : List Expr} (h : IsNormalSum (e :: e' :: es)) :
    IsNormalSum (e' :: es) where
  head c es' heq := by
    cases heq
    exact absurd (h.tail (.const c) (by simp)) (by simp [Expr.isConstant])
  tail x hx := h.tail x (List.mem_cons_of_mem e' hx)
  unlike := h.unlike.sublist ((List.sublist_cons_self e _).filter _)

lemma IsNormalProduct.of_cons {e e' : Expr} {es : List Expr} (h : IsNormalProduct (e :: e' :: es)) :
    IsNormalProduct (e' :: es) where
  head c es' heq := by
    cases heq
    exact absurd (h.tail (.const c) (by simp)) (by simp [Expr.isConstant])
  sign c x heq := by
    cases heq
    exact absurd (h.tail (.const c) (by simp)) (by simp [Expr.isConstant])
  tail x hx := h.tail x (List.mem_cons_of_mem e' hx)
  unlike := h.unlike.sublist ((List.sublist_cons_self e _).filter _)
  unsigned x hx := h.unsigned x (List.mem_cons_of_mem e hx)
  short x hx := h.short x (List.mem_cons_of_mem e hx)

lemma IsNormalChain.of_cons {c : Chain} {e e' : Expr} {es : List Expr}
    (h : IsNormalChain c (e :: e' :: es)) : IsNormalChain c (e' :: es) := by
  cases c
  · exact IsNormalSum.of_cons h
  · exact IsNormalProduct.of_cons h

namespace Expr

lemma normal_node {c : Chain} {l r : Expr} : (c.node l r).Normal ↔
    l.Normal ∧ r.Normal ∧ c.operands l = [l] ∧ IsNormalChain c (l :: c.operands r) := by
  cases c <;> rfl

lemma Normal.isNormalChain {c : Chain} {l r : Expr} (h : (c.node l r).Normal) :
    IsNormalChain c (c.operands (c.node l r)) := by
  obtain ⟨-, -, hops, hchain⟩ := normal_node.1 h
  rw [Chain.operands_node, hops]
  exact hchain

/-- An operand in normal form that is no chain itself. -/
def NormalOperand (c : Chain) (e : Expr) : Prop :=
  e.Normal ∧ c.operands e = [e]

/-- A chain is in normal form if its operands are those of a chain in normal form. -/
lemma normal_build {c : Chain} {es : List Expr} (hes : ∀ e ∈ es, e.NormalOperand c)
    (h : IsNormalChain c es) (hne : es ≠ []) : (c.build es).Normal := by
  cases es with
  | nil => exact absurd rfl hne
  | cons e es =>
    show (c.link e es).Normal
    induction es generalizing e with
    | nil => exact (hes e (by simp)).1
    | cons e' es ih =>
      have hrest : ∀ x ∈ e' :: es, x.NormalOperand c := fun x hx => hes x (by simp [hx])
      have hops : c.operands (c.link e' es) = e' :: es := by
        rw [Chain.operands_link, Chain.flatMap_operands fun x hx => (hrest x hx).2]
      rw [Chain.link, normal_node, hops]
      exact ⟨(hes e (by simp)).1, ih e' hrest h.of_cons (by simp), (hes e (by simp)).2, h⟩

/-- A chain in normal form leans to the right, with operands in normal form that are no such
chains. -/
lemma Normal.operands {e : Expr} (h : e.Normal) (c : Chain) :
    (∀ x ∈ c.operands e, x.NormalOperand c) ∧ c.build (c.operands e) = e := by
  induction e using Chain.induct c with
  | node l r _ ihr =>
    obtain ⟨hl, hr, hops, -⟩ := normal_node.1 h
    obtain ⟨hparts, hbuild⟩ := ihr hr
    rw [Chain.operands_node, hops]
    constructor
    · intro x hx
      rcases List.mem_cons.1 hx with rfl | hx
      · exact ⟨hl, hops⟩
      · exact hparts x hx
    · match hxs : c.operands r with
      | [] => exact absurd hxs (c.operands_ne_nil r)
      | x :: xs =>
        rw [hxs] at hbuild
        exact congrArg (c.node l) hbuild
  | leaf e hops =>
    rw [hops]
    exact ⟨fun x hx => List.mem_singleton.1 hx ▸ ⟨h, hops⟩, rfl⟩

end Expr

end SymbolicAlgebra
