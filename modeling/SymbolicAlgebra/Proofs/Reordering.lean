import Mathlib.Tactic.Common
import SymbolicAlgebra.Order

/-!
# Reordering

Two expressions are reorderings of each other when they differ by the order and the nesting of the
operands of sums and products, at any depth. Taking a chain apart, arranging its operands and
putting them together again reorders it; so the representative `likeKey` of an expression is a
reordering of it, and so is its canonical order.
-/

namespace SymbolicAlgebra

namespace Expr

/-- Equality up to the order and the nesting of the operands of chains. -/
inductive Reordered : Expr → Expr → Prop
  | refl (e : Expr) : Reordered e e
  | symm {e e' : Expr} : Reordered e e' → Reordered e' e
  | trans {e e' e'' : Expr} : Reordered e e' → Reordered e' e'' → Reordered e e''
  | comm (c : Chain) (l r : Expr) : Reordered (c.node l r) (c.node r l)
  | assoc (c : Chain) (e₁ e₂ e₃ : Expr) :
      Reordered (c.node (c.node e₁ e₂) e₃) (c.node e₁ (c.node e₂ e₃))
  | node (c : Chain) {l l' r r' : Expr} :
      Reordered l l' → Reordered r r' → Reordered (c.node l r) (c.node l' r')
  | sub {l l' r r' : Expr} : Reordered l l' → Reordered r r' → Reordered (sub l r) (sub l' r')
  | div {n n' d d' : Expr} : Reordered n n' → Reordered d d' → Reordered (div n d) (div n' d')
  | pow {b b' p p' : Expr} : Reordered b b' → Reordered p p' → Reordered (pow b p) (pow b' p')
  | log {b b' a a' : Expr} : Reordered b b' → Reordered a a' → Reordered (log b a) (log b' a')
  | neg {e e' : Expr} : Reordered e e' → Reordered (neg e) (neg e')

lemma Reordered.of_eq {e e' : Expr} (h : e = e') : Reordered e e' := by
  rw [h]
  exact .refl _

end Expr

open SymbolicAlgebra.Expr

/-! ### Chains -/

namespace Chain

variable {c : Chain}

lemma reordered_link_append (c : Chain) (e : Expr) (es : List Expr) (e' : Expr) (es' : List Expr) :
    Reordered (c.link e (es ++ e' :: es')) (c.node (c.link e es) (c.link e' es')) := by
  induction es generalizing e with
  | nil => exact .refl _
  | cons x es ih => exact (Reordered.node c (.refl e) (ih x)).trans (.symm (.assoc c _ _ _))

/-- A chain taken apart and put together. -/
lemma reordered_build_operands (c : Chain) (e : Expr) : Reordered (c.build (c.operands e)) e := by
  have hnode (l r : Expr) (hl : Reordered (c.build (c.operands l)) l)
      (hr : Reordered (c.build (c.operands r)) r) :
      Reordered (c.build (c.operands l ++ c.operands r)) (c.node l r) := by
    obtain ⟨x, xs, hx⟩ := List.exists_cons_of_ne_nil (c.operands_ne_nil l)
    obtain ⟨y, ys, hy⟩ := List.exists_cons_of_ne_nil (c.operands_ne_nil r)
    rw [hx] at hl ⊢
    rw [hy] at hr ⊢
    exact (reordered_link_append c x xs y ys).trans (.node c hl hr)
  induction e with
  | add l r ihl ihr =>
    cases c with
    | sum =>
      rw [operands_sum_add]
      exact hnode l r ihl ihr
    | product => rw [operands] <;> first | exact .refl _ | simp
  | mul l r ihl ihr =>
    cases c with
    | sum => rw [operands] <;> first | exact .refl _ | simp
    | product =>
      rw [operands_product_mul]
      exact hnode l r ihl ihr
  | _ => rw [operands] <;> first | exact .refl _ | simp

lemma reordered_link_swap (c : Chain) (e e' : Expr) (es : List Expr) :
    Reordered (c.link e (e' :: es)) (c.link e' (e :: es)) := by
  cases es with
  | nil => exact .comm c e e'
  | cons x es =>
    have hswap := Reordered.node c (.comm c e e') (.refl (c.link x es))
    exact ((Reordered.assoc c _ _ _).symm.trans hswap).trans (.assoc c _ _ _)

/-- Chains with the same operands in another order. -/
lemma reordered_build_of_perm {es es' : List Expr} (h : es.Perm es') :
    Reordered (c.build es) (c.build es') := by
  induction h with
  | nil => exact .refl _
  | @cons e es es' hperm ih =>
    cases es with
    | nil =>
      rw [hperm.nil_eq]
      exact .refl _
    | cons x es =>
      cases es' with
      | nil => exact absurd hperm.eq_nil (by simp)
      | cons x' es' => exact .node c (.refl e) ih
  | swap e e' es => exact reordered_link_swap c e' e es
  | trans _ _ ih ih' => exact ih.trans ih'

lemma reordered_of_arrange {κ : Type} {key : Expr → Except Error κ} {le : κ → κ → Bool}
    {e e' : Expr} (h : c.arrange key le e = .ok e') : Reordered e e' := by
  obtain ⟨es, hperm, rfl⟩ := exists_perm_of_arrange h
  exact ((reordered_build_of_perm hperm).trans (reordered_build_operands c e)).symm

end Chain

/-! ### Representatives and canonical order -/

/-- An expression with all its chains arranged by one key, where a chain of the kind `c` is left for
the chain around it. Expressions of unknown kinds become what `other` says. -/
def arrangeWithin {κ : Type} (key : Expr → Except Error κ) (le : κ → κ → Bool)
    (other : Expr → Except Error Expr) (c : Option Chain) : Expr → Except Error Expr
  | .const n => .ok (.const n)
  | .var x => .ok (.var x)
  | .add l r => do
    let s := Expr.add (← arrangeWithin key le other (some .sum) l)
      (← arrangeWithin key le other (some .sum) r)
    if c = some .sum then return s else Chain.sum.arrange key le s
  | .mul l r => do
    let p := Expr.mul (← arrangeWithin key le other (some .product) l)
      (← arrangeWithin key le other (some .product) r)
    if c = some .product then return p else Chain.product.arrange key le p
  | .sub l r => do
    return .sub (← arrangeWithin key le other none l) (← arrangeWithin key le other none r)
  | .div n d => do
    return .div (← arrangeWithin key le other none n) (← arrangeWithin key le other none d)
  | .pow b p => do
    return .pow (← arrangeWithin key le other none b) (← arrangeWithin key le other none p)
  | .log b a => do
    return .log (← arrangeWithin key le other none b) (← arrangeWithin key le other none a)
  | .neg e => do return .neg (← arrangeWithin key le other none e)
  | .other m k es => other (.other m k es)

lemma likeKeyWithin_eq (c : Option Chain) (e : Expr) :
    likeKeyWithin c e = arrangeWithin keyText (· ≤ ·) .ok c e := by
  induction e generalizing c with
  | const | var | other => rfl
  | neg e ih => simp only [likeKeyWithin, arrangeWithin, ih]
  | _ l r ihl ihr => simp only [likeKeyWithin, arrangeWithin, ihl, ihr]

lemma orderWithin_eq (c : Option Chain) (e : Expr) :
    orderWithin c e = arrangeWithin weight heavierOrEqual
      (fun x => .error (.unsupported (lowerCase x.kindName) .canonicalOrdering)) c e := by
  induction e generalizing c with
  | const | var | other => rfl
  | neg e ih => simp only [orderWithin, arrangeWithin, ih]
  | _ l r ihl ihr => simp only [orderWithin, arrangeWithin, ihl, ihr]

lemma reordered_arrangeWithin {κ : Type} {key : Expr → Except Error κ} {le : κ → κ → Bool}
    {other : Expr → Except Error Expr} (hother : ∀ x x', other x = .ok x' → Reordered x x')
    {c : Option Chain} {e r : Expr} (h : arrangeWithin key le other c e = .ok r) :
    Reordered e r := by
  induction e generalizing c r with
  | const n => exact .of_eq (pure_eq_ok_iff.1 h)
  | var x => exact .of_eq (pure_eq_ok_iff.1 h)
  | other m kind es _ => exact hother _ _ h
  | add l r ihl ihr =>
    obtain ⟨l', hl, h⟩ := bind_eq_ok_iff.1 h
    obtain ⟨r', hr, h⟩ := bind_eq_ok_iff.1 h
    refine (Reordered.node .sum (ihl hl) (ihr hr)).trans ?_
    split at h
    · exact .of_eq (pure_eq_ok_iff.1 h)
    · exact Chain.reordered_of_arrange h
  | mul l r ihl ihr =>
    obtain ⟨l', hl, h⟩ := bind_eq_ok_iff.1 h
    obtain ⟨r', hr, h⟩ := bind_eq_ok_iff.1 h
    refine (Reordered.node .product (ihl hl) (ihr hr)).trans ?_
    split at h
    · exact .of_eq (pure_eq_ok_iff.1 h)
    · exact Chain.reordered_of_arrange h
  | sub l r ihl ihr =>
    obtain ⟨l', hl, h⟩ := bind_eq_ok_iff.1 h
    obtain ⟨r', hr, h⟩ := bind_eq_ok_iff.1 h
    exact (Reordered.sub (ihl hl) (ihr hr)).trans (.of_eq (pure_eq_ok_iff.1 h))
  | div n d ihn ihd =>
    obtain ⟨n', hn, h⟩ := bind_eq_ok_iff.1 h
    obtain ⟨d', hd, h⟩ := bind_eq_ok_iff.1 h
    exact (Reordered.div (ihn hn) (ihd hd)).trans (.of_eq (pure_eq_ok_iff.1 h))
  | pow b p ihb ihp =>
    obtain ⟨b', hb, h⟩ := bind_eq_ok_iff.1 h
    obtain ⟨p', hp, h⟩ := bind_eq_ok_iff.1 h
    exact (Reordered.pow (ihb hb) (ihp hp)).trans (.of_eq (pure_eq_ok_iff.1 h))
  | log b a ihb iha =>
    obtain ⟨b', hb, h⟩ := bind_eq_ok_iff.1 h
    obtain ⟨a', ha, h⟩ := bind_eq_ok_iff.1 h
    exact (Reordered.log (ihb hb) (iha ha)).trans (.of_eq (pure_eq_ok_iff.1 h))
  | neg e ih =>
    obtain ⟨e', he, h⟩ := bind_eq_ok_iff.1 h
    exact (Reordered.neg (ih he)).trans (.of_eq (pure_eq_ok_iff.1 h))

/-- The representative of an expression is a reordering of it. -/
lemma reordered_likeKey {e k : Expr} (h : e.likeKey = .ok k) : Reordered e k := by
  have h := likeKeyWithin_of_likeKey h
  rw [likeKeyWithin_eq] at h
  exact reordered_arrangeWithin (fun x x' hx => .of_eq (Except.ok.inj hx)) h

/-- The canonical order of an expression is a reordering of it. -/
lemma reordered_order {e r : Expr} (h : order e = .ok r) : Reordered e r := by
  rw [order, orderWithin_eq] at h
  exact reordered_arrangeWithin (fun x x' hx => by simp at hx) h

end SymbolicAlgebra
