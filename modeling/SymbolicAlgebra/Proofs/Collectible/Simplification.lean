import SymbolicAlgebra.Proofs.Collectible.Product
import SymbolicAlgebra.Proofs.Shape

/-!
# Collected terms and factors

A collectible expression is simplified to one in normal form (`simplify_isReady`). In normal form
like terms and factors are collected: a chain has one number at most, and its other operands have
keys that differ (`areCollected_of_isNodeOf_simplify`). So they are wherever simplification has come
to an end.
-/

namespace SymbolicAlgebra

open SymbolicAlgebra.Expr Simplify

variable {b e l m n d p r x y : Expr} {c : Chain} {es : List Expr}

namespace Simplify

/-! ### Chains of simplified expressions -/

/-- The operands of a chain whose parts have been simplified. -/
lemma isReadyOperand_of_operands (h : Rules.operands c e = .ok es)
    (hparts : ∀ x ∈ c.operands e, ∀ y, simplify x = .ok y →
      y.IsReady ∧ (c = .product → y.isSumLike = false)) : ∀ x ∈ es, x.IsReadyOperand c := by
  obtain ⟨rs, hrs, h⟩ := bind_eq_ok_iff.1 h
  obtain rfl := pure_eq_ok_iff.1 h
  have hready : ∀ y ∈ rs, y.IsReady ∧ (c = .product → y.isSumLike = false) :=
    forall_mem_of_forall₂ ((List.forall₂_and_left _ _).2 ⟨hparts, mapM_eq_ok_iff.1 hrs⟩)
      fun x y hxy => hxy.1 y hxy.2
  intro x hx
  obtain ⟨y, hy, hx⟩ := List.mem_flatMap.1 hx
  exact (hready y hy).1.mem_operands (hready y hy).2 hx

/-- A chain whose operands are in normal form already is simplified by its rule alone. -/
lemma isReadyOperand_of_ready (h : Rules.operands c e = .ok es)
    (hops : ∀ x ∈ c.operands e, x.IsReadyOperand c) : ∀ x ∈ es, x.IsReadyOperand c := by
  refine isReadyOperand_of_operands h fun x hx y hy => ?_
  obtain ⟨hn, hc⟩ := hops x hx
  obtain rfl := Except.ok.inj ((simplify_of_normal hn.1).symm.trans hy)
  exact ⟨⟨hn.1, hc.1⟩, hc.2⟩

/-! ### Opposites and quotients -/

lemma quotient_isReady (hn : n.IsReady) (hd : d.IsReady) (h : quotient n d = .ok r) :
    r.IsReady ∧ r.isSumLike = false := by
  unfold quotient at h
  split at h
  · obtain ⟨k, hk, h⟩ := bind_eq_ok_iff.1 h
    obtain rfl := pure_eq_ok_iff.1 h
    exact ⟨⟨trivial, Number.isExact_div hn.collectible hd.collectible hk⟩, rfl⟩
  · next hconst =>
    obtain rfl := Except.ok.inj h
    refine ⟨⟨⟨hn.normal, hd.normal, ?_⟩, hn.collectible, hd.collectible⟩, rfl⟩
    by_contra hboth
    simp only [Bool.not_eq_false, Bool.and_eq_true] at hboth
    obtain ⟨i, rfl⟩ := eq_const_of_isConstant hboth.1
    obtain ⟨j, rfl⟩ := eq_const_of_isConstant hboth.2
    exact hconst i j rfl rfl

lemma simplify_neg_of_normal (h : e.Normal) : simplify (.neg e) = Rules.opposite e := by
  rw [simplify_neg, simplify_of_normal h]
  rfl

/-- The opposite of a collectible expression in normal form is one in normal form. -/
theorem opposite_isReady (he : e.IsReady) (h : Rules.opposite e = .ok r) :
    r.IsReady ∧ (e.isSumLike = false → r.isSumLike = false) := by
  induction e generalizing r with
  | const k =>
    obtain rfl := Except.ok.inj h
    exact ⟨⟨trivial, Number.isExact_neg he.collectible⟩, fun _ => rfl⟩
  | neg x =>
    obtain rfl := Except.ok.inj h
    exact ⟨⟨he.normal.2, he.collectible⟩, id⟩
  | add l m ihl ihm =>
    obtain ⟨hnl, hnm, -⟩ := he.normal
    obtain ⟨hcl, hcm⟩ := he.collectible
    have h : simplify (.add (.neg l) (.neg m)) = .ok r := h
    rw [simplify_add] at h
    obtain ⟨es, hes, h⟩ := bind_eq_ok_iff.1 h
    refine ⟨sum_isReady (isReadyOperand_of_operands hes fun x hx y hy => ⟨?_, by simp⟩) h,
      by simp [isSumLike]⟩
    rcases List.mem_cons.1 hx with rfl | hx
    · rw [simplify_neg_of_normal hnl] at hy
      exact (ihl ⟨hnl, hcl⟩ hy).1
    · obtain rfl := List.mem_singleton.1 hx
      rw [simplify_neg_of_normal hnm] at hy
      exact (ihm ⟨hnm, hcm⟩ hy).1
  | sub l m => exact he.normal.elim
  | mul l m ihl ihm =>
    obtain ⟨hnl, hnm, -⟩ := he.normal
    obtain ⟨⟨hcl, hsl⟩, hcm, hsm⟩ := he.collectible
    have h : simplify (.mul (.neg l) m) = .ok r := h
    rw [simplify_mul] at h
    obtain ⟨es, hes, h⟩ := bind_eq_ok_iff.1 h
    have hparts : ∀ x ∈ Chain.product.operands (.mul (.neg l) m), ∀ y, simplify x = .ok y →
        y.IsReady ∧ (Chain.product = .product → y.isSumLike = false) := by
      intro x hx y hy
      rw [Chain.operands_product_mul] at hx
      rcases List.mem_append.1 hx with hx | hx
      · obtain rfl := List.mem_singleton.1 hx
        rw [simplify_neg_of_normal hnl] at hy
        obtain ⟨hy, hsum⟩ := ihl ⟨hnl, hcl⟩ hy
        exact ⟨hy, fun _ => hsum hsl⟩
      · have hready : x.IsReadyOperand .product :=
          Expr.IsReady.mem_operands ⟨hnm, hcm⟩ (fun _ => hsm) hx
        obtain rfl := Except.ok.inj ((simplify_of_normal hready.normal.1).symm.trans hy)
        exact ⟨⟨hready.normal.1, hready.collectible.1⟩, hready.collectible.2⟩
    obtain ⟨hr, hsum⟩ := product_isReady (isReadyOperand_of_operands hes hparts) h
    exact ⟨hr, fun _ => hsum⟩
  | div n d ihn ihd =>
    obtain ⟨hnn, hnd, -⟩ := he.normal
    obtain ⟨hcn, hcd⟩ := he.collectible
    have h : simplify (.div (.neg n) d) = .ok r := h
    rw [simplify_div, simplify_neg_of_normal hnn, simplify_of_normal hnd] at h
    obtain ⟨y, hy, h⟩ := bind_eq_ok_iff.1 h
    obtain ⟨hr, hsum⟩ := quotient_isReady (ihn ⟨hnn, hcn⟩ hy).1 ⟨hnd, hcd⟩ h
    exact ⟨hr, fun _ => hsum⟩
  | other k s es => exact he.normal.elim
  | _ =>
    obtain rfl := Except.ok.inj h
    exact ⟨⟨⟨rfl, he.normal⟩, he.collectible⟩, fun _ => rfl⟩

/-! ### Powers -/

/-- An exponent of a base is one of what the base is simplified to, when it is worked out. -/
lemma takesExponent_of_simplify (ht : b.TakesExponent p) (hb : simplify b = .ok x)
    (hp : simplify p = .ok y) : x.TakesExponent y := by
  cases b with
  | var z =>
    rw [simplify_var] at hb
    obtain rfl := Except.ok.inj hb
    trivial
  | log i j =>
    rw [simplify_log] at hb
    obtain ⟨i', -, hb⟩ := bind_eq_ok_iff.1 hb
    obtain ⟨j', -, hb⟩ := bind_eq_ok_iff.1 hb
    obtain rfl := pure_eq_ok_iff.1 hb
    trivial
  | const k =>
    rw [simplify_const] at hb
    obtain rfl := Except.ok.inj hb
    exact ht.of_simplify hp
  | div n d =>
    rw [simplify_div] at hb
    obtain ⟨n', -, hb⟩ := bind_eq_ok_iff.1 hb
    obtain ⟨d', -, hb⟩ := bind_eq_ok_iff.1 hb
    have hy := (IsWholeTree.of_simplify ht hp).isWholeTree
    unfold quotient at hb
    split at hb
    · obtain ⟨k, -, hb⟩ := bind_eq_ok_iff.1 hb
      obtain rfl := pure_eq_ok_iff.1 hb
      exact hy
    · obtain rfl := Except.ok.inj hb
      exact hy
  | _ =>
    have hx := simplify_isExactWith ht.1 hb
    exact takesExponent_of_isMultiple hx.toTree (ht.2.of_simplify hp)

end Simplify

/-! ### Simplification -/

/-- A collectible expression is simplified to one in normal form, and if it is no sum it becomes
none. -/
theorem simplify_isReady (he : e.IsCollectible) (h : simplify e = .ok r) :
    r.IsReady ∧ (e.isSumLike = false → r.isSumLike = false) := by
  induction hn : e.rank using Nat.strong_induction_on generalizing e r with
  | h n ih =>
    have ih (x y : Expr) (hx : x.IsCollectible) (hlt : x.rank < e.rank) (hy : simplify x = .ok y) :
        y.IsReady ∧ (x.isSumLike = false → y.isSumLike = false) := ih x.rank (hn ▸ hlt) hx hy rfl
    -- the operands of a chain are of a smaller rank
    have hchain (c : Chain) (l m : Expr) (heq : c.node l m = e) (es : List Expr)
        (hes : Rules.operands c e = .ok es) : ∀ x ∈ es, x.IsReadyOperand c := by
      subst heq
      refine isReadyOperand_of_operands hes fun x hx y hy => ?_
      obtain ⟨hl, hm⟩ := isCollectible_node.1 he
      have hc := Chain.isCollectible_of_mem_operands (isCollectibleOperand_node hl hm) hx
      obtain ⟨hready, hsum⟩ := ih x y hc.1 (Chain.rank_lt_of_mem_operands hx) hy
      exact ⟨hready, fun hproduct => hsum (hc.2 hproduct)⟩
    cases e with
    | const k =>
      rw [simplify_const] at h
      obtain rfl := Except.ok.inj h
      exact ⟨⟨trivial, he⟩, id⟩
    | var z =>
      rw [simplify_var] at h
      obtain rfl := Except.ok.inj h
      exact ⟨⟨trivial, trivial⟩, id⟩
    | add l m =>
      rw [simplify_add] at h
      obtain ⟨es, hes, h⟩ := bind_eq_ok_iff.1 h
      exact ⟨sum_isReady (hchain .sum l m rfl es hes) h, by simp [isSumLike]⟩
    | mul l m =>
      rw [simplify_mul] at h
      obtain ⟨es, hes, h⟩ := bind_eq_ok_iff.1 h
      obtain ⟨hr, hsum⟩ := product_isReady (hchain .product l m rfl es hes) h
      exact ⟨hr, fun _ => hsum⟩
    | sub l m =>
      rw [simplify_sub] at h
      obtain ⟨x, hx, h⟩ := bind_eq_ok_iff.1 h
      obtain ⟨y, hy, h⟩ := bind_eq_ok_iff.1 h
      obtain ⟨z, hz, h⟩ := bind_eq_ok_iff.1 h
      obtain ⟨hx, -⟩ := ih l x he.1 (by simp only [rank]; omega) hx
      obtain ⟨hy, -⟩ := ih m y he.2 (by simp only [rank]; omega) hy
      rw [simplify_neg_of_normal hy.normal] at hz
      obtain ⟨hz, -⟩ := opposite_isReady hy hz
      refine ⟨?_, by simp [isSumLike]⟩
      rw [simplify_add] at h
      obtain ⟨es, hes, h⟩ := bind_eq_ok_iff.1 h
      refine sum_isReady (isReadyOperand_of_ready hes fun w hw => ?_) h
      rw [Chain.operands_sum_add, List.mem_append] at hw
      exact hw.elim (fun hw => hx.mem_operands (by simp) hw) fun hw => hz.mem_operands (by simp) hw
    | div n d =>
      rw [simplify_div] at h
      obtain ⟨x, hx, h⟩ := bind_eq_ok_iff.1 h
      obtain ⟨y, hy, h⟩ := bind_eq_ok_iff.1 h
      obtain ⟨hx, -⟩ := ih n x he.1 (by simp only [rank]; omega) hx
      obtain ⟨hy, -⟩ := ih d y he.2 (by simp only [rank]; omega) hy
      obtain ⟨hr, hsum⟩ := quotient_isReady hx hy h
      exact ⟨hr, fun _ => hsum⟩
    | pow b p =>
      rw [simplify_pow] at h
      obtain ⟨x, hx, h⟩ := bind_eq_ok_iff.1 h
      obtain ⟨y, hy, h⟩ := bind_eq_ok_iff.1 h
      have ht := takesExponent_of_simplify he.2.2 hx hy
      obtain ⟨hx, -⟩ := ih b x he.1 (rank_base_lt_pow b p) hx
      obtain ⟨hy, -⟩ := ih p y he.2.1 (rank_exponent_lt_pow b p) hy
      obtain ⟨hr, hsum⟩ := power_isReady hx hy ht h
      exact ⟨hr, fun _ => hsum⟩
    | log b a =>
      rw [simplify_log] at h
      obtain ⟨x, hx, h⟩ := bind_eq_ok_iff.1 h
      obtain ⟨y, hy, h⟩ := bind_eq_ok_iff.1 h
      obtain rfl := pure_eq_ok_iff.1 h
      obtain ⟨hx, -⟩ := ih b x he.1 (by simp only [rank]; omega) hx
      obtain ⟨hy, -⟩ := ih a y he.2 (by simp only [rank]; omega) hy
      exact ⟨⟨⟨hx.normal, hy.normal⟩, hx.collectible, hy.collectible⟩, fun _ => rfl⟩
    | neg u =>
      rw [simplify_neg] at h
      obtain ⟨x, hx, h⟩ := bind_eq_ok_iff.1 h
      have hpos := u.two_le_rank
      obtain ⟨hx, hsum⟩ := ih u x he (by simp only [rank]; omega) hx
      obtain ⟨hr, hsum'⟩ := opposite_isReady hx h
      exact ⟨hr, fun hu => hsum' (hsum hu)⟩
    | other k s es => exact he.elim

/-! ### Collected chains -/

namespace Simplify

/-- What a factor is a power of. -/
def factorBase : Expr → Expr
  | .pow b _ => b
  | .neg e => e
  | e => e

/-- The key by which an operand of a chain is collected. -/
def chainKey : Chain → Expr → Except Error Expr
  | .sum => termKey
  | .product => fun e => (factorBase e).likeKey

/-- Operands of a chain of which one at most is a number and no two others have one key. -/
structure AreCollected (c : Chain) (es : List Expr) : Prop where
  constants : es.countP (·.isConstant) ≤ 1
  unlike : Unlike (chainKey c) (es.filter (!·.isConstant))

lemma Unlike.congr {key key' : Expr → Except Error Expr} (h : Unlike key es)
    (heq : ∀ x ∈ es, key x = key' x) : Unlike key' es where
  known x hx := heq x hx ▸ h.known x hx
  distinct := h.distinct.imp_of_mem fun {x y} hx hy hxy => by rwa [heq x hx, heq y hy] at hxy

lemma countP_isConstant_le_one (h : ∀ x ∈ es.tail, x.isConstant = false) :
    es.countP (·.isConstant) ≤ 1 := by
  cases es with
  | nil => exact Nat.zero_le 1
  | cons x es =>
    have hes : es.countP (·.isConstant) = 0 := List.countP_eq_zero.2 fun y hy => by simp [h y hy]
    rw [List.countP_cons, hes]
    split <;> omega

/-- The operands of a chain in normal form are collected. -/
lemma IsNormalChain.areCollected (h : IsNormalChain c es) : AreCollected c es where
  constants := countP_isConstant_le_one (not_isConstant_of_tail h)
  unlike := by
    cases c with
    | sum => exact IsNormalSum.unlike h
    | product =>
      refine (IsNormalProduct.unlike h).congr fun x hx => ?_
      cases x with
      | neg y => exact absurd (List.mem_of_mem_filter hx) (IsNormalProduct.unsigned h y)
      | _ => rfl

end Simplify

lemma Expr.Normal.of_mem_children (h : e.Normal) (hx : x ∈ e.children) : x.Normal := by
  cases e with
  | const | var => cases hx
  | sub | other => exact h.elim
  | neg u =>
    obtain rfl := List.mem_singleton.1 hx
    exact h.2
  | log b a =>
    rcases List.mem_cons.1 hx with rfl | hx
    · exact h.1
    · exact List.mem_singleton.1 hx ▸ h.2
  | _ =>
    rcases List.mem_cons.1 hx with rfl | hx
    · exact h.1
    · exact List.mem_singleton.1 hx ▸ h.2.1

lemma Expr.Normal.of_isNodeOf (h : e.Normal) (hx : x.IsNodeOf e) : x.Normal := by
  induction hx with
  | self => exact h
  | child _ hy ih => exact ih (h.of_mem_children hy)

/-- Every chain of a simplified expression is collected, if the expression was collectible or there
is nothing left to simplify. -/
theorem areCollected_of_isNodeOf_simplify (h : simplify e = .ok r)
    (he : e.IsCollectible ∨ simplify r = .ok r) (hx : (c.node l m).IsNodeOf r) :
    AreCollected c (c.operands (c.node l m)) := by
  have hr : r.Normal := by
    rcases he with he | hfixed
    · exact (simplify_isReady he h).1.normal
    · exact (normal_of_rank_eq hfixed rfl).1
  exact IsNormalChain.areCollected (hr.of_isNodeOf hx).isNormalChain

/-- In `x * (y * x ^ 2) + 3 * (y * x ^ 3)` the factors become alike, and then the terms. -/
theorem areCollected_of_like_powers :
    let x : Expr := .var "x"
    let y : Expr := .var "y"
    let e : Expr :=
      .add (.mul x (.mul y (.pow x (.const 2)))) (.mul (.const 3) (.mul y (.pow x (.const 3))))
    let r : Expr := .mul (.const 4) (.mul (.pow x (.const 3)) y)
    e.IsCollectible ∧ simplify e = .ok r ∧ AreCollected .product (Chain.product.operands r) := by
  intro x y e r
  have he : e.IsCollectible := by
    simp [e, x, y, IsCollectible, isSumLike, TakesExponent, baseKind, Number.isExact]
  have hr : simplify e = .ok r := by decide +kernel
  exact ⟨he, hr, areCollected_of_isNodeOf_simplify (c := .product) hr (.inl he) (.self r)⟩

/-- The like terms of `x + (3 * (x + y) + -2 * (x + y))` leave the sum `x + y` as an operand, and
its term `x` is not collected with the one that is an operand already. -/
theorem not_areCollected_of_cancelled_coefficient :
    let x : Expr := .var "x"
    let y : Expr := .var "y"
    let e : Expr := .add x (.add (.mul (.const 3) (.add x y)) (.mul (.const (-2)) (.add x y)))
    e.IsExact ∧ simplify e = .ok (.add x (.add x y)) ∧
      ¬AreCollected .sum (Chain.sum.operands (.add x (.add x y))) := by
  intro x y e
  refine ⟨⟨trivial, ⟨rfl, trivial, trivial⟩, rfl, trivial, trivial⟩, by decide +kernel, fun h => ?_⟩
  have hkey : termKey x = .ok x := by decide +kernel
  have hdistinct : ([x, x, y] : List Expr).Pairwise fun e e' =>
      ∀ k k', termKey e = .ok k → termKey e' = .ok k' → (k == k') = false := h.unlike.distinct
  have hsame : (x == x) = false :=
    List.rel_of_pairwise_cons hdistinct List.mem_cons_self x x hkey hkey
  simp [x, BEq.beq, same] at hsame

end SymbolicAlgebra
