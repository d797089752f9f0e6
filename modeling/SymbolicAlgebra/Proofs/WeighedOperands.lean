import SymbolicAlgebra.Proofs.Reordering
import SymbolicAlgebra.Proofs.Rules
import SymbolicAlgebra.Proofs.Sorting

/-!
# Canonical order in terms of operands

To bring a chain into order is to bring its operands into order, weigh them, sort them by their
weights and put them together again (`order_node_iff`).
-/

namespace SymbolicAlgebra

variable {c : Chain} {e l r s x : Expr} {xs ys : List Expr}

/-- The operand `e` in order is `w.2`, of the weight `w.1`. -/
def Weighs (e : Expr) (w : BigFloat × Expr) : Prop :=
  order e = .ok w.2 ∧ w.2.weight = .ok w.1

lemma Weighs.unique {w w' : BigFloat × Expr} (h : Weighs e w) (h' : Weighs e w') : w = w' := by
  have hexpr : w.2 = w'.2 := Except.ok.inj (h.1.symm.trans h'.1)
  have hweight : w.1 = w'.1 := Except.ok.inj (h.2.symm.trans (hexpr ▸ h'.2))
  exact Prod.ext hweight hexpr

lemma forall₂_weighs_unique {ws ws' : List (BigFloat × Expr)} (h : List.Forall₂ Weighs xs ws)
    (h' : List.Forall₂ Weighs xs ws') : ws = ws' :=
  List.right_unique_forall₂' (fun _ _ _ h h' => h.unique h') h h'

/-- Weighed operands from left to right, sorted by weight and put together. -/
def Chain.buildSorted (c : Chain) (ws : List (BigFloat × Expr)) : Expr :=
  c.build ((stableSort (fun a b => heavierOrEqual a.1 b.1) ws).map Prod.snd)

/-! ### Chains -/

lemma orderWithin_node (c : Chain) (l r : Expr) : orderWithin (some c) (c.node l r) = (do
    return c.node (← orderWithin (some c) l) (← orderWithin (some c) r)) := by
  cases c <;> simp [Chain.node, orderWithin]

lemma order_node (c : Chain) (l r : Expr) : order (c.node l r) = (do
    c.arrange Expr.weight heavierOrEqual (← orderWithin (some c) (c.node l r))) := by
  rw [orderWithin_node]
  simp only [bind_assoc, pure_bind]
  cases c <;> rfl

lemma orderWithin_leaf (h : c.operands e = [e]) : orderWithin (some c) e = order e := by
  cases e with
  | add l r =>
    cases c with
    | sum => exact absurd h (Chain.sum.operands_node_ne l r _)
    | product => simp [order, orderWithin]
  | mul l r =>
    cases c with
    | sum => simp [order, orderWithin]
    | product => exact absurd h (Chain.product.operands_node_ne l r _)
  | _ => rfl

lemma exists_node_of_arrange {κ : Type} {key : Expr → Except Error κ} {le : κ → κ → Bool}
    (h : c.arrange key le (c.node l r) = .ok s) : ∃ l' r', s = c.node l' r' := by
  obtain ⟨es, hperm, rfl⟩ := Chain.exists_perm_of_arrange h
  have hlen := c.two_le_length_operands l r
  rw [← hperm.length_eq] at hlen
  match es with
  | [] => simp at hlen
  | [_] => simp at hlen
  | x :: y :: es => exact ⟨x, c.link y es, rfl⟩

lemma exists_node_of_order (h : order (c.node l r) = .ok s) : ∃ l' r', s = c.node l' r' := by
  rw [order_node, orderWithin_node] at h
  obtain ⟨m, hm, h⟩ := bind_eq_ok_iff.1 h
  obtain ⟨l', -, hm⟩ := bind_eq_ok_iff.1 hm
  obtain ⟨r', -, hm⟩ := bind_eq_ok_iff.1 hm
  obtain rfl := pure_eq_ok_iff.1 hm
  exact exists_node_of_arrange h

/-- What is no chain does not become one. -/
lemma operands_of_order (h : order e = .ok s) (he : c.operands e = [e]) : c.operands s = [s] := by
  cases e with
  | add l r =>
    cases c with
    | sum => exact absurd he (Chain.sum.operands_node_ne l r _)
    | product =>
      obtain ⟨l', r', rfl⟩ := exists_node_of_order (c := .sum) h
      rfl
  | mul l r =>
    cases c with
    | sum =>
      obtain ⟨l', r', rfl⟩ := exists_node_of_order (c := .product) h
      rfl
    | product => exact absurd he (Chain.product.operands_node_ne l r _)
  | const n =>
    obtain rfl := Except.ok.inj h
    exact he
  | var x =>
    obtain rfl := Except.ok.inj h
    exact he
  | other m k es => cases h
  | neg x =>
    obtain ⟨x', -, h⟩ := bind_eq_ok_iff.1 h
    obtain rfl := pure_eq_ok_iff.1 h
    cases c <;> rfl
  | _ x y =>
    obtain ⟨x', -, h⟩ := bind_eq_ok_iff.1 h
    obtain ⟨y', -, h⟩ := bind_eq_ok_iff.1 h
    obtain rfl := pure_eq_ok_iff.1 h
    cases c <;> rfl

lemma operands_orderWithin_iff : (∃ s, orderWithin (some c) e = .ok s ∧ c.operands s = ys) ↔
    List.Forall₂ (fun x y => order x = .ok y) (c.operands e) ys := by
  induction e using Chain.induct c generalizing ys with
  | node l r ihl ihr =>
    simp only [orderWithin_node, Chain.operands_node, bind_eq_ok_iff, pure_eq_ok_iff]
    constructor
    · rintro ⟨s, ⟨l', hl, r', hr, rfl⟩, rfl⟩
      rw [Chain.operands_node]
      exact List.rel_append (ihl.1 ⟨l', hl, rfl⟩) (ihr.1 ⟨r', hr, rfl⟩)
    · intro h
      obtain ⟨ys₁, ys₂, hl, hr, rfl⟩ := forall₂_append_left_iff.1 h
      obtain ⟨l', hl', rfl⟩ := ihl.2 hl
      obtain ⟨r', hr', rfl⟩ := ihr.2 hr
      exact ⟨_, ⟨l', hl', r', hr', rfl⟩, c.operands_node l' r'⟩
  | leaf e he =>
    rw [orderWithin_leaf he, he]
    constructor
    · rintro ⟨s, hs, rfl⟩
      rw [operands_of_order hs he]
      exact .cons hs .nil
    · intro h
      obtain ⟨s, ys, hs, hys, rfl⟩ := List.forall₂_cons_left_iff.1 h
      obtain rfl := List.forall₂_nil_left_iff.1 hys
      exact ⟨s, hs, operands_of_order hs he⟩

lemma mapM_withKey_iff {ws : List (BigFloat × Expr)} :
    ys.mapM (Chain.withKey Expr.weight) = .ok ws ↔
    List.Forall₂ (fun y w => y = w.2 ∧ y.weight = .ok w.1) ys ws := by
  have hiff (y : Expr) (w : BigFloat × Expr) :
      Chain.withKey Expr.weight y = .ok w ↔ y = w.2 ∧ y.weight = .ok w.1 := by
    simp only [Chain.withKey, bind_eq_ok_iff, pure_eq_ok_iff]
    constructor
    · rintro ⟨k, hk, rfl⟩
      exact ⟨rfl, hk⟩
    · rintro ⟨hy, hw⟩
      exact ⟨w.1, hw, by rw [hy]⟩
  simp only [mapM_eq_ok_iff, hiff]

lemma forall₂_weighs_iff {ws : List (BigFloat × Expr)} : List.Forall₂ Weighs xs ws ↔
    ∃ ys, List.Forall₂ (fun x y => order x = .ok y) xs ys ∧
      List.Forall₂ (fun y w => y = w.2 ∧ y.weight = .ok w.1) ys ws := by
  have hweighs : Weighs = fun x w => ∃ y, order x = .ok y ∧ y = w.2 ∧ y.weight = .ok w.1 := by
    funext x w
    apply propext
    constructor
    · rintro ⟨hx, hw⟩
      exact ⟨w.2, hx, rfl, hw⟩
    · rintro ⟨_, hx, rfl, hw⟩
      exact ⟨hx, hw⟩
  rw [hweighs, forall₂_comp_iff]

/-- A chain in order is built from its operands in order, sorted by their weights. -/
theorem order_node_iff : order (c.node l r) = .ok s ↔
    ∃ ws, List.Forall₂ Weighs (c.operands (c.node l r)) ws ∧ s = c.buildSorted ws := by
  rw [order_node]
  simp only [bind_eq_ok_iff, Chain.arrange, pure_eq_ok_iff, mapM_withKey_iff, forall₂_weighs_iff,
    ← operands_orderWithin_iff]
  constructor
  · rintro ⟨m, hm, ws, hws, rfl⟩
    exact ⟨ws, ⟨_, ⟨m, hm, rfl⟩, hws⟩, rfl⟩
  · rintro ⟨ws, ⟨_, ⟨m, hm, rfl⟩, hws⟩, rfl⟩
    exact ⟨m, hm, ws, hws, rfl⟩

end SymbolicAlgebra
