import SymbolicAlgebra.Proofs.DecidableExpr
import SymbolicAlgebra.Proofs.NormalForm
import SymbolicAlgebra.Proofs.Occurrences
import SymbolicAlgebra.Proofs.Value
import SymbolicAlgebra.Proofs.WeighedOperands
import SymbolicAlgebra.Proofs.WeightOrder

/-!
# Canonical order as a stable sort

`Expr.HasOrder` says what the canonical order of an expression is without saying how it is found:
each chain becomes the chain of its operands, themselves in order, with weights that do not increase
and with operands of one weight as they stood. That determines it, and `order` gives it, if it gives
anything (`order_eq_ok_iff`).

So an expression in canonical order is left as it is, and it means what the expression meant
wherever sums and products may be regrouped and their operands exchanged (`order_sorts`).
-/

namespace SymbolicAlgebra

/-! ### Weights that tell operands apart -/

namespace BigFloat

variable {a b : BigFloat}

lemma eq_of_place_eq (ha : a.isNaN = false) (hb : b.isNaN = false) (h : place a = place b) :
    a = b := by
  have hbounds (x : Dyadic) (s : Bool) : place (finite x) ≠ place (infinite s) := by
    cases s with
    | true => exact ne_of_gt (place_finite x).1
    | false => exact ne_of_lt (place_finite x).2
  match a, b, ha, hb with
  | infinite s, infinite t, _, _ => cases s <;> cases t <;> simp_all [place]
  | infinite s, finite y, _, _ => exact absurd h.symm (hbounds y s)
  | finite x, infinite t, _, _ => exact absurd h (hbounds x t)
  | finite .zero, finite .zero, _, _ => rfl
  | finite .zero, finite (.ofOdd n k hn), _, _ =>
    by_cases hneg : n < 0 <;> simp [place, hneg] at h
  | finite (.ofOdd n k hn), finite .zero, _, _ =>
    by_cases hneg : n < 0 <;> simp [place, hneg] at h
  | finite (.ofOdd m j hm), finite (.ofOdd n k hn), _, _ =>
    rw [finite.injEq, ← Dyadic.toRat_inj]
    by_cases hm : m < 0 <;> by_cases hn : n < 0 <;> simp_all [place]

/-- Values neither of which is less than the other are one. -/
lemma eq_of_not_lt (ha : a.isNaN = false) (hb : b.isNaN = false) (hab : a.lt b = false)
    (hba : b.lt a = false) : a = b := by
  refine eq_of_place_eq ha hb (le_antisymm ?_ ?_)
  · rw [← not_lt, ← lt_iff_place hb ha, hba]
    exact Bool.false_ne_true
  · rw [← not_lt, ← lt_iff_place ha hb, hab]
    exact Bool.false_ne_true

end BigFloat

/-! ### Sorted entries -/

/-- The entries `ws'` are the entries `ws` sorted by weight, the heaviest first; entries of one
weight are in the order that they had. -/
structure IsSorted (ws ws' : List (BigFloat × Expr)) : Prop where
  perm : ws'.Perm ws
  descending : ws'.Pairwise fun w w' => w.1.lt w'.1 = false
  stable : ∀ k, ws'.filter (·.1 = k) = ws.filter (·.1 = k)

namespace IsSorted

variable {ws as bs : List (BigFloat × Expr)}

/-- There is one way to sort entries. -/
lemma unique (hws : ∀ w ∈ ws, w.1.isNaN = false) (has : IsSorted ws as) (hbs : IsSorted ws bs) :
    as = bs := by
  have hnan (w : BigFloat × Expr) (hw : w ∈ as) : w.1.isNaN = false :=
    hws w (has.perm.mem_iff.1 hw)
  refine eq_of_filter_eq Prod.fst (fun a b => a.lt b)
    (fun a ha b hb hab hba => ?_) ?_ ?_ fun k => ?_
  · exact BigFloat.eq_of_not_lt (hnan a ha) (hnan b hb) (by simpa using hab) (by simpa using hba)
  · simpa using has.descending
  · simpa using hbs.descending
  · rw [has.stable, hbs.stable]

/-- Entries are sorted by their weights as by the places of these, which are in a linear order. -/
lemma stableSort_eq_of_place (hws : ∀ w ∈ ws, w.1.isNaN = false) :
    stableSort (fun a b => heavierOrEqual a.1 b.1) ws =
      stableSort (fun a b => decide (b.1.place ≤ a.1.place)) ws := by
  have hsame : List.Forall₂ (fun a b => a = b ∧ a.1.isNaN = false) ws ws :=
    List.forall₂_same.2 fun w hw => ⟨rfl, hws w hw⟩
  have hsorted : List.Forall₂ (fun a b => a = b ∧ a.1.isNaN = false)
      (stableSort (fun a b => heavierOrEqual a.1 b.1) ws)
      (stableSort (fun a b => decide (b.1.place ≤ a.1.place)) ws) := by
    refine forall₂_stableSort (fun h h' => ?_) hsame
    obtain ⟨rfl, ha⟩ := h
    obtain ⟨rfl, ha'⟩ := h'
    rw [Bool.eq_iff_iff, heavierOrEqual_iff_place ha ha', decide_eq_true_iff]
  exact List.forall₂_eq_eq_eq ▸ hsorted.imp fun _ _ h => h.1

lemma of_stableSort (hws : ∀ w ∈ ws, w.1.isNaN = false) :
    IsSorted ws (stableSort (fun a b => heavierOrEqual a.1 b.1) ws) where
  perm := stableSort_perm _ ws
  descending := by
    have hnan (w) (hw : w ∈ stableSort (fun a b => heavierOrEqual a.1 b.1) ws) :
        w.1.isNaN = false := hws w ((stableSort_perm _ ws).mem_iff.1 hw)
    have hplaces : (stableSort (fun a b => heavierOrEqual a.1 b.1) ws).Pairwise
        fun a b => decide (b.1.place ≤ a.1.place) := by
      rw [stableSort_eq_of_place hws]
      refine pairwise_stableSort (fun a b => ?_) (fun {a b c} hab hbc => ?_) ws
      · simpa using le_total b.1.place a.1.place
      · exact decide_eq_true (le_trans (of_decide_eq_true hbc) (of_decide_eq_true hab))
    refine hplaces.imp_of_mem fun {a b} ha hb hab => ?_
    have hle := (heavierOrEqual_iff_place (hnan a ha) (hnan b hb)).2 (of_decide_eq_true hab)
    simpa [heavierOrEqual] using hle
  stable k := by
    refine filter_stableSort fun a ha b hb hak hbk => ?_
    rw [heavierOrEqual_iff_place (hws a ha) (hws b hb), of_decide_eq_true hak,
      of_decide_eq_true hbk]

end IsSorted

/-! ### Canonical order -/

namespace Expr

/-- The second expression is the first one in canonical order. -/
inductive HasOrder : Expr → Expr → Prop
  | const (n : Number) : HasOrder (const n) (const n)
  | var (x : String) : HasOrder (var x) (var x)
  | chain {c : Chain} {l r : Expr} {ws ws' : List (BigFloat × Expr)} :
      List.Forall₂ HasOrder (c.operands (c.node l r)) (ws.map Prod.snd) →
      (∀ w ∈ ws, w.2.weight = .ok w.1) → IsSorted ws ws' →
      HasOrder (c.node l r) (c.build (ws'.map Prod.snd))
  | sub {l l' r r' : Expr} : HasOrder l l' → HasOrder r r' → HasOrder (sub l r) (sub l' r')
  | div {n n' d d' : Expr} : HasOrder n n' → HasOrder d d' → HasOrder (div n d) (div n' d')
  | pow {b b' p p' : Expr} : HasOrder b b' → HasOrder p p' → HasOrder (pow b p) (pow b' p')
  | log {b b' a a' : Expr} : HasOrder b b' → HasOrder a a' → HasOrder (log b a) (log b' a')
  | neg {e e' : Expr} : HasOrder e e' → HasOrder (neg e) (neg e')

/-- Induction on expressions where the hypothesis for a chain speaks of its operands. -/
@[elab_as_elim]
theorem inductOperands {motive : Expr → Prop}
    (const : ∀ n, motive (.const n))
    (var : ∀ x, motive (.var x))
    (chain : ∀ (c : Chain) (l r : Expr), (∀ x ∈ c.operands (c.node l r), motive x) →
      motive (c.node l r))
    (sub : ∀ l r, motive l → motive r → motive (.sub l r))
    (div : ∀ n d, motive n → motive d → motive (.div n d))
    (pow : ∀ b p, motive b → motive p → motive (.pow b p))
    (log : ∀ b a, motive b → motive a → motive (.log b a))
    (neg : ∀ e, motive e → motive (.neg e))
    (other : ∀ m k es, motive (.other m k es))
    (e : Expr) : motive e := by
  induction hn : e.rank using Nat.strong_induction_on generalizing e with
  | h n ih =>
    subst hn
    have ih (x : Expr) (hx : x.rank < e.rank) : motive x := ih x.rank hx x rfl
    cases e with
    | const n => exact const n
    | var x => exact var x
    | add l r => exact chain .sum l r fun x hx => ih x (Chain.rank_lt_of_mem_operands hx)
    | mul l r => exact chain .product l r fun x hx => ih x (Chain.rank_lt_of_mem_operands hx)
    | sub l r =>
      exact sub l r (ih l (by simp only [rank]; omega)) (ih r (by simp only [rank]; omega))
    | div n d =>
      exact div n d (ih n (by simp only [rank]; omega)) (ih d (by simp only [rank]; omega))
    | pow b p => exact pow b p (ih b (rank_base_lt_pow b p)) (ih p (rank_exponent_lt_pow b p))
    | log b a =>
      exact log b a (ih b (by simp only [rank]; omega)) (ih a (by simp only [rank]; omega))
    | neg e =>
      have hpos := e.two_le_rank
      exact neg e (ih e (by simp only [rank]; omega))
    | other m k es => exact other m k es

end Expr

open SymbolicAlgebra.Expr

variable {c : Chain} {e l r s : Expr} {ws : List (BigFloat × Expr)}

lemma isNaN_of_weighs {es : List Expr} (h : List.Forall₂ Weighs es ws) :
    ∀ w ∈ ws, w.1.isNaN = false :=
  forall_mem_of_forall₂ h fun _ _ hw => isNaN_weight hw.2

lemma order_binary_iff {f : Expr → Expr → Expr}
    (horder : order (f l r) = do return f (← order l) (← order r)) :
    order (f l r) = .ok s ↔ ∃ l' r', order l = .ok l' ∧ order r = .ok r' ∧ s = f l' r' := by
  simp only [horder, bind_eq_ok_iff, pure_eq_ok_iff]
  constructor
  · rintro ⟨l', hl, r', hr, rfl⟩
    exact ⟨l', r', hl, hr, rfl⟩
  · rintro ⟨l', r', hl, hr, rfl⟩
    exact ⟨l', hl, r', hr, rfl⟩

lemma order_neg_iff : order (.neg e) = .ok s ↔ ∃ e', order e = .ok e' ∧ s = .neg e' := by
  show (do return Expr.neg (← order e)) = .ok s ↔ _
  simp only [bind_eq_ok_iff, pure_eq_ok_iff, @eq_comm _ s]

lemma hasOrder_of_order (h : order e = .ok s) : e.HasOrder s := by
  induction e using inductOperands generalizing s with
  | const n =>
    obtain rfl := Except.ok.inj h
    exact .const n
  | var x =>
    obtain rfl := Except.ok.inj h
    exact .var x
  | chain c l r ih =>
    obtain ⟨ws, hws, rfl⟩ := order_node_iff.1 h
    refine .chain ?_ (forall_mem_of_forall₂ hws fun _ _ hw => hw.2)
      (.of_stableSort (isNaN_of_weighs hws))
    refine List.forall₂_map_right_iff.2
      (((List.forall₂_and_left _ _).2 ⟨fun x hx => @ih x hx, hws⟩).imp ?_)
    rintro x w ⟨hx, hw⟩
    exact hx hw.1
  | sub l r ihl ihr =>
    obtain ⟨l', r', hl, hr, rfl⟩ := (order_binary_iff rfl).1 h
    exact .sub (ihl hl) (ihr hr)
  | div n d ihn ihd =>
    obtain ⟨n', d', hn, hd, rfl⟩ := (order_binary_iff rfl).1 h
    exact .div (ihn hn) (ihd hd)
  | pow b p ihb ihp =>
    obtain ⟨b', p', hb, hp, rfl⟩ := (order_binary_iff rfl).1 h
    exact .pow (ihb hb) (ihp hp)
  | log b a ihb iha =>
    obtain ⟨b', a', hb, ha, rfl⟩ := (order_binary_iff rfl).1 h
    exact .log (ihb hb) (iha ha)
  | neg e ih =>
    obtain ⟨e', he, rfl⟩ := order_neg_iff.1 h
    exact .neg (ih he)
  | other m k es => cases h

lemma order_of_hasOrder (h : e.HasOrder s) : order e = .ok s := by
  induction hn : e.rank using Nat.strong_induction_on generalizing e s with
  | h n ih =>
    subst hn
    have ih {x y : Expr} (hlt : x.rank < e.rank) (hy : HasOrder x y) : order x = .ok y :=
      ih x.rank hlt hy rfl
    cases h with
    | const n => rfl
    | var x => rfl
    | @chain c l r ws ws' hes hws hsorted =>
      have hweighs : List.Forall₂ Weighs (c.operands (c.node l r)) ws := by
        have hboth :=
          (List.forall₂_and_left _ _).2 ⟨fun x hx => hx, List.forall₂_map_right_iff.1 hes⟩
        have hflip := (List.forall₂_and_left _ _).2 ⟨hws, hboth.flip⟩
        refine hflip.flip.imp ?_
        rintro x w ⟨hw, hx, hord⟩
        exact ⟨ih (Chain.rank_lt_of_mem_operands hx) hord, hw⟩
      have hnan := isNaN_of_weighs hweighs
      rw [order_node_iff, hsorted.unique hnan (.of_stableSort hnan)]
      exact ⟨ws, hweighs, rfl⟩
    | sub hl hr =>
      exact (order_binary_iff rfl).2 ⟨_, _, ih (by simp only [rank]; omega) hl,
        ih (by simp only [rank]; omega) hr, rfl⟩
    | div hn hd =>
      exact (order_binary_iff rfl).2 ⟨_, _, ih (by simp only [rank]; omega) hn,
        ih (by simp only [rank]; omega) hd, rfl⟩
    | pow hb hp =>
      exact (order_binary_iff rfl).2 ⟨_, _, ih (rank_base_lt_pow _ _) hb,
        ih (rank_exponent_lt_pow _ _) hp, rfl⟩
    | log hb ha =>
      exact (order_binary_iff rfl).2 ⟨_, _, ih (by simp only [rank]; omega) hb,
        ih (by simp only [rank]; omega) ha, rfl⟩
    | @neg x x' hx =>
      have hpos := x.two_le_rank
      exact order_neg_iff.2 ⟨_, ih (by simp only [rank]; omega) hx, rfl⟩

/-- The canonical order that an expression has is the one that `order` gives. -/
theorem order_eq_ok_iff : order e = .ok s ↔ e.HasOrder s :=
  ⟨hasOrder_of_order, order_of_hasOrder⟩

/-! ### Expressions in canonical order -/

lemma exists_weighs {es : List Expr} (h : List.Forall₂ Weighs es ws) :
    ∀ w ∈ ws, ∃ x ∈ es, Weighs x w := by
  have hmem := (List.forall₂_and_left _ _).2 ⟨fun x hx => hx, h⟩
  exact forall_mem_of_forall₂ hmem fun x w hw => ⟨x, hw.1, hw.2⟩

/-- Operands in order make a chain in order. -/
lemma buildSorted_of_isSorted {ws' : List (BigFloat × Expr)} (h : IsSorted ws ws') :
    c.buildSorted ws' = c.build (ws'.map Prod.snd) := by
  have hpairwise : ws'.Pairwise fun a b => heavierOrEqual a.1 b.1 :=
    h.descending.imp fun hlt => by simpa [heavierOrEqual] using hlt
  rw [Chain.buildSorted, stableSort_of_pairwise _ hpairwise]

/-- An expression in canonical order is left as it is. -/
lemma order_of_order (h : order e = .ok s) : order s = .ok s := by
  induction e using inductOperands generalizing s with
  | const n =>
    obtain rfl := Except.ok.inj h
    rfl
  | var x =>
    obtain rfl := Except.ok.inj h
    rfl
  | chain c l r ih =>
    obtain ⟨l', r', rfl⟩ := exists_node_of_order h
    obtain ⟨ws, hws, heq⟩ := order_node_iff.1 h
    have hsorted := IsSorted.of_stableSort (isNaN_of_weighs hws)
    rw [Chain.buildSorted] at heq
    generalize stableSort (fun a b => heavierOrEqual a.1 b.1) ws = ws' at hsorted heq
    -- an operand in order is one of its own, and has the weight that it was sorted by
    have hparts (w) (hw : w ∈ ws') : c.operands w.2 = [w.2] ∧ Weighs w.2 w := by
      obtain ⟨x, hx, hweighs⟩ := exists_weighs hws w (hsorted.perm.mem_iff.1 hw)
      have hleaf := operands_of_order hweighs.1 (Chain.operands_of_mem_operands hx)
      exact ⟨hleaf, ih x hx hweighs.1, hweighs.2⟩
    have hne : ws'.map Prod.snd ≠ [] := by
      intro hnil
      rw [hnil] at heq
      cases c <;> cases heq
    have hops : c.operands (c.node l' r') = ws'.map Prod.snd := by
      rw [heq, Chain.operands_build _ hne, Chain.flatMap_operands]
      exact List.forall_mem_map.2 fun w hw => (hparts w hw).1
    refine order_node_iff.2 ⟨ws', ?_, by rw [buildSorted_of_isSorted hsorted, heq]⟩
    rw [hops, List.forall₂_map_left_iff, List.forall₂_same]
    exact fun w hw => (hparts w hw).2
  | sub l r ihl ihr =>
    obtain ⟨l', r', hl, hr, rfl⟩ := (order_binary_iff rfl).1 h
    exact (order_binary_iff rfl).2 ⟨l', r', ihl hl, ihr hr, rfl⟩
  | div n d ihn ihd =>
    obtain ⟨n', d', hn, hd, rfl⟩ := (order_binary_iff rfl).1 h
    exact (order_binary_iff rfl).2 ⟨n', d', ihn hn, ihd hd, rfl⟩
  | pow b p ihb ihp =>
    obtain ⟨b', p', hb, hp, rfl⟩ := (order_binary_iff rfl).1 h
    exact (order_binary_iff rfl).2 ⟨b', p', ihb hb, ihp hp, rfl⟩
  | log b a ihb iha =>
    obtain ⟨b', a', hb, ha, rfl⟩ := (order_binary_iff rfl).1 h
    exact (order_binary_iff rfl).2 ⟨b', a', ihb hb, iha ha, rfl⟩
  | neg e ih =>
    obtain ⟨e', he, rfl⟩ := order_neg_iff.1 h
    exact order_neg_iff.2 ⟨e', ih he, rfl⟩
  | other m k es => cases h

/-! ### What is kept -/

/-- What the parts of expressions stand for in a domain where sums and products may be regrouped and
their operands exchanged. Nothing is asked of the other operations. -/
structure Interpretation (α : Type) where
  const : Number → α
  var : String → α
  node : Chain → α → α → α
  sub : α → α → α
  div : α → α → α
  pow : α → α → α
  log : α → α → α
  neg : α → α
  other : Mark → String → List Expr → α
  comm : ∀ c x y, node c x y = node c y x
  assoc : ∀ c x y z, node c (node c x y) z = node c x (node c y z)

namespace Expr

variable {α : Type}

/-- What an expression stands for. -/
def meaning (I : Interpretation α) : Expr → α
  | const c => I.const c
  | var x => I.var x
  | add l r => I.node .sum (l.meaning I) (r.meaning I)
  | sub l r => I.sub (l.meaning I) (r.meaning I)
  | mul l r => I.node .product (l.meaning I) (r.meaning I)
  | div n d => I.div (n.meaning I) (d.meaning I)
  | pow b p => I.pow (b.meaning I) (p.meaning I)
  | log b a => I.log (b.meaning I) (a.meaning I)
  | neg e => I.neg (e.meaning I)
  | other m k es => I.other m k es

lemma meaning_node (I : Interpretation α) (c : Chain) (l r : Expr) :
    (c.node l r).meaning I = I.node c (l.meaning I) (r.meaning I) := by
  cases c <;> rfl

/-- A reordering means the same. -/
lemma Reordered.meaning_eq {e e' : Expr} (h : e.Reordered e') (I : Interpretation α) :
    e.meaning I = e'.meaning I := by
  induction h with
  | refl e => rfl
  | symm _ ih => exact ih.symm
  | trans _ _ ih ih' => exact ih.trans ih'
  | comm c l r => simp only [meaning_node, I.comm c (l.meaning I)]
  | assoc c e₁ e₂ e₃ => simp only [meaning_node, I.assoc]
  | node c _ _ ihl ihr => simp only [meaning_node, ihl, ihr]
  | neg _ ih => simp only [meaning, ih]
  | _ => simp_all only [meaning]

end Expr

/-- To order an expression is to sort the operands of its chains by weight, and nothing else. It
keeps the meaning and the number of occurrences of every variable, and what is in order is left as
it is. -/
theorem order_sorts (h : order e = .ok s) :
    e.HasOrder s ∧ (∀ ν, s.value ν = e.value ν) ∧
      (∀ (α : Type) (I : Interpretation α), s.meaning I = e.meaning I) ∧
      (∀ x, s.countOccurrences x = e.countOccurrences x) ∧ order s = .ok s := by
  have hreordered := reordered_order h
  refine ⟨hasOrder_of_order h, fun ν => ?_, fun α I => ?_, fun x => ?_, order_of_order h⟩
  · exact (hreordered.value_eq ν).symm
  · exact (hreordered.meaning_eq I).symm
  · exact hreordered.countOccurrences_eq.symm

/-- In `2 * x + (5 + 3 * P)` the terms `2 * x` and `3 * P` have one weight. -/
theorem order_sorts_equal_weights :
    let e : Expr := .add (.mul (.const 2) (.var "x")) (.add (.const 5) (.mul (.const 3) (.var "P")))
    let s : Expr := .add (.mul (.var "x") (.const 2)) (.add (.mul (.var "P") (.const 3)) (.const 5))
    order e = .ok s ∧
      (e.HasOrder s ∧ (∀ ν, s.value ν = e.value ν) ∧
        (∀ (α : Type) (I : Interpretation α), s.meaning I = e.meaning I) ∧
        (∀ x, s.countOccurrences x = e.countOccurrences x) ∧ order s = .ok s) := by
  intro e s
  have h : order e = .ok s := by decide +kernel
  exact ⟨h, order_sorts h⟩

end SymbolicAlgebra
