import SymbolicAlgebra.Proofs.Affine
import SymbolicAlgebra.Proofs.Soundness.Sum
import SymbolicAlgebra.Simplify.Termination.Product

/-!
# Simplification of affine expressions

Where the variable occurs once at most, an affine expression is simplified to a constant if its
slope is zero, and to a line otherwise, with the slope and the intercept that it has
(`step_affine`). The height does not grow on the way. So nothing but the length of a numeral keeps
the simplification from it (`simplify_affine`).
-/

namespace SymbolicAlgebra

open Simplify Bounded

variable {x : String} {c : Chain} {e l r : Expr} {es es' pre post : List Expr}
variable {a b a' b' k p q : Rat} {H : Nat} {simp : Expr → Bounded Expr}

/-! ### Operands -/

namespace Chain

/-- What a constant beside an operand does to its slope. -/
def scale : Chain → Rat → Rat → Rat
  | sum, _, a => a
  | product, k, a => k * a

lemma scale_zero (c : Chain) (k : Rat) : c.scale k 0 = 0 := by
  cases c
  · rfl
  · exact mul_zero k

lemma scale_op (c : Chain) (p q a : Rat) : c.scale (c.op p q) a = c.scale p (c.scale q a) := by
  cases c
  · rfl
  · exact mul_assoc p q a

lemma scale_unit (c : Chain) (a : Rat) : c.scale c.unit a = a := by
  cases c
  · rfl
  · exact one_mul a

/-- What an operand contributes to the height of its chain. -/
def extent (c : Chain) (e : Expr) : Nat :=
  c.stretch * e.height

/-- What operands contribute to the height of their chain. -/
def span (c : Chain) (es : List Expr) : Nat :=
  (es.map c.extent).prod

lemma span_append (c : Chain) (es es' : List Expr) :
    c.span (es ++ es') = c.span es * c.span es' := by
  rw [span, List.map_append, List.prod_append, span, span]

lemma span_cons (c : Chain) (e : Expr) (es : List Expr) :
    c.span (e :: es) = c.extent e * c.span es := by
  rw [span, List.map_cons, List.prod_cons, span]

lemma extent_node (c : Chain) (l r : Expr) : c.extent (c.node l r) = c.extent l * c.extent r := by
  rw [extent, extent, extent, Expr.height_node]
  ring

lemma span_operands (c : Chain) (e : Expr) : c.span (c.operands e) = c.extent e := by
  induction e using Chain.induct c with
  | node l r ihl ihr => rw [operands_node, span_append, ihl, ihr, extent_node]
  | leaf e hops => rw [hops, span, List.map_singleton, List.prod_singleton]

/-- What a constant contributes; one that changes nothing is left out. -/
def constantExtent (c : Chain) (q : Rat) : Nat :=
  if q = c.unit then 1 else c.stretch * magnitude q

lemma constantExtent_unit (c : Chain) : c.constantExtent c.unit = 1 :=
  if_pos rfl

lemma constantExtent_of_ne (h : q ≠ c.unit) : c.constantExtent q = c.stretch * magnitude q :=
  if_neg h

lemma magnitude_unit (c : Chain) : magnitude c.unit = 1 := by
  cases c <;> rfl

lemma magnitude_op_le (c : Chain) (p q : Rat) :
    magnitude (c.op p q) ≤ c.stretch * (magnitude p * magnitude q) := by
  cases c
  · exact magnitude_add_le p q
  · exact (magnitude_mul_le p q).trans (Nat.le_of_eq (Nat.one_mul _).symm)

lemma constantExtent_le (c : Chain) (q : Rat) : c.constantExtent q ≤ c.stretch * magnitude q := by
  rw [constantExtent]
  split
  · exact Nat.mul_le_mul c.one_le_stretch (one_le_magnitude q)
  · exact Nat.le_refl _

lemma constantExtent_product (q : Rat) : product.constantExtent q = magnitude q := by
  by_cases hq : q = product.unit
  · rw [hq, constantExtent_unit, magnitude_unit]
  · exact (constantExtent_of_ne hq).trans (Nat.one_mul _)

lemma one_le_constantExtent (c : Chain) (q : Rat) : 1 ≤ c.constantExtent q := by
  rw [constantExtent]
  split
  · exact Nat.le_refl 1
  · exact Nat.mul_le_mul c.one_le_stretch (one_le_magnitude q)

lemma constantExtent_op_le (c : Chain) (p q : Rat) :
    c.constantExtent (c.op p q) ≤ c.constantExtent p * c.constantExtent q := by
  by_cases hp : p = c.unit
  · rw [hp, unit_op, constantExtent_unit, Nat.one_mul]
  by_cases hq : q = c.unit
  · rw [hq, op_unit, constantExtent_unit, Nat.mul_one]
  calc c.constantExtent (c.op p q)
      ≤ c.stretch * magnitude (c.op p q) := c.constantExtent_le _
    _ ≤ c.stretch * (c.stretch * (magnitude p * magnitude q)) :=
        Nat.mul_le_mul_left _ (c.magnitude_op_le p q)
    _ = c.constantExtent p * c.constantExtent q := by
        rw [constantExtent_of_ne hp, constantExtent_of_ne hq]
        ring

/-- A constant that contributes no more than an expression is no higher. -/
lemma magnitude_le_of_constantExtent_le (h : c.constantExtent q ≤ c.extent e) :
    magnitude q ≤ e.height := by
  rw [constantExtent] at h
  split at h
  · next hq =>
    rw [hq, magnitude_unit]
    exact e.one_le_height
  · exact Nat.le_of_mul_le_mul_left h c.one_le_stretch

end Chain

lemma AreWorth.constantExtent_le (h : AreWorth c es q) : c.constantExtent q ≤ c.span es := by
  induction h with
  | nil =>
    rw [Chain.constantExtent_unit]
    exact Nat.le_refl 1
  | @cons d es y z hd _ ih =>
    rw [Chain.span_cons, Chain.extent, Expr.height_const hd]
    exact (c.constantExtent_op_le y z).trans (Nat.mul_le_mul (c.constantExtent_le y) ih)

/-- Operands of a chain among which is one line, and constants for the rest. -/
inductive HasLine (c : Chain) (x : String) : List Expr → (a b : Rat) → Prop where
  | intro {pre post : List Expr} {e : Expr} {p q a b : Rat} (hpre : AreWorth c pre p)
      (he : IsLine x e a b) (hpost : AreWorth c post q) :
      HasLine c x (pre ++ e :: post) (c.scale (c.op p q) a) (c.op (c.op p q) b)

lemma HasLine.congr (h : HasLine c x es a b) (ha : a = a') (hb : b = b') :
    HasLine c x es a' b' := by
  rw [← ha, ← hb]
  exact h

lemma IsLine.hasLine_singleton (h : IsLine x e a b) (c : Chain) : HasLine c x [e] a b := by
  refine (HasLine.intro (.nil (c := c)) h .nil).congr ?_ ?_
  · rw [Chain.op_unit, Chain.scale_unit]
  · rw [Chain.op_unit, Chain.unit_op]

lemma HasLine.append_left (hk : AreWorth c es k) (h : HasLine c x es' a b) :
    HasLine c x (es ++ es') (c.scale k a) (c.op k b) := by
  obtain ⟨hpre, he, hpost⟩ := h
  rw [← List.append_assoc]
  refine (HasLine.intro (hk.append hpre) he hpost).congr ?_ ?_
  · rw [c.op_assoc, c.scale_op]
  · rw [c.op_assoc, c.op_assoc, c.op_assoc]

lemma HasLine.append_right (h : HasLine c x es a b) (hk : AreWorth c es' k) :
    HasLine c x (es ++ es') (c.scale k a) (c.op b k) := by
  obtain @⟨pre, post, e, p, q, a, b, hpre, he, hpost⟩ := h
  rw [List.append_assoc, List.cons_append]
  refine (HasLine.intro hpre he (hpost.append hk)).congr ?_ ?_
  · rw [← c.op_assoc, c.op_comm _ k, c.scale_op]
  · rw [c.op_assoc, c.op_assoc, c.op_assoc, c.op_assoc, c.op_comm k b]

/-- A line is taken apart into constants and one line. -/
lemma IsLine.hasLine (h : IsLine x e a b) (c : Chain) : HasLine c x (c.operands e) a b := by
  induction h with
  | @add d e k a b hd he ih =>
    cases c with
    | sum =>
      have hk : AreWorth .sum [Expr.const d] k := (IsValue.areWorth ⟨d, rfl, hd⟩ .sum)
      exact .append_left hk ih
    | product => exact (IsLine.add hd he).hasLine_singleton .product
  | @mul d e k a b hd hk he ih =>
    cases c with
    | sum => exact (IsLine.mul hd hk he).hasLine_singleton .sum
    | product =>
      have hk : AreWorth .product [Expr.const d] k := (IsValue.areWorth ⟨d, rfl, hd⟩ .product)
      exact .append_left hk ih
  | var => cases c <;> exact IsLine.var.hasLine_singleton _
  | neg he => cases c <;> exact (IsLine.neg he).hasLine_singleton _
  | div hd hk he => cases c <;> exact (IsLine.div hd hk he).hasLine_singleton _

/-- The constants beside a line contribute what is left of the height. -/
lemma constantExtent_mul_extent_le (hpre : AreWorth c pre p) (hpost : AreWorth c post q) :
    c.constantExtent (c.op p q) * c.extent e ≤ c.span (pre ++ e :: post) := by
  rw [Chain.span_append, Chain.span_cons]
  calc c.constantExtent (c.op p q) * c.extent e
      ≤ c.span pre * c.span post * c.extent e :=
        Nat.mul_le_mul_right _ ((c.constantExtent_op_le p q).trans
          (Nat.mul_le_mul hpre.constantExtent_le hpost.constantExtent_le))
    _ = c.span pre * (c.extent e * c.span post) := by ring

lemma height_le_of_constantExtent_mul_le {n : Nat}
    (h : c.constantExtent k * c.extent e ≤ c.stretch * n) : e.height ≤ n := by
  have hone : c.extent e ≤ c.stretch * n :=
    (Nat.le_mul_of_pos_left _ (c.one_le_constantExtent k)).trans h
  exact Nat.le_of_mul_le_mul_left hone c.one_le_stretch

/-- What the simplified operands of an affine expression are. -/
def AreSimplified (c : Chain) (x : String) (e : Expr) (a b : Rat) (es : List Expr) : Prop :=
  ((a = 0 ∧ AreWorth c es b) ∨ (0 < e.countOccurrences x ∧ HasLine c x es a b)) ∧
    c.span es ≤ c.extent e

/-- The parts of a step of a chain; one of them is free of the variable. -/
lemma IsAffine.exists_parts (h : IsAffine x (c.node l r) a b)
    (hcount : (c.node l r).countOccurrences x ≤ 1) : ∃ al bl ar br, IsAffine x l al bl ∧
      IsAffine x r ar br ∧ b = c.op bl br ∧
        ((l.countOccurrences x = 0 ∧ a = c.scale bl ar) ∨
          (r.countOccurrences x = 0 ∧ a = c.scale br al)) := by
  rw [Chain.countOccurrences_node] at hcount
  cases c with
  | sum =>
    cases h with
    | @add l r al bl ar br hl hr =>
      refine ⟨al, bl, ar, br, hl, hr, rfl, ?_⟩
      by_cases hx : l.countOccurrences x = 0
      · exact .inl ⟨hx, by rw [hl.slope_eq_zero hx, zero_add]; rfl⟩
      · have hx : r.countOccurrences x = 0 := by omega
        exact .inr ⟨hx, by rw [hr.slope_eq_zero hx, add_zero]; rfl⟩
  | product =>
    cases h with
    | mulLeft hl hfree hr => exact ⟨_, _, _, _, hl, hr, rfl, .inl ⟨hfree, rfl⟩⟩
    | mulRight hl hr hfree => exact ⟨_, _, _, _, hl, hr, rfl, .inr ⟨hfree, rfl⟩⟩

lemma AreSimplified.areWorth (h : AreSimplified c x e a b es) (hx : e.countOccurrences x = 0) :
    AreWorth c es b := by
  rcases h.1 with ⟨-, hes⟩ | ⟨hpos, -⟩
  · exact hes
  · exact absurd hx (Nat.ne_of_gt hpos)

/-- The operands of both parts of a step of a chain. -/
lemma AreSimplified.append {al bl ar br : Rat} (hl : AreSimplified c x l al bl es)
    (hr : AreSimplified c x r ar br es') (hslope : (l.countOccurrences x = 0 ∧ a = c.scale bl ar) ∨
      (r.countOccurrences x = 0 ∧ a = c.scale br al)) :
    AreSimplified c x (c.node l r) a (c.op bl br) (es ++ es') := by
  refine ⟨?_, ?_⟩
  · rw [Chain.countOccurrences_node]
    rcases hslope with ⟨hx, rfl⟩ | ⟨hx, rfl⟩
    · have hes := hl.areWorth hx
      rcases hr.1 with ⟨rfl, hes'⟩ | ⟨hpos, hes'⟩
      · exact .inl ⟨c.scale_zero bl, hes.append hes'⟩
      · exact .inr ⟨by omega, .append_left hes hes'⟩
    · have hes' := hr.areWorth hx
      rcases hl.1 with ⟨rfl, hes⟩ | ⟨hpos, hes⟩
      · exact .inl ⟨c.scale_zero br, hes.append hes'⟩
      · exact .inr ⟨by omega, hes.append_right hes'⟩
  · rw [Chain.span_append, Chain.extent_node]
    exact Nat.mul_le_mul hl.2 hr.2

namespace Simplify

/-- A simplifier that does with affine expressions up to some height what it should. -/
def SimplifiesAffine (x : String) (H : Nat) (simp : Expr → Bounded Expr) : Prop :=
  ∀ e a b, IsAffine x e a b → e.countOccurrences x ≤ 1 → e.height ≤ H →
    (simp e).Ensures (fun r => IsSimplified x a b r ∧ r.height ≤ e.height) (IsTooLong H)

lemma operands_node_eq (simp : Expr → Bounded Expr) (c : Chain) (l r : Expr) :
    operands simp c (c.node l r) = do return (← operands simp c l) ++ (← operands simp c r) := by
  cases c <;> rfl

lemma operands_leaf_eq (simp : Expr → Bounded Expr) (h : c.operands e = [e]) :
    operands simp c e = do return c.operands (← simp e) := by
  cases e with
  | add l r =>
    cases c with
    | sum => exact absurd h (Chain.sum.operands_node_ne l r _)
    | product => rfl
  | mul l r =>
    cases c with
    | sum => rfl
    | product => exact absurd h (Chain.product.operands_node_ne l r _)
  | _ => cases c <;> rfl

lemma ensures_of_renders {α : Type} {P : α → Prop} {y : Except Error α} (hy : Renders H y)
    (h : ∀ v, y = .ok v → P v) : (ofExcept y).Ensures P (IsTooLong H) :=
  ensures_ofExcept h hy

lemma operands_affine (h : SimplifiesAffine x H simp) (c : Chain) (he : IsAffine x e a b)
    (hcount : e.countOccurrences x ≤ 1) (hH : e.height ≤ H) :
    (operands simp c e).Ensures (AreSimplified c x e a b) (IsTooLong H) := by
  induction e using Chain.induct c generalizing a b with
  | node l r ihl ihr =>
    obtain ⟨al, bl, ar, br, hl, hr, rfl, hslope⟩ := he.exists_parts hcount
    obtain ⟨hlel, hler⟩ := Expr.height_node_parts_le c l r
    rw [Chain.countOccurrences_node] at hcount
    rw [operands_node_eq]
    refine (ihl hl (by omega) (hlel.trans hH)).bind fun es hes => ?_
    refine (ihr hr (by omega) (hler.trans hH)).bind fun es' hes' => ?_
    exact ensures_pure (hes.append hes' hslope)
  | leaf e hops =>
    rw [operands_leaf_eq simp hops]
    refine (h e a b he hcount hH).bind fun r hr => ensures_pure ⟨?_, ?_⟩
    · rcases hr.1 with ⟨ha, hv⟩ | hline
      · exact .inl ⟨ha, hv.areWorth c⟩
      · have hpos : e.countOccurrences x ≠ 0 := fun hx =>
          hline.slope_ne_zero (he.slope_eq_zero hx)
        exact .inr ⟨Nat.pos_of_ne_zero hpos, hline.hasLine c⟩
    · rw [Chain.span_operands]
      exact Nat.mul_le_mul_left _ hr.2

/-! ### Sums -/

lemma not_const_of_isLine (he : IsLine x e a b) (d : Number) : e ≠ .const d := by
  rintro rfl
  cases he

lemma add_of_isLine (op : Number → Number → Number) (he : IsLine x e a b) (g : Gathered) :
    g.add op e = { g with operands := g.operands ++ [e] } := by
  cases he <;> rfl

/-- A line in a sum is a multiple of another one. -/
lemma splitCoefficient_of_isLine (he : IsLine x e a b) :
    ∃ q a' b', (splitCoefficient e).2.exactValue? = some q ∧ q ≠ 0 ∧
      IsLine x (splitCoefficient e).1 a' b' ∧ a = q * a' ∧ b = q * b' ∧
        magnitude q * (splitCoefficient e).1.height = e.height := by
  cases he with
  | var => exact ⟨1, 1, 0, rfl, one_ne_zero, .var, by ring, by ring, rfl⟩
  | @neg e a b he =>
    exact ⟨-1, a, b, rfl, by norm_num, he, by ring, by ring, Nat.one_mul _⟩
  | @add d e k a b hd he =>
    exact ⟨1, a, k + b, rfl, one_ne_zero, .add hd he, by ring, by ring, Nat.one_mul _⟩
  | @mul d e k a b hd hk he =>
    refine ⟨k, a, b, hd, hk, he, rfl, rfl, ?_⟩
    rw [Expr.height, Expr.height_const hd]
    rfl
  | @div d e k a b hd hk he =>
    exact ⟨1, a / k, b / k, rfl, one_ne_zero, .div hd hk he, by ring, by ring, Nat.one_mul _⟩

lemma foldlM_add_of_isLine (hpre : AreWorth .sum pre p) (he : IsLine x e a b)
    (hpost : AreWorth .sum post q) : ∃ k, k.exactValue? = some (p + q) ∧
      (pre ++ e :: post).foldlM CollectedSum.add ⟨0, []⟩ = do
        let key ← (splitCoefficient e).1.likeKey
        return ⟨k, [⟨key, (splitCoefficient e).1, 0 + (splitCoefficient e).2⟩]⟩ := by
  obtain ⟨m, hm, hfold⟩ := exists_foldlM_add_eq hpre
  obtain ⟨k, hk, hfold'⟩ := foldlM_add_of_areWorth hpost hm
  refine ⟨k, hk, ?_⟩
  have hadd : CollectedSum.add ⟨m, []⟩ e = CollectedSum.addTerm ⟨m, []⟩ e := by
    cases he <;> rfl
  rw [List.foldlM_append, hfold]
  show (e :: post).foldlM CollectedSum.add ⟨m, []⟩ = _
  rw [List.foldlM_cons, hadd, CollectedSum.addTerm, bind_assoc]
  exact bind_congr fun key => hfold' _

lemma toTerm_affine (h : SimplifiesAffine x H simp) (he : IsLine x e a b) (hH : e.height ≤ H)
    (key : Expr) : (LikeTerms.toTerm simp
      ⟨key, (splitCoefficient e).1, 0 + (splitCoefficient e).2⟩).Ensures
        (fun r => IsLine x r a b ∧ r.height ≤ e.height) (IsTooLong H) := by
  obtain ⟨q, a', b', hq, hq0, hline, rfl, rfl, hheight⟩ := splitCoefficient_of_isLine he
  have hcoefficient := Number.exactValue?_zero_add hq
  rw [LikeTerms.toTerm]
  split
  · next hone =>
    obtain rfl := (Number.isOne_iff hcoefficient).1 hone
    rw [magnitude_one, Nat.one_mul] at hheight
    exact ensures_pure ⟨hline.congr (one_mul a').symm (one_mul b').symm, Nat.le_of_eq hheight⟩
  · have hmul :=
      IsAffine.mulLeft (x := x) (.const hcoefficient) (Expr.countOccurrences_const _) hline.isAffine
    have hcount : (Expr.mul (.const (0 + (splitCoefficient e).2))
        (splitCoefficient e).1).countOccurrences x ≤ 1 := by
      rw [Expr.countOccurrences_mul, Expr.countOccurrences_const, hline.count_eq_one]
    have hle : (Expr.mul (.const (0 + (splitCoefficient e).2)) (splitCoefficient e).1).height =
        e.height := by
      rw [Expr.height, Expr.height_const hcoefficient, hheight]
    refine (h _ _ _ hmul hcount (hle ▸ hH)).mono fun r hr => ⟨?_, hle ▸ hr.2⟩
    exact hr.1.resolve_left fun hzero => mul_ne_zero hq0 hline.slope_ne_zero hzero.1

lemma toSum_of_isLine {d : Number} (hd : d.exactValue? = some k) (he : IsLine x e a b) :
    IsLine x (Gathered.toSum ⟨d, [e]⟩) a (k + b) ∧
      2 * (Gathered.toSum ⟨d, [e]⟩).height ≤ Chain.sum.constantExtent k * Chain.sum.extent e := by
  rw [Gathered.toSum]
  split
  · next hnil => cases hnil
  split
  · next hz =>
    obtain rfl := (Number.isZero_iff hd).1 hz
    have hunit : Chain.sum.constantExtent 0 = 1 := Chain.sum.constantExtent_unit
    rw [hunit, Nat.one_mul]
    exact ⟨he.congr rfl (zero_add b).symm, Nat.le_refl _⟩
  · next hz =>
    have hk : k ≠ Chain.sum.unit := fun hk => hz ((Number.isZero_iff hd).2 hk)
    refine ⟨.add hd he, ?_⟩
    show 2 * (2 * ((Expr.const d).height * e.height)) ≤ _
    rw [Expr.height_const hd, Chain.constantExtent_of_ne hk]
    refine Nat.le_of_eq ?_
    simp only [Chain.extent, Chain.stretch]
    ring

lemma gatherTerms_affine (h : SimplifiesAffine x H simp) (he : IsLine x e a b) (hH : e.height ≤ H)
    (key : Expr) (d : Number) : (gatherTerms simp
      [⟨key, (splitCoefficient e).1, 0 + (splitCoefficient e).2⟩] ⟨d, []⟩).Ensures
        (fun g => ∃ r, g = ⟨d, [r]⟩ ∧ IsLine x r a b ∧ r.height ≤ e.height) (IsTooLong H) := by
  obtain ⟨q, a', b', hq, hq0, -⟩ := splitCoefficient_of_isLine he
  have hcoefficient := Number.exactValue?_zero_add hq
  have hz : ¬(0 + (splitCoefficient e).2).isZero := by
    rw [Number.isZero_iff hcoefficient]
    exact hq0
  rw [gatherTerms, if_neg hz]
  refine (toTerm_affine h he hH key).bind fun r hr => ensures_pure ⟨r, ?_, hr⟩
  exact add_of_isLine _ hr.1 _

/-- The sum of simplified operands. -/
lemma sum_affine (h : SimplifiesAffine x H simp) (he : IsAffine x (.add l r) a b)
    (hcount : (Expr.add l r).countOccurrences x ≤ 1) (hH : (Expr.add l r).height ≤ H) :
    (sum simp l r).Ensures (fun m => IsSimplified x a b m ∧ m.height ≤ (Expr.add l r).height)
      (IsTooLong H) := by
  refine (operands_affine h .sum he hcount hH).bind fun es hes => ?_
  obtain ⟨⟨rfl, hes⟩ | ⟨-, hes⟩, hspan⟩ := hes
  · have hle := Chain.magnitude_le_of_constantExtent_le (hes.constantExtent_le.trans hspan)
    obtain ⟨k, hk, hfold⟩ := exists_foldlM_add_eq hes
    rw [hfold]
    exact ensures_pure ⟨.inl ⟨rfl, k, rfl, hk⟩, (Expr.height_const hk).trans_le hle⟩
  · obtain @⟨pre, post, e, p, q, a, b, hpre, hline, hpost⟩ := hes
    have hspan := (constantExtent_mul_extent_le (e := e) hpre hpost).trans hspan
    have hle := (height_le_of_constantExtent_mul_le hspan).trans hH
    obtain ⟨k, hk, hfold⟩ := foldlM_add_of_isLine hpre hline hpost
    obtain ⟨m, a', b', -, -, hterm, -, -, hheight⟩ := splitCoefficient_of_isLine hline
    have hterm_le : (splitCoefficient e).1.height ≤ H :=
      (Nat.le_mul_of_pos_left _ (one_le_magnitude m)).trans (hheight.trans_le hle)
    have hkey := Expr.renders_likeKey hterm.isAffine.isExact hterm_le
    rw [hfold]
    refine Ensures.bind (P := fun s => ∃ key, s =
        ⟨k, [⟨key, (splitCoefficient e).1, 0 + (splitCoefficient e).2⟩]⟩)
      (ensures_of_renders (hkey.bind fun _ _ => renders_ok _) ?_) ?_
    · intro s hs
      obtain ⟨key, -, hs⟩ := bind_eq_ok_iff.1 hs
      exact ⟨key, (pure_eq_ok_iff.1 hs).symm⟩
    · rintro _ ⟨key, rfl⟩
      refine (gatherTerms_affine h hline hle key k).bind ?_
      rintro _ ⟨r, rfl, hr, hrle⟩
      obtain ⟨hsum, hsumle⟩ := toSum_of_isLine hk hr
      refine ensures_pure ⟨.inr hsum, ?_⟩
      have hextent := Nat.mul_le_mul_left (Chain.sum.constantExtent (p + q))
        (Nat.mul_le_mul_left 2 hrle)
      exact Nat.le_of_mul_le_mul_left (hsumle.trans (hextent.trans hspan)) Nat.two_pos

/-! ### Products -/

lemma toProduct_of_isLine {d : Number} (hd : d.exactValue? = some k) (hk : k ≠ 0)
    (he : IsLine x e a b) : IsLine x (Gathered.toProduct ⟨d, [e]⟩) (k * a) (k * b) ∧
      (Gathered.toProduct ⟨d, [e]⟩).height ≤ magnitude k * e.height := by
  have hz : ¬d.isZero := by
    rw [Number.isZero_iff hd]
    exact hk
  rw [Gathered.toProduct, if_neg hz]
  show IsLine x (if _ then _ else _) _ _ ∧ (if _ then _ else _ : Expr).height ≤ _
  split
  · next hneg =>
    simp only [Bool.and_eq_true] at hneg
    obtain rfl := (Number.beq_iff hd (Number.exactValue?_integer (-1))).1 hneg.1.1
    refine ⟨he.neg.congr (by simp) (by simp), Nat.le_of_eq ?_⟩
    exact (Nat.one_mul _).symm
  split
  · next hone =>
    obtain rfl := (Number.isOne_iff hd).1 hone
    exact ⟨he.congr (one_mul a).symm (one_mul b).symm, Nat.le_of_eq (Nat.one_mul _).symm⟩
  · refine ⟨.mul hd hk he, ?_⟩
    show (Expr.const d).height * e.height ≤ _
    rw [Expr.height_const hd]

/-- A line is a factor by itself, up to its sign. -/
lemma collectFactors_cons_of_isLine {d : Number} (hd : d.exactValue? = some k)
    (he : IsLine x e a b) (post : List Expr) : ∃ u d' σ, (σ = 1 ∨ σ = -1) ∧
      d'.exactValue? = some (k * σ) ∧ IsLine x u (σ * a) (σ * b) ∧ u.height = e.height ∧
        collectFactors (e :: post) ⟨d, []⟩ = (do
          let key ← u.likeKey
          collectFactors post ⟨d', [⟨key, u, [.const 1]⟩]⟩) := by
  have hadd {u : Expr} {a b : Rat} (hu : IsLine x u a b) (d : Number) :
      (CollectedProduct.addFactor ⟨d, []⟩ u >>= fun s => collectFactors post s) = (do
        let key ← u.likeKey
        collectFactors post ⟨d, [⟨key, u, [.const 1]⟩]⟩) := by
    have hsplit : splitExponent u = (u, .const 1) := by cases hu <;> rfl
    rw [CollectedProduct.addFactor, hsplit, bind_assoc]
    rfl
  by_cases hneg : ∃ u, e = .neg u
  · obtain ⟨u, rfl⟩ := hneg
    cases he with
    | neg hu =>
      refine ⟨u, -d, -1, .inr rfl, ?_, hu.congr (by ring) (by ring), rfl, hadd hu (-d)⟩
      rw [Number.exactValue?_neg hd, mul_neg_one]
  · have hcons : collectFactors (e :: post) ⟨d, []⟩ =
        (CollectedProduct.addFactor ⟨d, []⟩ e >>= fun s => collectFactors post s) :=
      collectFactors_cons post _ (not_const_of_isLine he) fun u hu => hneg ⟨u, hu⟩
    refine ⟨e, d, 1, .inl rfl, ?_, he.congr (by ring) (by ring), rfl, hcons.trans (hadd he d)⟩
    rw [hd, mul_one]

/-- What is collected from constants and one line. -/
lemma collectFactors_affine (hpre : AreWorth .product pre p) (he : IsLine x e a b)
    (hpost : AreWorth .product post q) (hH : e.height ≤ H) :
    (ofExcept (collectFactors (pre ++ e :: post) ⟨1, []⟩)).Ensures
      (fun out => (p * q = 0 ∧ ∃ k, out = .zero k ∧ k.exactValue? = some 0) ∨
        (p * q ≠ 0 ∧ ∃ key u k σ, out = .collected ⟨k, [⟨key, u, [.const 1]⟩]⟩ ∧
          (σ = 1 ∨ σ = -1) ∧ k.exactValue? = some (p * q * σ) ∧ IsLine x u (σ * a) (σ * b) ∧
            u.height = e.height)) (IsTooLong H) := by
  rcases collectFactors_append hpre (Number.exactValue?_ofNat 1) with
    ⟨rfl, k, hk, hout⟩ | ⟨hp, d, hd, hout⟩
  · rw [hout]
    exact ensures_pure (.inl ⟨zero_mul q, k, rfl, hk⟩)
  · rw [Nat.cast_one, one_mul] at hd
    obtain ⟨u, d', σ, hσ, hd', hu, hheight, hcons⟩ := collectFactors_cons_of_isLine hd he post
    have hkey := Expr.renders_likeKey hu.isAffine.isExact (hheight.trans_le hH)
    have hrest := collectFactors_append hpost hd'
    rw [hout, hcons]
    rcases hrest with ⟨rfl, k, hk, hrest⟩ | ⟨hq, k, hk, hrest⟩
    · have hzero (fs : List LikeFactors) : collectFactors post ⟨d', fs⟩ = .ok (.zero k) := by
        rw [← hrest fs [], List.append_nil]
      simp only [hzero]
      refine ensures_of_renders (hkey.bind fun _ _ => renders_ok _) fun out hout => ?_
      obtain ⟨key, -, hout⟩ := bind_eq_ok_iff.1 hout
      exact .inl ⟨mul_zero p, k, (Except.ok.inj hout).symm, hk⟩
    · have hcollected (fs : List LikeFactors) :
          collectFactors post ⟨d', fs⟩ = .ok (.collected ⟨k, fs⟩) := by
        rw [← List.append_nil post, hrest]
        rfl
      simp only [hcollected]
      refine ensures_of_renders (hkey.bind fun _ _ => renders_ok _) fun out hout => ?_
      obtain ⟨key, -, hout⟩ := bind_eq_ok_iff.1 hout
      refine .inr ⟨mul_ne_zero hp hq, key, u, k, σ, (Except.ok.inj hout).symm, hσ, ?_, hu, hheight⟩
      rw [hk]
      congr 1
      ring

/-- The product of simplified operands. -/
lemma product_affine (h : SimplifiesAffine x H simp) (he : IsAffine x (.mul l r) a b)
    (hcount : (Expr.mul l r).countOccurrences x ≤ 1) (hH : (Expr.mul l r).height ≤ H) :
    (product simp l r).Ensures (fun m => IsSimplified x a b m ∧ m.height ≤ (Expr.mul l r).height)
      (IsTooLong H) := by
  refine (operands_affine h .product he hcount hH).bind fun es hes => ?_
  obtain ⟨⟨rfl, hes⟩ | ⟨-, hes⟩, hspan⟩ := hes
  · have hle := Chain.magnitude_le_of_constantExtent_le (hes.constantExtent_le.trans hspan)
    obtain ⟨k, hk, hout | hout⟩ := collectFactors_of_areWorth hes
    · rw [hout]
      exact ensures_pure ⟨.inl ⟨rfl, k, rfl, hk⟩, (Expr.height_const hk).trans_le hle⟩
    · rw [hout]
      show (pure (Gathered.toProduct ⟨k, []⟩) : Bounded Expr).Ensures _ _
      rw [toProduct_nil]
      exact ensures_pure ⟨.inl ⟨rfl, k, rfl, hk⟩, (Expr.height_const hk).trans_le hle⟩
  · obtain @⟨pre, post, e, p, q, a, b, hpre, hline, hpost⟩ := hes
    have hspan := (constantExtent_mul_extent_le (e := e) hpre hpost).trans hspan
    have hle := (height_le_of_constantExtent_mul_le hspan).trans hH
    refine (collectFactors_affine hpre hline hpost hle).bind fun out hout => ?_
    rcases hout with ⟨hzero, k, rfl, hk⟩ | ⟨hpq, key, u, k, σ, rfl, hσ, hk, hu, hheight⟩
    · have hslope : p * q * a = 0 := by rw [hzero, zero_mul]
      have hvalue : p * q * b = 0 := by rw [hzero, zero_mul]
      refine ensures_pure ⟨.inl ⟨hslope, k, rfl, hk.trans (congrArg some hvalue.symm)⟩, ?_⟩
      rw [Expr.height_const hk]
      exact Expr.one_le_height _
    · have hone : (Expr.const 1 == .const 1) = true := rfl
      have hlong : Gathered.refuseLong ⟨k, [u]⟩ = .ok () :=
        Number.refuseLong_of_isExact (Number.isExact_of_exactValue? hk)
      have hne : p * q * σ ≠ 0 := by
        rcases hσ with rfl | rfl <;> simpa using hpq
      obtain ⟨hproduct, hproduct_le⟩ := toProduct_of_isLine hk hne hu
      show ((do
        let g ← gatherFactors simp [⟨key, u, [.const 1]⟩] ⟨k, []⟩
        Bounded.ofExcept g.refuseLong
        return g.toProduct) : Bounded Expr).Ensures _ _
      have hgather : gatherFactors simp [⟨key, u, [.const 1]⟩] ⟨k, []⟩ = pure ⟨k, [u]⟩ := by
        show (pure (Gathered.add (· * ·) ⟨k, []⟩ u) : Bounded Gathered) = _
        rw [add_of_isLine _ hu]
        rfl
      rw [hgather, pure_bind, hlong]
      refine ensures_pure ⟨.inr (hproduct.congr ?_ ?_), ?_⟩
      · show p * q * σ * (σ * a) = p * q * a
        rcases hσ with rfl | rfl <;> ring
      · show p * q * σ * (σ * b) = p * q * b
        rcases hσ with rfl | rfl <;> ring
      · have hsign :
            magnitude (p * q * σ) = Chain.product.constantExtent (Chain.product.op p q) := by
          rw [Chain.constantExtent_product]
          show _ = magnitude (p * q)
          rcases hσ with rfl | rfl <;> simp
        calc (Gathered.toProduct ⟨k, [u]⟩).height
            ≤ Chain.product.constantExtent (Chain.product.op p q) * e.height :=
              hproduct_le.trans_eq (by rw [hsign, hheight])
          _ = Chain.product.constantExtent (Chain.product.op p q) * Chain.product.extent e :=
              congrArg _ (Nat.one_mul _).symm
          _ ≤ (Expr.mul l r).height := hspan.trans_eq (Nat.one_mul _)

/-! ### The other rules -/

/-- The opposite of what an affine expression is simplified to. -/
lemma opposite_affine (h : SimplifiesAffine x H simp) (he : IsSimplified x a b e)
    (hH : e.height ≤ H) : (opposite simp e).Ensures
      (fun r => IsSimplified x (-a) (-b) r ∧ r.height ≤ e.height) (IsTooLong H) := by
  rcases he with ⟨rfl, d, rfl, hd⟩ | hline
  · have hneg := Number.exactValue?_neg hd
    refine ensures_pure ⟨.inl ⟨neg_zero, -d, rfl, hneg⟩, ?_⟩
    rw [Expr.height_const hneg, Expr.height_const hd, magnitude_neg]
  · have hcount := hline.count_eq_one
    cases hline with
    | var => exact ensures_pure ⟨.inr (.neg .var), Nat.le_refl _⟩
    | neg hu => exact ensures_pure ⟨.inr (hu.congr (by ring) (by ring)), Nat.le_refl _⟩
    | @add d u k a b hd hu =>
      have hneg := IsAffine.add (.neg (.const (x := x) hd)) (.neg hu.isAffine)
      refine h _ _ _ (hneg.congr ?_ ?_) (Nat.le_of_eq ?_) hH
      · ring
      · ring
      · exact hcount
    | @mul d u k a b hd hk hu =>
      have hneg := (IsAffine.const (x := x) hd).neg.congr neg_zero rfl
      refine h _ _ _ ((IsAffine.mulLeft hneg rfl hu.isAffine).congr ?_ ?_) (Nat.le_of_eq ?_) hH
      · ring
      · ring
      · exact hcount
    | @div d u k a b hd hk hu =>
      have hneg := IsAffine.div hu.isAffine.neg (.const (x := x) hd) rfl hk
      refine h _ _ _ (hneg.congr ?_ ?_) (Nat.le_of_eq ?_) hH
      · ring
      · ring
      · exact hcount

/-- The quotient of what an affine expression is simplified to by a constant. -/
lemma quotient_affine {n d : Expr} (hn : IsSimplified x a b n) (hd : IsValue d k) (hk : k ≠ 0) :
    (ofExcept (quotient n d)).Ensures (fun r => IsSimplified x (a / k) (b / k) r ∧
      r.height ≤ n.height * d.height) (IsTooLong H) := by
  obtain ⟨m, rfl, hm⟩ := hd
  rcases hn with ⟨rfl, m', rfl, hm'⟩ | hline
  · rw [quotient, Number.div_eq_ok hm' hm hk]
    refine ensures_pure ⟨.inl ⟨zero_div k, _, rfl, rfl⟩, ?_⟩
    rw [Expr.height_const (Number.exactValue?_rational _), Expr.height_const hm,
      Expr.height_const hm']
    exact magnitude_quotient_le b k
  · have hquotient : quotient n (.const m) = .ok (.div n (.const m)) := by cases hline <;> rfl
    rw [hquotient]
    exact ensures_pure ⟨.inr (.div hm hk hline), Nat.le_refl _⟩

/-- A simplifier that does with affine expressions what it should makes one that does, one level
up. -/
lemma step_affine (h : SimplifiesAffine x H simp) : SimplifiesAffine x H (step simp) := by
  intro e a b he hcount hH
  cases id he with
  | const hc => exact ensures_pure ⟨.inl ⟨rfl, _, rfl, hc⟩, Nat.le_refl _⟩
  | var => exact ensures_pure ⟨.inr .var, Nat.le_refl _⟩
  | add => exact sum_affine h he hcount hH
  | mulLeft => exact product_affine h he hcount hH
  | mulRight => exact product_affine h he hcount hH
  | @sub l r al bl ar br hl hr =>
    obtain ⟨hlH, hrH⟩ := Expr.heights_le_of_two_mul hH
    rw [Expr.countOccurrences_sub] at hcount
    refine (h l _ _ hl (by omega) hlH).bind fun l' hl' => ?_
    refine (h r _ _ hr (by omega) hrH).bind fun r' hr' => ?_
    have hl'_le := hl'.1.count_le hl
    have hr'_le := hr'.1.count_le hr
    have hneg := hr'.1.isAffine.neg
    refine (h (.neg r') _ _ hneg ?_ (hr'.2.trans hrH)).bind fun m hm => ?_
    · rw [Expr.countOccurrences_neg]
      omega
    have hm_le := hm.1.count_le hneg
    have hheight : (Expr.add l' m).height ≤ (Expr.sub l r).height :=
      Nat.mul_le_mul_left 2 (Nat.mul_le_mul hl'.2 (hm.2.trans hr'.2))
    have hsum := (hl'.1.isAffine.add hm.1.isAffine).congr (sub_eq_add_neg al ar).symm
      (sub_eq_add_neg bl br).symm
    refine (h _ _ _ hsum ?_ (hheight.trans hH)).mono fun t ht => ⟨ht.1, ht.2.trans hheight⟩
    rw [Expr.countOccurrences_add]
    rw [Expr.countOccurrences_neg] at hm_le
    omega
  | @neg u a b hu =>
    refine (h u _ _ hu hcount hH).bind fun u' hu' => ?_
    exact (opposite_affine h hu'.1 (hu'.2.trans hH)).mono fun r hr => ⟨hr.1, hr.2.trans hu'.2⟩
  | @div n d k a b hn hd hfree hk =>
    obtain ⟨hnH, hdH⟩ := Expr.heights_le hH
    rw [Expr.countOccurrences_div] at hcount
    refine (h n _ _ hn (by omega) hnH).bind fun n' hn' => ?_
    refine (h d _ _ hd (by omega) hdH).bind fun d' hd' => ?_
    refine (quotient_affine hn'.1 (hd'.1.isValue hd hfree) hk).mono fun r hr => ⟨hr.1, ?_⟩
    exact hr.2.trans (Nat.mul_le_mul hn'.2 hd'.2)

lemma within_affine (x : String) (H n : Nat) : SimplifiesAffine x H (within n) := by
  induction n with
  | zero =>
    intro e a b _ _ _
    constructor
    · intro r hr
      cases hr
    · intro err herr
      cases herr
  | succ n ih => exact step_affine ih

end Simplify

/-- An affine expression with one place of the variable, or none, is simplified to a constant or to
a line, unless a numeral is too long. -/
theorem simplify_affine (he : IsAffine x e a b) (hcount : e.countOccurrences x ≤ 1) :
    Renders e.height (simplify e) ∧
      ∀ r, simplify e = .ok r → IsSimplified x a b r ∧ r.height ≤ e.height := by
  obtain ⟨n, hn⟩ := simplify_eq_iff.1 (rfl : simplify e = simplify e)
  have h := within_affine x e.height n e a b he hcount (Nat.le_refl _)
  constructor
  · intro err herr
    exact h.2 err (hn.trans (congrArg some herr))
  · intro r hr
    exact h.1 r (hn.trans (congrArg some hr))

end SymbolicAlgebra
