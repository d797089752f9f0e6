import SymbolicAlgebra.Proofs.Soundness.Sum
import SymbolicAlgebra.Simplify.Termination.Product

/-!
# Products keep their values

The collected factors of a product have the value of the product (`CollectedProduct.HasValue`) while
factors are added and gathered again. Exponents of one base are added up: where all the powers have
values, so has the power with the sum of the exponents, and it is their product, over zero too
(`PowersHaveValue.exists_sum`).
-/

namespace SymbolicAlgebra.Simplify

open Bounded

variable {ν : Valuation} {simp : Expr → Bounded Expr}

/-! ### Collection -/

/-- Powers of `b` with the exponents of a list that are worth `v` together. -/
def PowersHaveValue (ν : Valuation) (b : Rat) : List Expr → Rat → Prop
  | [], v => v = 1
  | p :: ps, v => ∃ q x y, p.value ν = some q ∧ powValue b q = some x ∧
      PowersHaveValue ν b ps y ∧ x * y = v

/-- Like factors that are worth `v` together. The representative has the value of the base. -/
def LikeFactors.HasValue (ν : Valuation) (f : LikeFactors) (v : Rat) : Prop :=
  ∃ b, f.base.value ν = some b ∧ f.key.value ν = some b ∧ PowersHaveValue ν b f.exponents v

/-- Collected factors that are worth `v` together. -/
def FactorsHaveValue (ν : Valuation) : List LikeFactors → Rat → Prop
  | [], v => v = 1
  | f :: fs, v => ∃ x y, f.HasValue ν x ∧ FactorsHaveValue ν fs y ∧ x * y = v

/-- A collected product that is worth `v`. -/
def CollectedProduct.HasValue (ν : Valuation) (s : CollectedProduct) (v : Rat) : Prop :=
  ∃ a b, s.constant.exactValue? = some a ∧ FactorsHaveValue ν s.factors b ∧ a * b = v

/-- What becomes of the factors of a product that is worth `v`. -/
def ProductOutcome.HasValue (ν : Valuation) (v : Rat) : ProductOutcome → Prop
  | .zero c => c.exactValue? = some v
  | .collected s => s.HasValue ν v

/-- The exponents of powers that all have values add up. -/
lemma PowersHaveValue.exists_sum {b v : Rat} {ps : List Expr} (h : PowersHaveValue ν b ps v) :
    ∃ q, Chain.sum.value ν ps = some q ∧ powValue b q = some v := by
  induction ps generalizing v with
  | nil =>
    obtain rfl : v = 1 := h
    exact ⟨0, rfl, powValue_zero b⟩
  | cons p ps ih =>
    obtain ⟨q, x, y, hq, hx, hps, rfl⟩ := h
    obtain ⟨q', hq', hy⟩ := ih hps
    exact ⟨q + q', Chain.value_cons_eq_some_iff.2 ⟨q, q', hq, hq', rfl⟩, powValue_add hx hy⟩

lemma PowersHaveValue.push {b v q x : Rat} {ps : List Expr} {p : Expr}
    (h : PowersHaveValue ν b ps v) (hp : p.value ν = some q) (hx : powValue b q = some x) :
    PowersHaveValue ν b (ps ++ [p]) (v * x) := by
  induction ps generalizing v with
  | nil =>
    obtain rfl : v = 1 := h
    exact ⟨q, x, 1, hp, hx, rfl, by ring⟩
  | cons p' ps ih =>
    obtain ⟨q', x', y, hq', hx', hps, rfl⟩ := h
    exact ⟨q', x', y * x, hq', hx', ih hps, by ring⟩

lemma FactorsHaveValue.addFactor {fs : List LikeFactors} {v b q x : Rat} {key base p : Expr}
    (h : FactorsHaveValue ν fs v) (hbase : base.value ν = some b) (hkey : key.value ν = some b)
    (hp : p.value ν = some q) (hx : powValue b q = some x) :
    FactorsHaveValue ν (addFactor key base p fs) (v * x) := by
  induction fs generalizing v with
  | nil =>
    obtain rfl : v = 1 := h
    have hpow : PowersHaveValue ν b [p] x := ⟨q, x, 1, hp, hx, rfl, mul_one x⟩
    exact ⟨x, 1, ⟨b, hbase, hkey, hpow⟩, rfl, by ring⟩
  | cons f fs ih =>
    obtain ⟨y, z, ⟨b', hb', hk', hpows⟩, hfs, rfl⟩ := h
    unfold Simplify.addFactor
    split
    · next hsame =>
      obtain rfl := Expr.value_eq_of_same hsame hk' hkey
      exact ⟨y * x, z, ⟨b', hb', hk', hpows.push hp hx⟩, hfs, by ring⟩
    · exact ⟨y, z * x, ⟨b', hb', hk', hpows⟩, ih hfs, by ring⟩

/-- A factor is the power of its base by its exponent. -/
lemma exists_value_of_splitExponent {e : Expr} {v : Rat} (hv : e.value ν = some v) :
    ∃ b q, (splitExponent e).1.value ν = some b ∧ (splitExponent e).2.value ν = some q ∧
      powValue b q = some v := by
  unfold splitExponent
  split
  · exact Expr.value_pow_eq_some_iff.1 hv
  · exact ⟨v, 1, hv, rfl, powValue_one v⟩

lemma CollectedProduct.onlyLimits_addFactor (s : CollectedProduct) (e : Expr) :
    RefusedOnly Error.IsLimit (s.addFactor e) :=
  (Expr.onlyLimits_likeKey _).bind fun _ _ => refusedOnly_ok _

lemma CollectedProduct.HasValue.addFactor {s s' : CollectedProduct} {v x : Rat} {e : Expr}
    (h : s.HasValue ν v) (hx : e.value ν = some x) (hs : s.addFactor e = .ok s') :
    s'.HasValue ν (v * x) := by
  obtain ⟨a, b, ha, hb, rfl⟩ := h
  obtain ⟨key, hkey, hs⟩ := bind_eq_ok_iff.1 hs
  obtain rfl := pure_eq_ok_iff.1 hs
  obtain ⟨y, q, hy, hq, hx⟩ := exists_value_of_splitExponent hx
  have hk := (reordered_likeKey hkey).value_eq ν
  exact ⟨a, b * x, ha, hb.addFactor hy (hk ▸ hy) hq hx, by ring⟩

lemma CollectedProduct.HasValue.setConstant {s : CollectedProduct} {v a q : Rat} {c : Number}
    (h : s.HasValue ν v) (ha : s.constant.exactValue? = some a)
    (hc : c.exactValue? = some (a * q)) :
    CollectedProduct.HasValue ν { s with constant := c } (v * q) := by
  obtain ⟨a', b, ha', hb, rfl⟩ := h
  obtain rfl := Option.some.inj (ha.symm.trans ha')
  exact ⟨a * q, b, hc, hb, by ring⟩

lemma onlyLimits_collectFactors {es : List Expr} {s : CollectedProduct} :
    RefusedOnly Error.IsLimit (collectFactors es s) := by
  induction es generalizing s with
  | nil => exact refusedOnly_ok _
  | cons e es ih =>
    unfold collectFactors
    split
    · next heq => cases heq
    · next heq =>
      cases heq
      exact refusedOnly_ite (refusedOnly_ok _) ih
    · next heq =>
      cases heq
      exact (CollectedProduct.onlyLimits_addFactor _ _).bind fun _ _ => ih
    · next heq =>
      cases heq
      exact (CollectedProduct.onlyLimits_addFactor _ _).bind fun _ _ => ih

lemma CollectedProduct.HasValue.collectFactors {es : List Expr} {s : CollectedProduct}
    {out : ProductOutcome} {v w : Rat} (h : s.HasValue ν v)
    (hes : Chain.product.value ν es = some w) (hout : collectFactors es s = .ok out) :
    out.HasValue ν (v * w) := by
  induction es generalizing s v w with
  | nil =>
    obtain rfl : 1 = w := Option.some.inj hes
    rw [← pure_eq_ok_iff.1 hout, mul_one]
    exact h
  | cons e es ih =>
    obtain ⟨x, y, hx, hy, rfl⟩ := Chain.value_cons_eq_some_iff.1 hes
    have hassoc : v * Chain.product.op x y = v * x * y := (mul_assoc v x y).symm
    rw [hassoc]
    by_cases hc : ∃ c, e = .const c
    · obtain ⟨c, rfl⟩ := hc
      rw [Simplify.collectFactors] at hout
      split at hout
      · next hzero =>
        obtain rfl := (Number.isZero_iff hx).1 hzero
        rw [← pure_eq_ok_iff.1 hout, mul_zero, zero_mul]
        exact hx
      · obtain ⟨a, b, ha, hb, rfl⟩ := h
        have hs := CollectedProduct.HasValue.setConstant (s := s) ⟨a, b, ha, hb, rfl⟩ ha
          (Number.exactValue?_mul ha hx)
        exact ih hs hy hout
    · by_cases hn : ∃ u, e = .neg u
      · obtain ⟨u, rfl⟩ := hn
        obtain ⟨z, hz, rfl⟩ := Expr.value_neg_eq_some_iff.1 hx
        obtain ⟨a, b, ha, hb, rfl⟩ := h
        obtain ⟨s', hs', hout⟩ := bind_eq_ok_iff.1 hout
        have hs := CollectedProduct.HasValue.setConstant (s := s) (c := -s.constant) (q := -1)
          ⟨a, b, ha, hb, rfl⟩ ha (by rw [Number.exactValue?_neg ha, mul_neg_one])
        have hsign : a * b * -z = a * b * -1 * z := by ring
        rw [hsign]
        exact ih (hs.addFactor hz hs') hy hout
      · rw [collectFactors_cons es s (fun c h => hc ⟨c, h⟩) fun u h => hn ⟨u, h⟩] at hout
        obtain ⟨s', hs', hout⟩ := bind_eq_ok_iff.1 hout
        exact ih (h.addFactor hx hs') hy hout

/-! ### Gathering -/

lemma onlyLimits_refuseLongConstant (e : Expr) :
    RefusedOnly Error.IsLimit (refuseLongConstant e) := by
  unfold refuseLongConstant
  split
  · exact Number.onlyLimits_refuseLong _
  · exact refusedOnly_ok _

lemma LikeFactors.HasValue.toFactor (h : Keeps ν simp) {f : LikeFactors} {v : Rat}
    (hf : f.HasValue ν v) :
    (f.toFactor simp).Ensures (fun r => r.value ν = some v) NoDivision := by
  obtain ⟨b, hb, -, hpows⟩ := hf
  unfold LikeFactors.toFactor
  split
  · next p hp =>
    rw [hp] at hpows
    obtain ⟨q, x, y, hq, hx, rfl, rfl⟩ := hpows
    rw [mul_one]
    refine Ensures.bind (P := fun _ => True) (ensures_of_onlyLimits
      (onlyLimits_refuseLongConstant p) fun _ _ => trivial) fun _ _ => ensures_pure ?_
    split
    · next hone =>
      have hq1 : q = 1 := Expr.value_eq_of_same hone hq (w := 1) rfl
      rw [hq1, powValue_one] at hx
      rw [hb, hx]
    · exact Expr.value_pow_eq_some_iff.2 ⟨b, q, hb, hq, hx⟩
  · obtain ⟨q, hq, hv⟩ := hpows.exists_sum
    refine h _ _ (Expr.value_pow_eq_some_iff.2 ⟨b, q, hb, ?_, hv⟩)
    rw [Chain.value_build, hq]

lemma gatherFactors_keeps (h : Keeps ν simp) {fs : List LikeFactors} {g : Gathered} {v w : Rat}
    (hfs : FactorsHaveValue ν fs w) (hg : g.HasValue .product ν v) :
    (gatherFactors simp fs g).Ensures (fun g => g.HasValue .product ν (v * w)) NoDivision := by
  induction fs generalizing g v w with
  | nil =>
    obtain rfl : w = 1 := hfs
    exact ensures_pure (by rwa [mul_one])
  | cons f fs ih =>
    obtain ⟨x, y, hf, hfs, rfl⟩ := hfs
    refine (hf.toFactor h).bind fun r hr => ?_
    rw [← mul_assoc]
    exact ih hfs (hg.add Number.exactValue?_mul hr)

lemma Gathered.HasValue.toProduct {g : Gathered} {v : Rat} (h : g.HasValue .product ν v) :
    g.toProduct.value ν = some v := by
  obtain ⟨a, b, ha, hb, rfl⟩ := h
  unfold Gathered.toProduct
  split
  · next hzero =>
    obtain rfl := (Number.isZero_iff ha).1 hzero
    exact ha.trans (congrArg some (zero_mul b).symm)
  · split
    · next hnil =>
      rw [hnil] at hb
      obtain rfl : 1 = b := Option.some.inj hb
      exact ha.trans (congrArg some (mul_one a).symm)
    · next e es hes =>
      rw [hes] at hb
      split
      · next hsign =>
        simp only [Bool.and_eq_true, List.isEmpty_iff] at hsign
        obtain ⟨⟨hminus, rfl⟩, -⟩ := hsign
        have ha1 : a = -1 := by
          simpa using (Number.beq_iff ha (Number.exactValue?_integer _)).1 hminus
        rw [Chain.value_singleton] at hb
        rw [Expr.value_neg_eq_some_iff]
        exact ⟨b, hb, by rw [ha1]; exact (neg_one_mul b).symm⟩
      split
      · next hone =>
        obtain rfl := (Number.isOne_iff ha).1 hone
        rw [Chain.value_build, hb]
        exact congrArg some (one_mul b).symm
      · rw [Chain.value_build, Chain.value_cons_eq_some_iff]
        exact ⟨a, b, ha, hb, rfl⟩

lemma Gathered.onlyLimits_refuseLong (g : Gathered) : RefusedOnly Error.IsLimit g.refuseLong :=
  refusedOnly_ite (refusedOnly_ok _) (Number.onlyLimits_refuseLong _)

/-- A product is simplified to an expression of its value. -/
lemma product_keeps (h : Keeps ν simp) {l r : Expr} {v : Rat}
    (hv : (Expr.mul l r).value ν = some v) :
    (product simp l r).Ensures (fun r => r.value ν = some v) NoDivision := by
  refine (operands_keeps h .product hv).bind fun es hes => ?_
  have h0 : CollectedProduct.HasValue ν ⟨1, []⟩ 1 := ⟨1, 1, rfl, rfl, one_mul 1⟩
  refine Ensures.bind (P := fun out => out.HasValue ν v)
    (ensures_of_onlyLimits onlyLimits_collectFactors fun out hout => ?_) fun out hout => ?_
  · have hprod := h0.collectFactors hes hout
    rwa [one_mul] at hprod
  · cases out with
    | zero c => exact ensures_pure hout
    | collected s =>
      obtain ⟨a, b, ha, hb, rfl⟩ := hout
      have hg : Gathered.HasValue .product ν ⟨s.constant, []⟩ a := ⟨a, 1, ha, rfl, mul_one a⟩
      refine (gatherFactors_keeps h hb hg).bind fun g hg => ?_
      exact Ensures.bind (P := fun _ => True) (ensures_of_onlyLimits g.onlyLimits_refuseLong
        fun _ _ => trivial) fun _ _ => ensures_pure hg.toProduct

end SymbolicAlgebra.Simplify
