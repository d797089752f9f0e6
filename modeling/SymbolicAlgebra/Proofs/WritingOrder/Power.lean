import SymbolicAlgebra.Proofs.WritingOrder.Product

/-!
# Powers and quotients of expressions that are alike

Quotients and powers of numbers depend on the values of these only, if the results are exact. So
powers and quotients of expressions that are alike are alike (`PowerResult.alike`,
`quotient_alike`).
-/

namespace SymbolicAlgebra

open SymbolicAlgebra.Expr Simplify

variable {S S' : Expr → Expr → Prop} {a a' b b' : Number} {v w : Rat} {r r' x x' y y' : Expr}

namespace Simplify

/-! ### Powers and quotients -/

/-- A power that is not worked out exactly is a floating point number. -/
lemma not_isExact_of_powFloat {k : Number} (h : a.powFloat b = .ok k) : k.isExact = false := by
  unfold Number.powFloat at h
  dsimp only at h
  split at h
  · obtain ⟨_, -, h⟩ := bind_eq_ok_iff.1 h
    cases h
  obtain ⟨z, -, h⟩ := bind_eq_ok_iff.1 h
  cases z with
  | real x =>
    obtain rfl := pure_eq_ok_iff.1 h
    rfl
  | complex z =>
    obtain ⟨_, -, h⟩ := bind_eq_ok_iff.1 h
    obtain ⟨_, -, h⟩ := bind_eq_ok_iff.1 h
    cases h

/-- A power of constants with an exponent that is not whole stays as it is, where it is no floating
point number. -/
lemma eq_pow_of_constantPower (ha : a.exactValue? = some v) (hb : b.exactValue? = some w)
    (hw : w.den ≠ 1)
    (h : constantPower a b = .ok r) (hr : r.IsReadable) : r = .pow (.const a) (.const b) := by
  have hpow : a.pow b = a.powFloat b := by simp [Number.pow, ha, hb, hw]
  rw [constantPower, hpow] at h
  split at h
  · next k hk =>
    obtain rfl := Except.ok.inj h
    exact absurd hr (by simp [IsReadable, not_isExact_of_powFloat hk])
  · exact (Except.ok.inj h).symm
  · cases h

lemma constantPower_alike (ha : a.exactValue? = some v) (ha' : a'.exactValue? = some v)
    (hb : b.exactValue? = some w) (hb' : b'.exactValue? = some w) (h : constantPower a b = .ok r)
    (h' : constantPower a' b' = .ok r') (hr : r.IsReadable) (hr' : r'.IsReadable) : r.Alike r' := by
  by_cases hw : w.den = 1
  · have hpow : a.pow b = Number.powExact v w.num := by simp [Number.pow, ha, hb, hw]
    have hpow' : a'.pow b' = Number.powExact v w.num := by simp [Number.pow, ha', hb', hw]
    rw [constantPower, hpow] at h
    rw [constantPower, hpow'] at h'
    split at h
    · next k hk =>
      rw [hk] at h'
      rw [← Except.ok.inj h, ← Except.ok.inj h']
      exact .refl _
    · next s t hk =>
      rw [hk] at h'
      rw [← Except.ok.inj h, ← Except.ok.inj h']
      exact .pow (.const ha ha') (.const hb hb')
    · cases h
  · rw [eq_pow_of_constantPower ha hb hw h hr, eq_pow_of_constantPower ha' hb' hw h' hr']
    exact .pow (.const ha ha') (.const hb hb')

lemma value_ne_zero_of_div {k : Number} (h : a.div b = .ok k)
    (hb : b.exactValue? = some w) : w ≠ 0 := by
  intro hz
  rw [Number.div, if_pos ((Number.isZero_iff hb).2 hz)] at h
  obtain ⟨_, -, h⟩ := bind_eq_ok_iff.1 h
  cases h

/-- Quotients of expressions that are alike. -/
lemma quotient_alike (hx : x.Alike x') (hy : y.Alike y') (h : quotient x y = .ok r)
    (h' : quotient x' y' = .ok r') (hread : x.IsReadable) (hready : y.IsReadable) : r.Alike r' := by
  unfold quotient at h h'
  split at h
  · next a b =>
    obtain ⟨a', rfl, ha⟩ := hx.eq_const
    obtain ⟨b', rfl, hb⟩ := hy.eq_const
    have hvalue := Number.exactValue?_eq_valueOrZero hread
    have hvalue' := Number.exactValue?_eq_valueOrZero hready
    obtain ⟨k, hk, h⟩ := bind_eq_ok_iff.1 h
    obtain ⟨k', hk', h'⟩ := bind_eq_ok_iff.1 h'
    have hz := value_ne_zero_of_div hk hvalue'
    rw [Number.div_eq_ok hvalue hvalue' hz] at hk
    rw [Number.div_eq_ok (ha.trans hvalue) (hb.trans hvalue') hz] at hk'
    rw [← pure_eq_ok_iff.1 h, ← pure_eq_ok_iff.1 h', ← Except.ok.inj hk, ← Except.ok.inj hk']
    exact .refl _
  · next hconst =>
    split at h'
    · next a b =>
      obtain ⟨a', rfl, -⟩ := hx.symm.eq_const
      obtain ⟨b', rfl, -⟩ := hy.symm.eq_const
      exact absurd rfl (hconst a' b' rfl)
    · obtain rfl := Except.ok.inj h
      obtain rfl := Except.ok.inj h'
      exact .div hx hy

/-- Proper powers of expressions that are alike. -/
lemma ProperPowerResult.alike (hS : Agree S S') (hx : x.Alike x') (hy : y.Alike y')
    (h : ProperPowerResult S x y r) (h' : ProperPowerResult S' x' y' r') (hread : x.IsReadable)
    (hready : y.IsReadable) (hr : r.IsReadable) (hr' : r'.IsReadable) : r.Alike r' := by
  cases h with
  | @nested b q p s r hs hr =>
    obtain ⟨b', q', rfl, hb, hq⟩ := hx.eq_pow
    cases h' with
    | nested hs' hr' => exact hS.alike hr hr' (.pow hb (hS.alike hs hs' (.node .product hy hq)))
    | power hpow => exact absurd rfl (hpow b' q')
  | @constant b p r h =>
    obtain ⟨b', rfl, hb⟩ := hx.eq_const
    obtain ⟨p', rfl, hp⟩ := hy.eq_const
    have hvalue := Number.exactValue?_eq_valueOrZero hread
    have hvalue' := Number.exactValue?_eq_valueOrZero hready
    cases h' with
    | constant h' =>
      exact constantPower_alike hvalue (hb.trans hvalue) hvalue' (hp.trans hvalue') h h' hr hr'
    | power _ hc => cases hc
  | power hpow hc =>
    cases h' with
    | nested =>
      obtain ⟨b, q, rfl, -⟩ := hx.symm.eq_pow
      exact absurd rfl (hpow b q)
    | constant =>
      rw [hx.isConstant_eq, hy.isConstant_eq] at hc
      cases hc
    | power => exact .pow hx hy

lemma ProperPowerResult.of_powerResult (h : PowerResult S x y r) (hc : y.isConstant = false) :
    ProperPowerResult S x y r := by
  cases y <;> first | exact h | cases hc

/-- Powers of expressions that are alike. -/
lemma PowerResult.alike (hS : Agree S S') (hx : x.Alike x') (hy : y.Alike y')
    (h : PowerResult S x y r)
    (h' : PowerResult S' x' y' r') (hread : x.IsReadable) (hready : y.IsReadable)
    (hr : r.IsReadable) (hr' : r'.IsReadable) : r.Alike r' := by
  by_cases hc : y.isConstant
  · obtain ⟨k, rfl⟩ := eq_const_of_isConstant hc
    obtain ⟨k', rfl, hk⟩ := hy.eq_const
    have hvalue := Number.exactValue?_eq_valueOrZero hready
    have hvalue' := hk.trans hvalue
    have hone : k.isOne = k'.isOne := by
      rw [Bool.eq_iff_iff, Number.isOne_iff hvalue, Number.isOne_iff hvalue']
    have hzero : k.isZero = k'.isZero := by
      rw [Bool.eq_iff_iff, Number.isZero_iff hvalue, Number.isZero_iff hvalue']
    have h : if k.isOne then r = x else if k.isZero then r = .const 1 else
        ProperPowerResult S x (.const k) r := h
    have h' : if k'.isOne then r' = x' else if k'.isZero then r' = .const 1 else
        ProperPowerResult S' x' (.const k') r' := h'
    rw [← hone, ← hzero] at h'
    split at h
    · next hc =>
      rw [if_pos hc] at h'
      rwa [h, h']
    · next hc =>
      rw [if_neg hc] at h'
      split at h
      · next hc =>
        rw [if_pos hc] at h'
        rw [h, h']
        exact .refl _
      · next hc =>
        rw [if_neg hc] at h'
        exact h.alike hS hx hy h' hread hready hr hr'
  · have hc := Bool.eq_false_iff.2 hc
    exact (ProperPowerResult.of_powerResult h hc).alike hS hx hy
      (ProperPowerResult.of_powerResult h' (hy.isConstant_eq ▸ hc)) hread hready hr hr'

end Simplify

end SymbolicAlgebra
