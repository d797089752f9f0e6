import Mathlib.Algebra.Order.Field.Rat
import Mathlib.Data.Rat.Lemmas
import Mathlib.Tactic.FieldSimp
import Mathlib.Tactic.Ring
import SymbolicAlgebra.Number.Arithmetic
import SymbolicAlgebra.Report

/-!
# Arithmetic of exact numbers

An integer or a rational has an exact value (`Number.exactValue?`). Sums, products, opposites,
quotients and whole powers of numbers with exact values have the values that they should have in the
field of rationals, and a quotient or a power is refused as a division by zero only where there is
none.
-/

namespace SymbolicAlgebra

/-- A refusal that is told as a division by zero. -/
def Error.IsDivisionByZero (e : Error) : Prop :=
  e.report.category = .divisionByZero

/-- The value of a power: the exponent is whole, and not negative if the base is zero. -/
def powValue (b p : Rat) : Option Rat :=
  if p.den = 1 ∧ (b ≠ 0 ∨ 0 ≤ p) then some (b ^ p.num) else none

/-! ### Powers -/

lemma integerPower_eq (b : Int) (n : Nat) : integerPower b n = b ^ n := by
  unfold integerPower
  split_ifs with h0 h1 h2 h3 h4
  · simp [h0]
  · rcases h1 with rfl | rfl <;> simp [h0]
  · subst h2
    exact (Even.neg_one_pow (Nat.even_iff.2 h3)).symm
  · subst h2
    exact (Odd.neg_one_pow (Nat.odd_iff.2 (by omega))).symm
  · obtain ⟨hneg, hodd⟩ := h4
    have habs : (b.natAbs : Int) = -b := by omega
    change -((b.natAbs ^ n : Nat) : Int) = b ^ n
    rw [Nat.cast_pow, habs, Odd.neg_pow (Nat.odd_iff.2 hodd), neg_neg]
  · change ((b.natAbs ^ n : Nat) : Int) = b ^ n
    rw [Nat.cast_pow]
    rcases le_or_gt 0 b with hb | hb
    · rw [Int.natAbs_of_nonneg hb]
    · have habs : (b.natAbs : Int) = -b := by omega
      have heven : Even n := Nat.even_iff.2 (by omega)
      rw [habs, heven.neg_pow]

lemma mkRat_sign_natAbs (n d : Int) (hn : n ≠ 0) : mkRat (n.sign * d) n.natAbs = d / n := by
  have habs : ((n.natAbs : Nat) : Rat) = n.sign * n := by
    rw [← Int.cast_natCast, ← Int.cast_mul, Int.sign_mul_self_eq_natAbs]
  have hsign : (n.sign : Rat) ≠ 0 := by
    rw [Int.cast_ne_zero]
    simpa [Int.sign_eq_zero_iff_zero]
  rw [Rat.mkRat_eq_div, habs]
  push_cast
  exact mul_div_mul_left _ _ hsign

lemma rationalPower_eq (q : Rat) (n : Int) (h : q ≠ 0 ∨ 0 ≤ n) : rationalPower q n = q ^ n := by
  unfold rationalPower
  simp only [integerPower_eq]
  obtain ⟨k, rfl | rfl⟩ := n.eq_nat_or_neg
  · rw [if_pos (Int.natCast_nonneg k), Rat.mkRat_eq_div, zpow_natCast, Int.natAbs_natCast]
    have hden : (((q.den : Int) ^ k).toNat : Rat) = (q.den : Rat) ^ k := by
      rw [← Nat.cast_pow, Int.toNat_natCast, Nat.cast_pow]
    rw [hden, Int.cast_pow, ← div_pow, Rat.num_div_den]
  · rw [Int.natAbs_neg, Int.natAbs_natCast]
    split_ifs with hk
    · obtain rfl : k = 0 := by omega
      simp [Rat.mkRat_eq_div]
    · have hq : q.num ≠ 0 := by
        intro h0
        exact h.elim (fun h => h (Rat.num_eq_zero.1 h0)) hk
      rw [mkRat_sign_natAbs _ _ (pow_ne_zero k hq), zpow_neg, zpow_natCast]
      push_cast
      rw [← div_pow, ← inv_pow, ← Rat.num_div_den q, inv_div]
      simp only [Rat.num_div_den]

lemma powValue_eq_some_iff {b p v : Rat} :
    powValue b p = some v ↔ (p.den = 1 ∧ (b ≠ 0 ∨ 0 ≤ p)) ∧ b ^ p.num = v := by
  simp [powValue]

@[simp] lemma powValue_one (b : Rat) : powValue b 1 = some b := by
  simp [powValue]

@[simp] lemma powValue_zero (b : Rat) : powValue b 0 = some 1 := by
  simp [powValue]

/-- An integer exponent is a whole one. -/
lemma powValue_intCast {b v : Rat} {n : Int} :
    powValue b n = some v ↔ (b ≠ 0 ∨ 0 ≤ n) ∧ b ^ n = v := by
  simp [powValue]

lemma exists_eq_intCast_of_den {p : Rat} (h : p.den = 1) : ∃ n : Int, p = n :=
  ⟨p.num, ((Rat.den_eq_one_iff p).1 h).symm⟩

lemma exists_eq_intCast_of_powValue {b p v : Rat} (h : powValue b p = some v) :
    ∃ n : Int, p = n :=
  exists_eq_intCast_of_den (powValue_eq_some_iff.1 h).1.1

/-- Exponents of one base add up. -/
lemma powValue_add {b p q x y : Rat} (hp : powValue b p = some x) (hq : powValue b q = some y) :
    powValue b (p + q) = some (x * y) := by
  obtain ⟨m, rfl⟩ := exists_eq_intCast_of_powValue hp
  obtain ⟨n, rfl⟩ := exists_eq_intCast_of_powValue hq
  obtain ⟨hm, rfl⟩ := powValue_intCast.1 hp
  obtain ⟨hn, rfl⟩ := powValue_intCast.1 hq
  rw [← Int.cast_add, powValue_intCast]
  by_cases hb : b = 0
  · have hm := hm.resolve_left (not_not.2 hb)
    have hn := hn.resolve_left (not_not.2 hb)
    refine ⟨.inr (by omega), ?_⟩
    lift m to Nat using hm
    lift n to Nat using hn
    rw [← Nat.cast_add, zpow_natCast, zpow_natCast, zpow_natCast, pow_add]
  · exact ⟨.inl hb, zpow_add₀ hb m n⟩

/-- Exponents over each other multiply. -/
lemma powValue_mul {b p q x y : Rat} (hq : powValue b q = some x) (hp : powValue x p = some y) :
    powValue b (p * q) = some y := by
  obtain ⟨n, rfl⟩ := exists_eq_intCast_of_powValue hq
  obtain ⟨m, rfl⟩ := exists_eq_intCast_of_powValue hp
  obtain ⟨hn, rfl⟩ := powValue_intCast.1 hq
  obtain ⟨hm, rfl⟩ := powValue_intCast.1 hp
  rw [← Int.cast_mul, powValue_intCast]
  refine ⟨?_, by rw [mul_comm, zpow_mul]⟩
  by_cases hb : b = 0
  · right
    have hn := hn.resolve_left (not_not.2 hb)
    by_cases hn0 : n = 0
    · simp [hn0]
    · have hzero : b ^ n = 0 := by rw [hb, zero_zpow n hn0]
      exact mul_nonneg (hm.resolve_left (not_not.2 hzero)) hn
  · exact .inl hb

/-! ### Exact values -/

namespace Number

variable {a b : Number} {x y : Rat}

lemma exactValue?_eq_some_iff :
    a.exactValue? = some x ↔ (∃ n : Int, a = integer n ∧ x = n) ∨ a = rational x := by
  cases a <;> simp [exactValue?, eq_comm]

@[simp] lemma exactValue?_integer (n : Int) : (integer n).exactValue? = some (n : Rat) := rfl

@[simp] lemma exactValue?_rational (q : Rat) : (rational q).exactValue? = some q := rfl

@[simp] lemma exactValue?_ofNat (n : Nat) : (OfNat.ofNat n : Number).exactValue? = some (n : Rat) :=
  rfl

lemma exactValue?_add (ha : a.exactValue? = some x) (hb : b.exactValue? = some y) :
    (a + b).exactValue? = some (x + y) := by
  rcases exactValue?_eq_some_iff.1 ha with ⟨m, rfl, rfl⟩ | rfl <;>
    rcases exactValue?_eq_some_iff.1 hb with ⟨n, rfl, rfl⟩ | rfl
  · exact congrArg some (Int.cast_add m n)
  · rfl
  · rfl
  · rfl

lemma exactValue?_zero_add (ha : a.exactValue? = some x) : (0 + a).exactValue? = some x := by
  simpa using exactValue?_add (exactValue?_ofNat 0) ha

lemma exactValue?_mul (ha : a.exactValue? = some x) (hb : b.exactValue? = some y) :
    (a * b).exactValue? = some (x * y) := by
  rcases exactValue?_eq_some_iff.1 ha with ⟨m, rfl, rfl⟩ | rfl <;>
    rcases exactValue?_eq_some_iff.1 hb with ⟨n, rfl, rfl⟩ | rfl
  · exact congrArg some (Int.cast_mul m n)
  · rfl
  · rfl
  · rfl

lemma exactValue?_neg (ha : a.exactValue? = some x) : (-a).exactValue? = some (-x) := by
  rcases exactValue?_eq_some_iff.1 ha with ⟨m, rfl, rfl⟩ | rfl
  · exact congrArg some (Int.cast_neg m)
  · rfl

lemma isZero_iff (ha : a.exactValue? = some x) : a.isZero ↔ x = 0 := by
  rcases exactValue?_eq_some_iff.1 ha with ⟨m, rfl, rfl⟩ | rfl <;> simp [isZero]

lemma isOne_iff (ha : a.exactValue? = some x) : a.isOne ↔ x = 1 := by
  rcases exactValue?_eq_some_iff.1 ha with ⟨m, rfl, rfl⟩ | rfl
  · simp only [isOne, decide_eq_true_eq]
    exact_mod_cast Iff.rfl
  · simp [isOne]

lemma bigFloat_of_exactValue? (ha : a.exactValue? = some x) : a.bigFloat = .zero := by
  rcases exactValue?_eq_some_iff.1 ha with ⟨m, rfl, rfl⟩ | rfl <;> rfl

lemma beq_iff (ha : a.exactValue? = some x) (hb : b.exactValue? = some y) :
    (a == b) = true ↔ x = y := by
  simp [BEq.beq, eq, ha, hb]

lemma same_iff (ha : a.exactValue? = some x) (hb : b.exactValue? = some y) :
    a.same b = true ↔ x = y := by
  have hmark : a.bigFloat.sharesMark b.bigFloat = false := by
    rw [bigFloat_of_exactValue? ha]
    rfl
  rw [same, hmark, Bool.or_false, beq_iff ha hb]

/-- A quotient has the value of the quotient, unless the divisor is zero. -/
lemma div_eq_ok (ha : a.exactValue? = some x) (hb : b.exactValue? = some y) (hy : y ≠ 0) :
    a.div b = .ok (rational (x / y)) := by
  have hz : b.isZero = false := by simpa [hy] using isZero_iff hb
  simp [div, hz, ha, hb, pure, Except.pure]

/-- A whole power has the value of the power, where there is one. -/
lemma exactValue?_pow {v : Rat} (ha : a.exactValue? = some x) (hb : b.exactValue? = some y)
    (hv : powValue x y = some v) : ∃ c, a.pow b = .ok c ∧ c.exactValue? = some v := by
  obtain ⟨⟨hden, hle⟩, rfl⟩ := powValue_eq_some_iff.1 hv
  have hnum : x ≠ 0 ∨ 0 ≤ y.num := hle.imp_right Rat.num_nonneg.2
  have hzero : ¬(x = 0 ∧ y.num < 0) := by
    rintro ⟨hx, hlt⟩
    exact hnum.elim (fun h => h hx) (not_le.2 hlt)
  have hpow : a.pow b = powExact x y.num := by simp [pow, ha, hb, hden]
  rw [hpow, powExact, if_neg hzero]
  by_cases hwhole : x.den = 1 ∧ 0 ≤ y.num
  · refine ⟨integer (integerPower x.num y.num.natAbs), by rw [if_pos hwhole]; rfl, ?_⟩
    obtain ⟨m, rfl⟩ := exists_eq_intCast_of_den hwhole.1
    obtain ⟨k, hk⟩ := Int.eq_ofNat_of_zero_le hwhole.2
    simp [integerPower_eq, hk]
  · refine ⟨rational (rationalPower x y.num), by rw [if_neg hwhole]; rfl, ?_⟩
    rw [exactValue?_rational, rationalPower_eq x y.num hnum]

end Number

end SymbolicAlgebra
