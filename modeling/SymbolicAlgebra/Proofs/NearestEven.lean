import Mathlib.Algebra.Order.Archimedean.Basic
import Mathlib.Algebra.Order.Field.Power
import Mathlib.Tactic.Linarith
import SymbolicAlgebra.Proofs.BinaryValue

/-!
# Rounding to the nearest value

`IsNearestEven p q x` says which value a rational is rounded to: among those with a mantissa of at
most `p` bits, the nearest one, and of two that are equally near the one whose mantissa is even.
From two bits on there is one such value only (`IsNearestEven.unique`). It is what an integer times
a power of two (`isNearestEven_roundScaled`) and a quotient of integers (`isNearestEven_roundDiv`)
are rounded to.
-/

namespace SymbolicAlgebra

variable {p : Nat} {m n e : Int} {q r : Rat} {x y : Dyadic}

lemma toRat_scaled (n e : Int) : (scaled n e).toRat = n * 2 ^ e := by
  rw [scaled, Dyadic.toRat_ofIntWithPrec_eq_mul_two_pow, Int.neg_neg]

lemma ofOdd_eq_scaled (n k : Int) (hn : n % 2 = 1) : Dyadic.ofOdd n k hn = scaled n (-k) := by
  rw [scaled, Int.neg_neg, Dyadic.ofOdd_eq_ofIntWithPrec]

lemma exists_eq_scaled (x : Dyadic) : ∃ n e, x = scaled n e := by
  cases x with
  | zero => exact ⟨0, 0, rfl⟩
  | ofOdd n k hn => exact ⟨n, -k, ofOdd_eq_scaled n k hn⟩

/-- A value other than zero has an odd mantissa, which is not greater than any other. -/
lemma exists_odd_eq_scaled (hn : n ≠ 0) (e : Int) :
    ∃ m k, m % 2 = 1 ∧ scaled n e = scaled m k ∧ m.natAbs ≤ n.natAbs := by
  obtain ⟨m, k, hm, hmk, hle⟩ := exists_ofOdd_eq_scaled hn e
  exact ⟨m, -k, hm, hmk.trans (ofOdd_eq_scaled m k hm), hle⟩

lemma neg_scaled (n e : Int) : -scaled n e = scaled (-n) e :=
  Dyadic.neg_ofIntWithPrec

lemma dyadic_neg_neg (x : Dyadic) : - -x = x := by
  rw [← Dyadic.toRat_inj, Dyadic.toRat_neg, Dyadic.toRat_neg, neg_neg]

lemma toRat_shiftRight (x : Dyadic) (i : Int) : (x >>> i).toRat = x.toRat * 2 ^ (-i) := by
  obtain ⟨n, e, rfl⟩ := exists_eq_scaled x
  rw [scaled_shiftRight, toRat_scaled, toRat_scaled, mul_assoc, ← zpow_add₀ two_ne_zero,
    Int.sub_eq_add_neg]

lemma two_zpow_pos (e : Int) : (0 : Rat) < 2 ^ e :=
  zpow_pos two_pos e

/-- A shift to the left by a distance of either sign. -/
lemma two_zpow_mul_two_pow_toNat (e : Int) : (2 : Rat) ^ e * 2 ^ (-e).toNat = 2 ^ e.toNat := by
  rw [← zpow_natCast, ← zpow_natCast, ← zpow_add₀ two_ne_zero]
  congr 1
  omega

lemma abs_intCast_lt_two_pow : |(n : Rat)| < 2 ^ p ↔ n.natAbs < 2 ^ p := by
  rw [← Int.cast_abs, Int.abs_eq_natAbs]
  exact_mod_cast Iff.rfl

/-! ### Values of so many bits -/

/-- A value with a mantissa of at most `p` bits. -/
def FitsIn (p : Nat) (x : Dyadic) : Prop :=
  ∃ n e, n.natAbs < 2 ^ p ∧ x = scaled n e

lemma fitsIn_scaled_of_le (hp : 0 < p) (h : n.natAbs ≤ 2 ^ p) (e : Int) :
    FitsIn p (scaled n e) := by
  by_cases hn : n = 0
  · exact ⟨n, e, by simp [hn], rfl⟩
  · obtain ⟨m, k, hm, hmk, hle⟩ := exists_odd_eq_scaled hn e
    exact ⟨m, k, lt_two_pow_of_odd hp hm (hle.trans h), hmk⟩

lemma fitsIn_zero (p : Nat) : FitsIn p .zero :=
  ⟨0, 0, by simp, rfl⟩

/-- The values that fit are those that rounding leaves. -/
lemma fitsIn_iff (hp : 0 < p) : FitsIn p x ↔ roundDyadic p x = x := by
  constructor
  · rintro ⟨n, e, hn, rfl⟩
    exact roundDyadic_scaled_of_le hp hn.le
  · intro h
    obtain ⟨n, e, rfl⟩ := exists_eq_scaled x
    rw [roundDyadic_scaled] at h
    obtain ⟨m, e', heq, hle⟩ := exists_scaled_eq_roundScaled p n e
    rw [← h, heq]
    exact fitsIn_scaled_of_le hp hle e'

lemma FitsIn.neg (h : FitsIn p x) : FitsIn p (-x) := by
  obtain ⟨n, e, hn, rfl⟩ := h
  exact ⟨-n, e, by rwa [Int.natAbs_neg], neg_scaled n e⟩

lemma FitsIn.shiftRight (h : FitsIn p x) (i : Int) : FitsIn p (x >>> i) := by
  obtain ⟨n, e, hn, rfl⟩ := h
  exact ⟨n, e - i, hn, scaled_shiftRight n e i⟩

/-- A value that fits is a multiple of `2 ^ e`, unless it lies below the values that have `p` bits
from there on. -/
lemma FitsIn.multiple_or_lt (hp : 0 < p) (h : FitsIn p x) (e : Int) :
    (∃ k : Int, x.toRat = k * 2 ^ e) ∨ |x.toRat| < 2 ^ (p - 1) * 2 ^ e := by
  obtain ⟨n, e', hn, rfl⟩ := h
  rw [toRat_scaled]
  rcases le_or_gt e e' with he | he
  · left
    obtain ⟨i, hi⟩ := Int.eq_ofNat_of_zero_le (Int.sub_nonneg.2 he)
    refine ⟨n * 2 ^ i, ?_⟩
    push_cast
    rw [mul_assoc, ← zpow_natCast, ← zpow_add₀ two_ne_zero, show (i : Int) + e = e' by omega]
  · right
    have hbound : |(n : Rat)| < 2 ^ p := abs_intCast_lt_two_pow.2 hn
    have hstep : (2 : Rat) ^ e' ≤ 2 ^ (e - 1) := zpow_le_zpow_right₀ one_le_two (by omega)
    have hsplit : (2 : Rat) ^ p * 2 ^ (e - 1) = 2 ^ (p - 1) * 2 ^ e := by
      rw [← zpow_natCast, ← zpow_natCast, ← zpow_add₀ two_ne_zero, ← zpow_add₀ two_ne_zero]
      congr 1
      omega
    rw [abs_mul, abs_of_pos (two_zpow_pos e'), ← hsplit]
    exact mul_lt_mul hbound hstep (two_zpow_pos e') (by positivity)

/-! ### Nearest integers -/

/-- An integer within half a unit of a rational is not below a natural number that the rational
reaches. -/
lemma le_natAbs_of_near {N : Nat} (h : |r - m| ≤ 1 / 2) (hr : N ≤ |r|) : N ≤ m.natAbs := by
  have htriangle := abs_sub_abs_le_abs_sub r m
  have hlt : (N : Rat) < |(m : Rat)| + 1 := by linarith
  rw [← Int.cast_abs, Int.abs_eq_natAbs] at hlt
  exact Nat.le_of_lt_succ (by exact_mod_cast hlt)

/-- An integer within half a unit of a rational is not above a natural number that the rational does
not reach. -/
lemma natAbs_le_of_near {N : Nat} (h : |r - m| ≤ 1 / 2) (hr : |r| < N) : m.natAbs ≤ N := by
  have htriangle := abs_sub_abs_le_abs_sub (m : Rat) r
  rw [abs_sub_comm] at htriangle
  have hlt : |(m : Rat)| < N + 1 := by linarith
  rw [← Int.cast_abs, Int.abs_eq_natAbs] at hlt
  exact Nat.le_of_lt_succ (by exact_mod_cast hlt)

/-- The nearest integer to a rational, the even one of two. -/
structure IsNearestInteger (r : Rat) (m : Int) : Prop where
  near : |r - m| ≤ 1 / 2
  even_of_tie : |r - m| = 1 / 2 → Even m

lemma IsNearestInteger.half_le (h : IsNearestInteger r m) {k : Int} (hk : k ≠ m) :
    1 / 2 ≤ |r - k| := by
  have hapart : (1 : Rat) ≤ |(k : Rat) - m| := by
    exact_mod_cast Int.one_le_abs (sub_ne_zero.2 hk)
  have htriangle := abs_sub_le (k : Rat) r m
  rw [abs_sub_comm (k : Rat) r] at htriangle
  linarith [h.near]

lemma IsNearestInteger.le (h : IsNearestInteger r m) (k : Int) : |r - m| ≤ |r - k| := by
  by_cases hk : k = m
  · rw [hk]
  · exact h.near.trans (h.half_le hk)

lemma IsNearestInteger.even (h : IsNearestInteger r m) {k : Int} (hk : k ≠ m)
    (heq : |r - k| = |r - m|) : Even m :=
  h.even_of_tie (le_antisymm h.near (heq ▸ h.half_le hk))

lemma IsNearestInteger.neg (h : IsNearestInteger r m) : IsNearestInteger (-r) (-m) := by
  have hdist : |-r - (-m : Int)| = |r - m| := by
    rw [← abs_neg]
    push_cast
    congr 1
    ring
  exact ⟨hdist ▸ h.near, fun htie => (h.even_of_tie (hdist ▸ htie)).neg⟩

/-- The remainder of a quotient that lies halfway between two integers. -/
lemma two_mul_mod_of_tie {n d k : Nat} (hd : 0 < d)
    (h : 2 * n = 2 * (d * k) + d ∨ 2 * n + d = 2 * (d * k)) : 2 * (n % d) = d := by
  rcases h with h | h
  · obtain ⟨s, rfl⟩ : ∃ s, n = d * k + s := ⟨n - d * k, by omega⟩
    rw [Nat.mul_add_mod, Nat.mod_eq_of_lt (by omega)]
    omega
  · obtain ⟨k, rfl⟩ : ∃ k', k = k' + 1 := Nat.exists_eq_succ_of_ne_zero (by rintro rfl; omega)
    rw [Nat.mul_succ] at h
    obtain ⟨s, rfl⟩ : ∃ s, n = d * k + s := ⟨n - d * k, by omega⟩
    rw [Nat.mul_add_mod, Nat.mod_eq_of_lt (by omega)]
    omega

/-- A quotient of natural numbers is rounded to the nearest integer. -/
lemma isNearestInteger_roundQuotient (n : Nat) {d : Nat} (hd : 0 < d) :
    IsNearestInteger ((n : Rat) / d) (roundQuotient n d) := by
  obtain ⟨hlow, hhigh⟩ := roundQuotient_near n d hd
  have hd' : (0 : Rat) < d := Nat.cast_pos.2 hd
  have hdist : |(n : Rat) / d - (roundQuotient n d : Int)| =
      |(n : Rat) - d * roundQuotient n d| / d := by
    rw [← abs_of_pos hd', ← abs_div, abs_of_pos hd', sub_div, mul_div_cancel_left₀ _ hd'.ne']
    rfl
  refine ⟨?_, fun htie => ?_⟩
  · have hlow : (2 * n : Rat) ≤ 2 * (d * roundQuotient n d) + d := by exact_mod_cast hlow
    have hhigh : (2 * (d * roundQuotient n d) : Rat) ≤ 2 * n + d := by exact_mod_cast hhigh
    rw [hdist, div_le_iff₀ hd', abs_le]
    constructor <;> linarith
  · rw [hdist, div_eq_iff hd'.ne'] at htie
    have hmod : 2 * (n % d) = d := by
      refine two_mul_mod_of_tie (k := roundQuotient n d) hd
        ((eq_or_eq_neg_of_abs_eq htie).imp (fun h => ?_) fun h => ?_)
      · have : (2 * n : Rat) = 2 * (d * roundQuotient n d) + d := by linarith
        exact_mod_cast this
      · have : (2 * n + d : Rat) = 2 * (d * roundQuotient n d) := by linarith
        exact_mod_cast this
    exact_mod_cast Nat.even_iff.2 (roundQuotient_even n d hmod)

/-- A quotient of an integer is rounded by its absolute value. -/
lemma isNearestInteger_sign_mul (a : Int) {d : Nat} (hd : 0 < d) :
    IsNearestInteger ((a : Rat) / d) (a.sign * roundQuotient a.natAbs d) := by
  have hpos := isNearestInteger_roundQuotient a.natAbs hd
  rcases lt_trichotomy a 0 with ha | rfl | ha
  · rw [Nat.cast_natAbs, abs_of_neg ha, Int.cast_neg, neg_div] at hpos
    rw [Int.sign_eq_neg_one_of_neg ha, Int.neg_one_mul]
    simpa using hpos.neg
  · rw [Int.sign_zero, zero_mul, Int.cast_zero, zero_div]
    exact ⟨by norm_num, fun h => by norm_num at h⟩
  · rw [Nat.cast_natAbs, abs_of_pos ha] at hpos
    rwa [Int.sign_eq_one_of_pos ha, Int.one_mul]

/-! ### The nearest value -/

/-- A value whose mantissa of just `p` bits is even. -/
def HasEvenMantissa (p : Nat) (x : Dyadic) : Prop :=
  ∃ n e, Even n ∧ 2 ^ (p - 1) ≤ n.natAbs ∧ n.natAbs < 2 ^ p ∧ x = scaled n e

/-- An even mantissa that became one bit longer by rounding is a power of two, so that half of it is
even too. -/
lemma hasEvenMantissa_scaled (hp : 2 ≤ p) (heven : Even m) (hlow : 2 ^ (p - 1) ≤ m.natAbs)
    (hhigh : m.natAbs ≤ 2 ^ p) (e : Int) : HasEvenMantissa p (scaled m e) := by
  rcases hhigh.lt_or_eq with hlt | htop
  · exact ⟨m, e, heven, hlow, hlt, rfl⟩
  · obtain ⟨i, rfl⟩ : ∃ i, m = i * 2 ^ 1 := by
      obtain ⟨i, hi⟩ := heven
      exact ⟨i, by omega⟩
    obtain ⟨k, rfl⟩ : ∃ k, p = k + 2 := ⟨p - 2, by omega⟩
    have hpos := Nat.two_pow_pos k
    rw [Nat.pow_succ, Nat.pow_succ] at htop
    have hi : i.natAbs = 2 ^ k * 2 := by omega
    refine ⟨i, e + 1, Int.even_iff.2 (by omega), ?_, ?_, scaled_mul_two_pow i 1 e⟩
    · rw [show k + 2 - 1 = k + 1 by omega, Nat.pow_succ, hi]
    · rw [Nat.pow_succ, Nat.pow_succ, hi]
      omega

/-- The value nearest to a rational among those with a mantissa of at most `p` bits. Of two that are
equally near, it is the one whose mantissa is even. -/
structure IsNearestEven (p : Nat) (q : Rat) (x : Dyadic) : Prop where
  fits : FitsIn p x
  nearest : ∀ y, FitsIn p y → |q - x.toRat| ≤ |q - y.toRat|
  even_of_tie : ∀ y, FitsIn p y → y ≠ x → |q - y.toRat| = |q - x.toRat| → HasEvenMantissa p x

/-- A value that fits is nearest to itself. -/
lemma FitsIn.isNearestEven (h : FitsIn p x) : IsNearestEven p x.toRat x where
  fits := h
  nearest y _ := by
    rw [sub_self, abs_zero]
    exact abs_nonneg _
  even_of_tie y _ hne heq := by
    rw [sub_self, abs_zero, abs_eq_zero, sub_eq_zero] at heq
    exact absurd (Dyadic.toRat_inj.1 heq).symm hne

lemma IsNearestEven.shiftRight (h : IsNearestEven p q x) (i : Int) :
    IsNearestEven p (q * 2 ^ (-i)) (x >>> i) := by
  have hdist (y : Dyadic) : |q * 2 ^ (-i) - (y >>> i).toRat| = |q - y.toRat| * 2 ^ (-i) := by
    rw [toRat_shiftRight, ← sub_mul, abs_mul, abs_of_pos (two_zpow_pos (-i))]
  have hback (y : Dyadic) : (y >>> (-i)) >>> i = y := by
    rw [← Dyadic.toRat_inj, toRat_shiftRight, toRat_shiftRight, mul_assoc, ← zpow_add₀ two_ne_zero]
    simp
  refine ⟨h.fits.shiftRight i, fun y hy => ?_, fun y hy hne heq => ?_⟩
  · rw [← hback y, hdist, hdist]
    exact mul_le_mul_of_nonneg_right (h.nearest _ (hy.shiftRight (-i))) (two_zpow_pos _).le
  · rw [← hback y, hdist, hdist] at heq
    obtain ⟨n, e, heven, hlow, hhigh, rfl⟩ := h.even_of_tie _ (hy.shiftRight (-i))
      (fun hx => hne (by rw [← hx, hback])) (mul_right_cancel₀ (two_zpow_pos _).ne' heq)
    exact ⟨n, e - i, heven, hlow, hhigh, scaled_shiftRight n e i⟩

lemma IsNearestEven.neg (h : IsNearestEven p q x) : IsNearestEven p (-q) (-x) := by
  have hdist (y : Dyadic) : |-q - (-y).toRat| = |q - y.toRat| := by
    rw [Dyadic.toRat_neg, ← abs_neg]
    congr 1
    ring
  refine ⟨h.fits.neg, fun y hy => ?_, fun y hy hne heq => ?_⟩
  · rw [← dyadic_neg_neg y, hdist, hdist]
    exact h.nearest _ hy.neg
  · rw [← dyadic_neg_neg y, hdist, hdist] at heq
    obtain ⟨n, e, heven, hlow, hhigh, rfl⟩ :=
      h.even_of_tie _ hy.neg (fun hx => hne (by rw [← hx, dyadic_neg_neg])) heq
    exact ⟨-n, e, heven.neg, by rwa [Int.natAbs_neg], by rwa [Int.natAbs_neg], neg_scaled n e⟩

/-- A rational with `p` bits before the point is rounded to the nearest integer. -/
lemma IsNearestInteger.isNearestEven (hp : 2 ≤ p) (h : IsNearestInteger r m)
    (hlow : 2 ^ (p - 1) ≤ |r|)
    (hhigh : |r| < 2 ^ p) (e : Int) : IsNearestEven p (r * 2 ^ e) (scaled m e) := by
  have hp₀ : 0 < p := by omega
  have hdist (s : Rat) : |r * 2 ^ e - s * 2 ^ e| = |r - s| * 2 ^ e := by
    rw [← sub_mul, abs_mul, abs_of_pos (two_zpow_pos e)]
  have hmhigh : m.natAbs ≤ 2 ^ p := natAbs_le_of_near h.near (by exact_mod_cast hhigh)
  have hmlow : 2 ^ (p - 1) ≤ m.natAbs := le_natAbs_of_near h.near (by exact_mod_cast hlow)
  -- a value below those with `p` bits is further away than the least integer with `p` bits
  have hfar (y : Dyadic) (hy : |y.toRat| < 2 ^ (p - 1) * 2 ^ e) :
      |r * 2 ^ e - (scaled m e).toRat| < |r * 2 ^ e - y.toRat| := by
    obtain ⟨k, hk⟩ : ∃ k : Int, |r - k| = |r| - 2 ^ (p - 1) := by
      rcases le_total 0 r with hr | hr
      · refine ⟨2 ^ (p - 1), ?_⟩
        push_cast
        rw [abs_of_nonneg hr] at hlow ⊢
        exact abs_of_nonneg (by linarith)
      · refine ⟨-2 ^ (p - 1), ?_⟩
        push_cast
        rw [abs_of_nonpos hr] at hlow ⊢
        rw [abs_of_nonpos (by linarith)]
        ring
    have htriangle := abs_sub_abs_le_abs_sub (r * 2 ^ e) y.toRat
    rw [abs_mul, abs_of_pos (two_zpow_pos e)] at htriangle
    calc |r * 2 ^ e - (scaled m e).toRat| = |r - m| * 2 ^ e := by rw [toRat_scaled, hdist]
      _ ≤ |r - k| * 2 ^ e := mul_le_mul_of_nonneg_right (h.le k) (two_zpow_pos e).le
      _ = |r| * 2 ^ e - 2 ^ (p - 1) * 2 ^ e := by rw [hk, sub_mul]
      _ < |r * 2 ^ e - y.toRat| := by linarith
  refine ⟨fitsIn_scaled_of_le hp₀ hmhigh e, fun y hy => ?_, fun y hy hne heq => ?_⟩
  · rcases hy.multiple_or_lt hp₀ e with ⟨k, hk⟩ | hsmall
    · rw [toRat_scaled, hk, hdist, hdist]
      exact mul_le_mul_of_nonneg_right (h.le k) (two_zpow_pos e).le
    · exact (hfar y hsmall).le
  · rcases hy.multiple_or_lt hp₀ e with ⟨k, hk⟩ | hsmall
    · have hkm : k ≠ m := by
        rintro rfl
        exact hne (Dyadic.toRat_inj.1 (hk.trans (toRat_scaled k e).symm))
      rw [toRat_scaled, hk, hdist, hdist] at heq
      exact hasEvenMantissa_scaled hp (h.even hkm (mul_right_cancel₀ (two_zpow_pos e).ne' heq))
        hmlow hmhigh e
    · exact absurd heq (hfar y hsmall).ne'

/-- A rational equally far from two different values with even mantissas is nearest to neither: on
the finer of their two grids there is a mantissa between theirs. -/
lemma not_isNearestEven_of_two (hp : 0 < p) {m n e e' : Int} (hm : Even m) (hmlt : m.natAbs < 2 ^ p)
    (hn : Even n) (he : e ≤ e') (hne : scaled m e ≠ scaled n e')
    (heq : |q - (scaled m e).toRat| = |q - (scaled n e').toRat|) :
    ¬IsNearestEven p q (scaled m e) := by
  intro h
  obtain ⟨i, hi⟩ := Int.eq_ofNat_of_zero_le (Int.sub_nonneg.2 he)
  obtain ⟨k, hk, hkn⟩ : ∃ k, Even k ∧ scaled n e' = scaled k e := by
    refine ⟨n * 2 ^ i, hn.mul_right _, ?_⟩
    rw [scaled_mul_two_pow, ← hi]
    congr 1
    omega
  rw [hkn] at hne heq
  have hkm : k ≠ m := fun hkm => hne (by rw [hkm])
  obtain ⟨j, hj⟩ : Even (k - m) := hk.sub hm
  have hgrid := two_zpow_pos e
  simp only [toRat_scaled] at heq
  -- `q` is the mean of the two values
  have hmean : q = (m + j) * 2 ^ e := by
    have hkj : (k : Rat) = m + (j + j) := by exact_mod_cast (by omega : k = m + (j + j))
    rcases abs_eq_abs.1 heq with h | h
    · have hsame : (m : Rat) * 2 ^ e = k * 2 ^ e := by linarith
      exact absurd (by exact_mod_cast mul_right_cancel₀ hgrid.ne' hsame : m = k) hkm.symm
    · rw [hkj] at h
      linarith
  have hcloser (s : Int) (hs : s.natAbs = 1) (hjs : |(j : Rat) - s| < |(j : Rat)|) : False := by
    have hnear := h.nearest (scaled (m + s) e) (fitsIn_scaled_of_le hp (by omega) e)
    rw [toRat_scaled, toRat_scaled, hmean, ← sub_mul, ← sub_mul, abs_mul, abs_mul,
      abs_of_pos hgrid] at hnear
    have hnear := le_of_mul_le_mul_right hnear hgrid
    rw [Int.cast_add, add_sub_cancel_left, add_sub_add_left_eq_sub] at hnear
    linarith
  rcases lt_or_gt_of_ne (show j ≠ 0 by omega) with hneg | hpos
  · refine hcloser (-1) rfl ?_
    have hj : (j : Rat) ≤ -1 := by exact_mod_cast (by omega : j ≤ -1)
    push_cast
    rw [abs_of_neg (show (j : Rat) < 0 by linarith), abs_of_nonpos (by linarith)]
    linarith
  · refine hcloser 1 rfl ?_
    have hj : (1 : Rat) ≤ j := by exact_mod_cast (by omega : 1 ≤ j)
    push_cast
    rw [abs_of_pos (show (0 : Rat) < j by linarith), abs_of_nonneg (by linarith)]
    linarith

/-- A rational is rounded to one value. -/
theorem IsNearestEven.unique (hp : 0 < p) (hx : IsNearestEven p q x)
    (hy : IsNearestEven p q y) : x = y := by
  by_contra hne
  have heq := le_antisymm (hx.nearest y hy.fits) (hy.nearest x hx.fits)
  obtain ⟨m, e, hm, -, hmlt, rfl⟩ := hx.even_of_tie y hy.fits (Ne.symm hne) heq.symm
  obtain ⟨n, e', hn, -, hnlt, rfl⟩ := hy.even_of_tie _ hx.fits hne heq
  rcases le_total e e' with he | he
  · exact not_isNearestEven_of_two hp hm hmlt hn he hne heq hx
  · exact not_isNearestEven_of_two hp hn hnlt hm he (Ne.symm hne) heq.symm hy

/-- The place of the last of the first `p` bits of a rational. -/
lemma exists_place (hp : 0 < p) (hq : q ≠ 0) :
    ∃ e : Int, 2 ^ (p - 1) * 2 ^ e ≤ |q| ∧ |q| < 2 ^ p * 2 ^ e := by
  obtain ⟨t, hlow, hhigh⟩ := exists_mem_Ico_zpow (abs_pos.2 hq) (one_lt_two (α := Rat))
  refine ⟨t - (p - 1 : Nat), ?_, ?_⟩
  · rwa [← zpow_natCast, ← zpow_add₀ two_ne_zero, add_sub_cancel]
  · rwa [← zpow_natCast, ← zpow_add₀ two_ne_zero,
      show (p : Int) + (t - (p - 1 : Nat)) = t + 1 by omega]

/-- The nearest value is at most half a unit of the last of its `p` bits away. -/
theorem IsNearestEven.relative_error (hp : 0 < p) (h : IsNearestEven p q x) :
    |q - x.toRat| ≤ |q| / 2 ^ p := by
  by_cases hq : q = 0
  · have hzero := h.nearest .zero (fitsIn_zero p)
    rw [hq] at hzero ⊢
    simpa [Dyadic.zero_eq] using hzero
  · obtain ⟨e, hlow, hhigh⟩ := exists_place hp hq
    have hgrid := two_zpow_pos e
    have hround := abs_sub_round (q / 2 ^ e)
    have hfits : FitsIn p (scaled (round (q / 2 ^ e)) e) := by
      refine fitsIn_scaled_of_le hp (natAbs_le_of_near hround ?_) e
      rw [abs_div, abs_of_pos hgrid, div_lt_iff₀ hgrid]
      exact_mod_cast hhigh
    have hpow : (2 : Rat) ^ p = 2 ^ (p - 1) * 2 := by
      rw [← pow_succ]
      congr 1
      omega
    calc |q - x.toRat| ≤ |q - (scaled (round (q / 2 ^ e)) e).toRat| := h.nearest _ hfits
      _ = |q / 2 ^ e - round (q / 2 ^ e)| * 2 ^ e := by
        rw [toRat_scaled, ← abs_of_pos hgrid, ← abs_mul, abs_of_pos hgrid, sub_mul,
          div_mul_cancel₀ q hgrid.ne']
      _ ≤ 1 / 2 * 2 ^ e := mul_le_mul_of_nonneg_right hround hgrid.le
      _ ≤ |q| / 2 ^ p := by
        rw [le_div_iff₀ (by positivity), hpow]
        linarith

/-! ### The rounding functions -/

/-- An integer times a power of two is rounded to the nearest value. -/
theorem isNearestEven_roundScaled (hp : 2 ≤ p) (n e : Int) :
    IsNearestEven p (n * 2 ^ e) (roundScaled p n e) := by
  rw [roundScaled]
  split
  · next hfits =>
    rw [← toRat_scaled]
    exact FitsIn.isNearestEven ⟨n, e, bitLength_le_iff.1 (Nat.sub_eq_zero_iff_le.1 hfits), rfl⟩
  · next hlong =>
    set i := bitLength n.natAbs - p with hi
    have hpow : (0 : Rat) < 2 ^ i := by positivity
    have hn : 2 ^ (p - 1) * 2 ^ i ≤ n.natAbs ∧ n.natAbs < 2 ^ p * 2 ^ i := by
      rw [← Nat.pow_add, ← Nat.pow_add]
      refine ⟨not_lt.1 fun hlt => ?_, bitLength_le_iff.1 (by omega)⟩
      have := bitLength_le_iff.2 hlt
      omega
    have hr : (n : Rat) * 2 ^ e = n / (2 ^ i : Nat) * 2 ^ (e + i) := by
      push_cast
      rw [zpow_add₀ two_ne_zero, zpow_natCast]
      field_simp
    have habs : |(n : Rat) / (2 ^ i : Nat)| = n.natAbs / 2 ^ i := by
      push_cast
      rw [abs_div, abs_of_pos hpow, Nat.cast_natAbs, Int.cast_abs]
    rw [hr, Nat.one_shiftLeft]
    refine (isNearestInteger_sign_mul n (Nat.two_pow_pos i)).isNearestEven hp ?_ ?_ _
    · rw [habs, le_div_iff₀ hpow]
      exact_mod_cast hn.1
    · rw [habs, div_lt_iff₀ hpow]
      exact_mod_cast hn.2

lemma two_zpow_log2Quotient {a b : Nat} (ha : a ≠ 0) (hb : b ≠ 0) :
    (2 : Rat) ^ log2Quotient a b ≤ a / b ∧ (a : Rat) / b < 2 ^ (log2Quotient a b + 1) := by
  have hb' : (0 : Rat) < b := Nat.cast_pos.2 (Nat.pos_of_ne_zero hb)
  have hlog {n : Nat} (hn : n ≠ 0) : (2 : Rat) ^ (n.log2 : Int) ≤ n ∧
      (n : Rat) < 2 ^ ((n.log2 : Int) + 1) := by
    rw [show (n.log2 : Int) + 1 = (n.log2 + 1 : Nat) by push_cast; rfl, zpow_natCast, zpow_natCast]
    exact ⟨by exact_mod_cast Nat.log2_self_le hn, by exact_mod_cast Nat.lt_log2_self⟩
  obtain ⟨halow, hahigh⟩ := hlog ha
  obtain ⟨hblow, hbhigh⟩ := hlog hb
  have hcompare (t : Int) : b <<< t.toNat ≤ a <<< (-t).toNat ↔ (2 : Rat) ^ t ≤ a / b := by
    rw [Nat.shiftLeft_eq, Nat.shiftLeft_eq, le_div_iff₀ hb', ← mul_le_mul_iff_left₀
      (show (0 : Rat) < 2 ^ (-t).toNat by positivity), mul_right_comm,
      two_zpow_mul_two_pow_toNat, mul_comm _ (b : Rat)]
    exact_mod_cast Iff.rfl
  rw [log2Quotient]
  split
  · next h =>
    refine ⟨(hcompare _).1 h, ?_⟩
    rw [div_lt_iff₀ hb']
    calc (a : Rat) < 2 ^ ((a.log2 : Int) + 1) := hahigh
      _ = 2 ^ ((a.log2 : Int) - b.log2 + 1) * 2 ^ (b.log2 : Int) := by
        rw [← zpow_add₀ two_ne_zero]
        congr 1
        omega
      _ ≤ 2 ^ ((a.log2 : Int) - b.log2 + 1) * b :=
        mul_le_mul_of_nonneg_left hblow (two_zpow_pos _).le
  · next h =>
    rw [hcompare, not_le] at h
    refine ⟨?_, by rwa [sub_add_cancel]⟩
    rw [le_div_iff₀ hb']
    calc (2 : Rat) ^ ((a.log2 : Int) - b.log2 - 1) * b
        ≤ 2 ^ ((a.log2 : Int) - b.log2 - 1) * 2 ^ ((b.log2 : Int) + 1) :=
          mul_le_mul_of_nonneg_left hbhigh.le (two_zpow_pos _).le
      _ = 2 ^ (a.log2 : Int) := by
        rw [← zpow_add₀ two_ne_zero]
        congr 1
        omega
      _ ≤ a := halow

/-- A quotient of integers is rounded to the nearest value. -/
theorem isNearestEven_roundDiv (hp : 2 ≤ p) (a : Int) {b : Nat} (hb : b ≠ 0) :
    IsNearestEven p (a / b) (roundDiv p a b) := by
  rw [roundDiv]
  split
  · next ha =>
    rw [ha, Int.cast_zero, zero_div]
    exact (fitsIn_zero p).isNearestEven
  · next ha =>
    obtain ⟨hlow, hhigh⟩ := two_zpow_log2Quotient (Int.natAbs_ne_zero.2 ha) hb
    set t := log2Quotient a.natAbs b
    set s : Int := p - 1 - t with hs
    have hb' : (0 : Rat) < b := Nat.cast_pos.2 (Nat.pos_of_ne_zero hb)
    -- numerator and denominator are shifted so that the quotient has `p` bits before the point
    have hshift : ((a * 2 ^ s.toNat : Int) : Rat) / (b * 2 ^ (-s).toNat : Nat) = a / b * 2 ^ s := by
      push_cast
      rw [← two_zpow_mul_two_pow_toNat s]
      field_simp
    have habs : |(a : Rat) / b * 2 ^ s| = a.natAbs / b * 2 ^ s := by
      rw [abs_mul, abs_div, abs_of_pos hb', abs_of_pos (two_zpow_pos s), Nat.cast_natAbs,
        Int.cast_abs]
    have hnatAbs : (a * 2 ^ s.toNat).natAbs = a.natAbs <<< s.toNat := by
      rw [Int.natAbs_mul, Nat.shiftLeft_eq, Int.natAbs_pow]
      rfl
    have hsign : (a * 2 ^ s.toNat).sign = a.sign := by
      rw [Int.sign_mul, Int.sign_eq_one_of_pos (a := 2 ^ s.toNat) (by positivity), Int.mul_one]
    have hdiv : (a : Rat) / b = a / b * 2 ^ s * 2 ^ (-s) := by
      rw [mul_assoc, ← zpow_add₀ two_ne_zero]
      simp
    have hnear := isNearestInteger_sign_mul (a * 2 ^ s.toNat)
      (Nat.mul_pos (Nat.pos_of_ne_zero hb) (Nat.two_pow_pos (-s).toNat))
    rw [hshift, hnatAbs, hsign, ← Nat.shiftLeft_eq b] at hnear
    rw [hdiv]
    refine hnear.isNearestEven hp ?_ ?_ (-s)
    · have hbound := mul_le_mul_of_nonneg_right hlow (two_zpow_pos s).le
      rw [← zpow_add₀ two_ne_zero, show t + s = (p - 1 : Nat) by omega, zpow_natCast] at hbound
      rwa [habs]
    · have hbound := mul_lt_mul_of_pos_right hhigh (two_zpow_pos s)
      rw [← zpow_add₀ two_ne_zero, show t + 1 + s = (p : Nat) by omega, zpow_natCast] at hbound
      rwa [habs]

end SymbolicAlgebra
