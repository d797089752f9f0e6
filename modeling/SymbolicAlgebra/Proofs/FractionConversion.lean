import Mathlib.RingTheory.Int.Basic
import SymbolicAlgebra.Operand.Function
import SymbolicAlgebra.Proofs.NearestEven

/-!
# Conversion of fractions to binary values

A fraction is converted in two steps: its numerator is rounded, and then the quotient of that by the
exact denominator. The outcome is the value nearest to the fraction unless the first step takes the
quotient across a midpoint, a value halfway between two neighbours (`IsNearestEven.eq_iff`).
-/

namespace SymbolicAlgebra

variable {p : Nat} {n e : Int} {q r : Rat} {m x y : Dyadic}

/-! ### Mantissas -/

/-- An odd mantissa is the shortest one. -/
lemma natAbs_lt_of_fitsIn (hn : n % 2 = 1) (h : FitsIn p (scaled n e)) : n.natAbs < 2 ^ p := by
  obtain ⟨k, e', hk, heq⟩ := h
  have hodd : scaled n e = .ofOdd n (-e) hn := by rw [ofOdd_eq_scaled, Int.neg_neg]
  have hk₀ : k ≠ 0 := by
    rintro rfl
    rw [hodd] at heq
    cases heq
  obtain ⟨k', i, hk', hscaled, hle⟩ := exists_ofOdd_eq_scaled hk₀ e'
  rw [hodd, hscaled] at heq
  obtain ⟨rfl, -⟩ := Dyadic.ofOdd.inj heq
  exact hle.trans_lt hk

/-- A positive value that fits has a mantissa of just `p` bits. -/
lemma FitsIn.exists_mantissa (hp : 0 < p) (h : FitsIn p x) (hx : 0 < x.toRat) :
    ∃ n e : Int, 2 ^ (p - 1) ≤ n ∧ n < 2 ^ p ∧ x = scaled n e := by
  obtain ⟨n, e, hn, rfl⟩ := h
  rw [toRat_scaled] at hx
  have hpos : 0 < n := by exact_mod_cast (mul_pos_iff_of_pos_right (two_zpow_pos e)).1 hx
  lift n to Nat using hpos.le
  rw [Int.natAbs_natCast] at hn
  have hn₀ : n ≠ 0 := by omega
  have hlog : n.log2 < p := (Nat.log2_lt hn₀).2 hn
  obtain ⟨i, hi⟩ : ∃ i, p = n.log2 + 1 + i := ⟨p - 1 - n.log2, by omega⟩
  refine ⟨n * 2 ^ i, e - i, ?_, ?_, ?_⟩
  · have hlow := Nat.mul_le_mul_right (2 ^ i) (Nat.log2_self_le hn₀)
    rw [← Nat.pow_add, show n.log2 + i = p - 1 by omega] at hlow
    exact_mod_cast hlow
  · have hhigh := Nat.mul_lt_mul_of_pos_right (Nat.lt_log2_self (n := n)) (Nat.two_pow_pos i)
    rw [← Nat.pow_add, ← hi] at hhigh
    exact_mod_cast hhigh
  · rw [scaled_mul_two_pow]
    congr 1
    omega

/-- An odd factor of a value divides every mantissa of it. -/
lemma dvd_of_mul_two_zpow_eq {a k d e e' : Int} (hk : k % 2 = 1)
    (h : (a : Rat) * 2 ^ e' = k * 2 ^ e * d) : k ∣ a := by
  rcases le_total e e' with he | he
  · obtain ⟨j, hj⟩ := Int.eq_ofNat_of_zero_le (Int.sub_nonneg.2 he)
    have hmul : a * 2 ^ j = k * d := by
      have hrat : (a : Rat) * 2 ^ j * 2 ^ e = k * d * 2 ^ e := by
        rw [mul_assoc, ← zpow_natCast, ← zpow_add₀ two_ne_zero, show (j : Int) + e = e' by omega, h]
        ring
      exact_mod_cast mul_right_cancel₀ (two_zpow_pos e).ne' hrat
    have hcoprime : IsCoprime k (2 ^ j) :=
      (Int.isCoprime_two_right.2 (Int.odd_iff.2 hk)).pow_right
    exact hcoprime.dvd_of_dvd_mul_right ⟨d, hmul⟩
  · obtain ⟨j, hj⟩ := Int.eq_ofNat_of_zero_le (Int.sub_nonneg.2 he)
    have hsplit : (2 : Rat) ^ j * 2 ^ e' = 2 ^ e := by
      rw [← zpow_natCast, ← zpow_add₀ two_ne_zero, show (j : Int) + e' = e by omega]
    have hrat : (a : Rat) * 2 ^ e' = k * (d * 2 ^ j) * 2 ^ e' := by
      rw [h, ← hsplit]
      ring
    exact ⟨d * 2 ^ j, by exact_mod_cast mul_right_cancel₀ (two_zpow_pos e').ne' hrat⟩

/-- A value fits if a multiple of it does. -/
lemma FitsIn.of_mul {d : Nat} (hd : d ≠ 0) (hx : FitsIn p x) (h : x.toRat = m.toRat * d) :
    FitsIn p m := by
  cases m with
  | zero => exact fitsIn_zero p
  | ofOdd k i hk =>
    obtain ⟨a, e, ha, rfl⟩ := hx
    rw [ofOdd_eq_scaled, toRat_scaled, toRat_scaled] at h
    have ha₀ : a ≠ 0 := by
      rintro rfl
      have hk₀ : (k : Rat) ≠ 0 := by
        rintro hzero
        obtain rfl : k = 0 := by exact_mod_cast hzero
        cases hk
      rw [Int.cast_zero, zero_mul] at h
      exact mul_ne_zero (mul_ne_zero hk₀ (two_zpow_pos (-i)).ne') (Nat.cast_ne_zero.2 hd) h.symm
    have hdvd : k ∣ a := dvd_of_mul_two_zpow_eq (d := d) hk h
    exact ⟨k, -i, (Int.natAbs_le_of_dvd_ne_zero hdvd ha₀).trans_lt ha, ofOdd_eq_scaled k i hk⟩

/-! ### Midpoints -/

/-- A value halfway between two neighbours of `p` bits: its mantissa has one bit more. -/
def IsMidpoint (p : Nat) (m : Dyadic) : Prop :=
  FitsIn (p + 1) m ∧ ¬FitsIn p m

/-- A value that lies strictly between two rationals. -/
def LiesBetween (m : Dyadic) (q r : Rat) : Prop :=
  (q < m.toRat ∧ m.toRat < r) ∨ (r < m.toRat ∧ m.toRat < q)

lemma IsMidpoint.neg (h : IsMidpoint p m) : IsMidpoint p (-m) := by
  refine ⟨h.1.neg, fun hfits => h.2 ?_⟩
  exact dyadic_neg_neg m ▸ hfits.neg

lemma LiesBetween.neg (h : LiesBetween m q r) : LiesBetween (-m) (-q) (-r) := by
  rw [LiesBetween, Dyadic.toRat_neg, neg_lt_neg_iff, neg_lt_neg_iff, neg_lt_neg_iff, neg_lt_neg_iff]
  exact h.symm.imp And.symm And.symm

/-- The two neighbours of a midpoint. -/
lemma IsMidpoint.exists_neighbours (hp : 0 < p) (h : IsMidpoint p m) :
    ∃ l u, FitsIn p l ∧ FitsIn p u ∧
    l.toRat < u.toRat ∧ l.toRat + u.toRat = 2 * m.toRat ∧
      ∀ y, FitsIn p y → y.toRat ≤ l.toRat ∨ u.toRat ≤ y.toRat := by
  obtain ⟨⟨n, e, hn, rfl⟩, hlong⟩ := h
  have hn₀ : n ≠ 0 := by
    rintro rfl
    exact hlong (fitsIn_zero p)
  obtain ⟨k, i, hk, hscaled, hle⟩ := exists_odd_eq_scaled hn₀ e
  obtain ⟨j, rfl⟩ : ∃ j, k = 2 * j + 1 := ⟨k / 2, by omega⟩
  rw [hscaled] at hlong ⊢
  have hlow : 2 ^ p ≤ (2 * j + 1).natAbs := not_lt.1 fun hlt => hlong ⟨_, _, hlt, rfl⟩
  have hgrid := two_zpow_pos (i + 1)
  have hdouble : (2 : Rat) ^ (i + 1) = 2 ^ i * 2 := zpow_add_one₀ two_ne_zero _
  have hpow : 2 ^ p = 2 ^ (p - 1) * 2 := by
    rw [← Nat.pow_succ]
    congr 1
    omega
  rw [Nat.pow_succ] at hn
  refine ⟨scaled j (i + 1), scaled (j + 1) (i + 1), fitsIn_scaled_of_le hp (by omega) _,
    fitsIn_scaled_of_le hp (by omega) _, ?_, ?_, fun y hy => ?_⟩
  · rw [toRat_scaled, toRat_scaled]
    exact mul_lt_mul_of_pos_right (by exact_mod_cast Int.lt_succ j) hgrid
  · rw [toRat_scaled, toRat_scaled, toRat_scaled, hdouble]
    push_cast
    ring
  · rw [toRat_scaled, toRat_scaled]
    rcases hy.multiple_or_lt hp (i + 1) with ⟨k, hk⟩ | hsmall
    · rw [hk]
      refine (le_or_gt k j).imp (fun hkj => ?_) fun hkj => ?_
      · exact mul_le_mul_of_nonneg_right (by exact_mod_cast hkj) hgrid.le
      · exact mul_le_mul_of_nonneg_right (by exact_mod_cast hkj) hgrid.le
    · -- the neighbours have all of the `p` bits
      rw [abs_lt] at hsmall
      rcases le_or_gt 0 j with hj | hj
      · left
        have hj : (2 ^ (p - 1) : Rat) ≤ j := by
          exact_mod_cast (by omega : ((2 ^ (p - 1) : Nat) : Int) ≤ j)
        exact hsmall.2.le.trans (mul_le_mul_of_nonneg_right hj hgrid.le)
      · right
        have hj : ((j + 1 : Int) : Rat) ≤ -2 ^ (p - 1) := by
          exact_mod_cast (by omega : j + 1 ≤ -((2 ^ (p - 1) : Nat) : Int))
        refine (mul_le_mul_of_nonneg_right hj hgrid.le).trans ?_
        rw [neg_mul]
        exact hsmall.1.le

lemma two_mul_le_of_abs_le {a b : Rat} (h : |q - a| ≤ |q - b|) (hab : a < b) : 2 * q ≤ a + b := by
  by_contra hlt
  rw [abs_of_pos (by linarith), le_abs] at h
  rcases h with h | h <;> linarith

lemma le_two_mul_of_abs_le {a b : Rat} (h : |q - b| ≤ |q - a|) (hab : a < b) : a + b ≤ 2 * q := by
  by_contra hlt
  rw [abs_of_neg (by linarith), le_abs] at h
  rcases h with h | h <;> linarith

/-- Rationals that are rounded to the same value have no midpoint between them. -/
lemma IsNearestEven.not_liesBetween (hp : 0 < p) (hq : IsNearestEven p q x)
    (hr : IsNearestEven p r x) (hm : IsMidpoint p m) : ¬LiesBetween m q r := by
  obtain ⟨l, u, hl, hu, hlu, hmean, hgap⟩ := hm.exists_neighbours hp
  have hbelow {q : Rat} (hq : IsNearestEven p q x) (hqm : q < m.toRat) : x.toRat < u.toRat := by
    by_contra hxu
    have := le_two_mul_of_abs_le (hq.nearest l hl) (hlu.trans_le (not_lt.1 hxu))
    linarith [not_lt.1 hxu]
  have habove {q : Rat} (hq : IsNearestEven p q x) (hqm : m.toRat < q) : l.toRat < x.toRat := by
    by_contra hxl
    have := two_mul_le_of_abs_le (hq.nearest u hu) ((not_lt.1 hxl).trans_lt hlu)
    linarith [not_lt.1 hxl]
  rintro (⟨hqm, hmr⟩ | ⟨hrm, hmq⟩)
  · exact (hgap x hq.fits).elim (not_le.2 (habove hr hmr)) (not_le.2 (hbelow hq hqm))
  · exact (hgap x hq.fits).elim (not_le.2 (habove hq hmq)) (not_le.2 (hbelow hr hrm))

/-- Between positive rationals that are rounded to different values there is a midpoint. -/
lemma IsNearestEven.exists_midpoint (hp : 0 < p) (hr : IsNearestEven p r x)
    (hq : IsNearestEven p q y)
    (hx : 0 < x.toRat) (hxy : x.toRat < y.toRat) :
    ∃ m, IsMidpoint p m ∧ r ≤ m.toRat ∧ m.toRat ≤ q := by
  obtain ⟨n, e, hlow, hhigh, rfl⟩ := hr.fits.exists_mantissa hp hx
  have hgrid := two_zpow_pos e
  have hpow : (2 : Int) ^ (p - 1) * 2 = 2 ^ p := by
    rw [← pow_succ]
    congr 1
    omega
  have hpos : 0 < n := lt_of_lt_of_le (by positivity) hlow
  have hmid : (scaled (2 * n + 1) (e - 1)).toRat * 2 = (n + (n + 1)) * 2 ^ e := by
    rw [toRat_scaled, zpow_sub_one₀ two_ne_zero]
    push_cast
    ring
  have hnext : (scaled (n + 1) e).toRat = (n + 1) * 2 ^ e := by
    rw [toRat_scaled]
    push_cast
    rfl
  have hfits : FitsIn p (scaled (n + 1) e) := by
    refine fitsIn_scaled_of_le hp ?_ e
    zify
    rw [abs_of_pos (by omega)]
    omega
  -- there is no value between the lower one and its upper neighbour
  have hgap : (scaled (n + 1) e).toRat ≤ y.toRat := by
    rw [hnext]
    rw [toRat_scaled] at hx hxy
    rcases hq.fits.multiple_or_lt hp e with ⟨k, hk⟩ | hsmall
    · rw [hk] at hxy ⊢
      have hnk : n < k := by exact_mod_cast lt_of_mul_lt_mul_right hxy hgrid.le
      exact mul_le_mul_of_nonneg_right (by exact_mod_cast hnk) hgrid.le
    · have hle : (2 : Rat) ^ (p - 1) * 2 ^ e ≤ n * 2 ^ e :=
        mul_le_mul_of_nonneg_right (by exact_mod_cast hlow) hgrid.le
      rw [abs_of_pos (hx.trans hxy)] at hsmall
      linarith
  have hstep : (scaled n e).toRat < (scaled (n + 1) e).toRat := by
    rw [toRat_scaled, hnext]
    linarith
  refine ⟨scaled (2 * n + 1) (e - 1), ⟨⟨_, _, ?_, rfl⟩, fun hshort => ?_⟩, ?_, ?_⟩
  · zify
    rw [abs_of_pos (by omega), pow_succ]
    omega
  · have := natAbs_lt_of_fitsIn (by omega) hshort
    zify at this
    rw [abs_of_pos (by omega)] at this
    omega
  · have := two_mul_le_of_abs_le (hr.nearest _ hfits) hstep
    rw [hnext, toRat_scaled] at this
    linarith
  · have := le_two_mul_of_abs_le (hq.nearest _ hr.fits) hxy
    rw [hnext] at hgap
    rw [toRat_scaled] at this
    linarith

lemma IsNearestEven.toRat_pos (hp : 0 < p) (h : IsNearestEven p q x) (hq : 0 < q) :
    0 < x.toRat := by
  have herror := h.relative_error hp
  have hlt : |q| / 2 ^ p < q := by
    rw [abs_of_pos hq]
    exact div_lt_self hq (one_lt_pow₀ one_lt_two hp.ne')
  have := (le_abs_self _).trans_lt (herror.trans_lt hlt)
  linarith

/-- Positive rationals that are no midpoints are rounded to one value if there is no midpoint
between them. -/
lemma IsNearestEven.eq_of_pos (hp : 0 < p) (hr : IsNearestEven p r x) (hq : IsNearestEven p q y)
    (hr₀ : 0 < r) (hq₀ : 0 < q) (hrm : ∀ m, IsMidpoint p m → m.toRat ≠ r)
    (hqm : ∀ m, IsMidpoint p m → m.toRat ≠ q)
    (h : ∀ m, IsMidpoint p m → ¬LiesBetween m q r) : x = y := by
  rcases lt_trichotomy x.toRat y.toRat with hlt | heq | hlt
  · obtain ⟨m, hm, hle, hle'⟩ := hr.exists_midpoint hp hq (hr.toRat_pos hp hr₀) hlt
    exact absurd (.inr ⟨hle.lt_of_ne (hrm m hm).symm, hle'.lt_of_ne (hqm m hm)⟩) (h m hm)
  · exact Dyadic.toRat_inj.1 heq
  · obtain ⟨m, hm, hle, hle'⟩ := hq.exists_midpoint hp hr (hq.toRat_pos hp hq₀) hlt
    exact absurd (.inl ⟨hle.lt_of_ne (hqm m hm).symm, hle'.lt_of_ne (hrm m hm)⟩) (h m hm)

/-- Rationals of one sign that are no midpoints are rounded to one value just when there is no
midpoint between them. -/
theorem IsNearestEven.eq_iff (hp : 0 < p) (hr : IsNearestEven p r x) (hq : IsNearestEven p q y)
    (hsign : 0 < r ∧ 0 < q ∨ r < 0 ∧ q < 0) (hrm : ∀ m, IsMidpoint p m → m.toRat ≠ r)
    (hqm : ∀ m, IsMidpoint p m → m.toRat ≠ q) :
    x = y ↔ ∀ m, IsMidpoint p m → ¬LiesBetween m q r := by
  refine ⟨?_, fun h => ?_⟩
  · rintro rfl m hm
    exact hq.not_liesBetween hp hr hm
  · rcases hsign with ⟨hr₀, hq₀⟩ | ⟨hr₀, hq₀⟩
    · exact hr.eq_of_pos hp hq hr₀ hq₀ hrm hqm h
    · have hopposite {s : Rat} (hs : ∀ m, IsMidpoint p m → m.toRat ≠ s) (m : Dyadic)
          (hm : IsMidpoint p m) : m.toRat ≠ -s := fun hms =>
        hs (-m) hm.neg (by rw [Dyadic.toRat_neg, hms, neg_neg])
      have hneg : -x = -y :=
        hr.neg.eq_of_pos hp hq.neg (neg_pos.2 hr₀) (neg_pos.2 hq₀) (hopposite hrm)
        (hopposite hqm) fun m hm hbetween => h (-m) hm.neg (by simpa using hbetween.neg)
      rw [← dyadic_neg_neg x, hneg, dyadic_neg_neg]

/-! ### Conversion in two steps -/

/-- A fraction is converted by rounding its numerator, and then the quotient by its denominator. -/
lemma exists_isNearestEven_toBigFloat (hp : 2 ≤ p) (q : Rat) :
    ∃ x, (Number.rational q).toBigFloat p = .finite x ∧
      IsNearestEven p ((roundScaled p q.num 0).toRat / q.den) x := by
  rw [Number.toBigFloat]
  cases roundScaled p q.num 0 with
  | zero =>
    refine ⟨.zero, rfl, ?_⟩
    rw [show Dyadic.zero.toRat = 0 from Dyadic.toRat_zero, zero_div]
    exact (fitsIn_zero p).isNearestEven
  | ofOdd n k hn =>
    have hnear := (isNearestEven_roundDiv hp n q.den_nz).shiftRight k
    refine ⟨_, rfl, ?_⟩
    rwa [ofOdd_eq_scaled, toRat_scaled, mul_div_right_comm]

/-- A quotient is not refused for its precision if the divisor is a power of two. -/
lemma refuseWideQuotient_two_pow (n : Int) (j : Nat) :
    BigFloat.refuseWideQuotient p (.ofInt n) (.ofInt (2 ^ j : Nat)) = .ok () := by
  have hone : Dyadic.ofInt (2 ^ j : Nat) = .ofOdd 1 (-j) rfl := by
    have h := scaled_mul_two_pow 1 j 0
    rw [one_mul, zero_add] at h
    rw [ofOdd_eq_scaled, Int.neg_neg, ← h]
    push_cast
    rfl
  rw [BigFloat.ofInt, BigFloat.ofInt, hone]
  cases Dyadic.ofInt n <;> rfl

/-- Any other quotient is refused if the precision is too large. -/
lemma refuseWideQuotient_of_not_two_pow {n : Int} {d : Nat} (hn : n ≠ 0) (hd₀ : d ≠ 0)
    (hd : ¬∃ j, d = 2 ^ j) :
    BigFloat.refuseWideQuotient p (.ofInt n) (.ofInt d) = refuseBits p := by
  obtain ⟨m, k, hm, hmk, -⟩ := exists_ofOdd_eq_scaled hn 0
  obtain ⟨c, i, hc, hci, -⟩ := exists_ofOdd_eq_scaled (Nat.cast_ne_zero.2 hd₀) 0
  have hne : c.natAbs ≠ 1 := by
    intro hone
    have hvalue : (d : Rat) = c * 2 ^ (-i) := by
      have h := congrArg Dyadic.toRat hci
      rw [ofOdd_eq_scaled, toRat_scaled, toRat_scaled, zpow_zero, mul_one] at h
      exact_mod_cast h
    have hpos : (1 : Rat) ≤ d := by exact_mod_cast Nat.one_le_iff_ne_zero.2 hd₀
    rcases Int.natAbs_eq_iff.1 hone with rfl | rfl
    · rw [Nat.cast_one, Int.cast_one, one_mul] at hvalue
      have hi : 0 ≤ -i := by
        rw [hvalue] at hpos
        exact not_lt.1 fun hlt => not_lt.2 hpos (zpow_lt_one_of_neg₀ one_lt_two hlt)
      refine hd ⟨(-i).toNat, ?_⟩
      rw [← Int.toNat_of_nonneg hi, zpow_natCast] at hvalue
      exact_mod_cast hvalue
    · have := two_zpow_pos (-i)
      push_cast at hvalue
      linarith
  rw [BigFloat.ofInt, BigFloat.ofInt, show Dyadic.ofInt n = .ofOdd m k hm from hmk,
    show Dyadic.ofInt d = .ofOdd c i hc from hci]
  exact if_neg hne

lemma isNearestEven_num (hp : 2 ≤ p) (q : Rat) : IsNearestEven p q.num (roundScaled p q.num 0) := by
  have h := isNearestEven_roundScaled hp q.num 0
  rwa [zpow_zero, mul_one] at h

lemma isNearestEven_roundRat (hp : 2 ≤ p) (q : Rat) : IsNearestEven p q (roundRat p q) := by
  have h := isNearestEven_roundDiv hp q.num q.den_nz
  rwa [Rat.num_div_den] at h

/-- A numerator that fits is kept, so that only the quotient is rounded. -/
lemma toRat_roundScaled_num (hp : 0 < p) (h : FitsIn p (scaled q.num 0)) :
    (roundScaled p q.num 0).toRat = q.num := by
  rw [← roundDyadic_scaled, (fitsIn_iff hp).1 h, toRat_scaled, zpow_zero, mul_one]

/-- A fraction with a power of two as its denominator is rounded once. -/
lemma isNearestEven_of_den {j : Nat} (hp : 2 ≤ p) (hden : q.den = 2 ^ j)
    (hx : (Number.rational q).toBigFloat p = .finite x) : IsNearestEven p q x := by
  rw [Number.toBigFloat_rational_of_den (by omega) hden] at hx
  have hvalue : (q.num : Rat) * 2 ^ (-j : Int) = q := by
    have hden : (q.den : Rat) = 2 ^ j := by exact_mod_cast hden
    rw [zpow_neg, zpow_natCast, ← hden, ← div_eq_mul_inv, Rat.num_div_den]
  have h := isNearestEven_roundScaled hp q.num (-j)
  rwa [hvalue, BigFloat.finite.inj hx] at h

/-- A fraction is converted to the value nearest to it just when there is no midpoint between it and
the quotient of its rounded numerator by its denominator. -/
lemma isNearestEven_iff_of_steps (hp : 2 ≤ p) (hx : (Number.rational q).toBigFloat p = .finite x)
    (hr : IsNearestEven p ((roundScaled p q.num 0).toRat / q.den) x) : IsNearestEven p q x ↔
      ∀ m, IsMidpoint p m → ¬LiesBetween m q ((roundScaled p q.num 0).toRat / q.den) := by
  have hp₀ : 0 < p := by omega
  refine ⟨fun hq m hm => hq.not_liesBetween hp₀ hr hm, fun h => ?_⟩
  by_cases hpow : ∃ j, q.den = 2 ^ j
  · obtain ⟨j, hj⟩ := hpow
    exact isNearestEven_of_den hp hj hx
  have hn := isNearestEven_num hp q
  set n := roundScaled p q.num 0
  have hden : (0 : Rat) < q.den := Nat.cast_pos.2 q.den_pos
  have hsign : 0 < n.toRat / q.den ∧ 0 < q ∨ n.toRat / q.den < 0 ∧ q < 0 := by
    rcases lt_trichotomy q 0 with hq | rfl | hq
    · have hnum : (0 : Rat) < -q.num := by exact_mod_cast Int.neg_pos_of_neg (Rat.num_neg.2 hq)
      have hpos := hn.neg.toRat_pos hp₀ hnum
      rw [Dyadic.toRat_neg, neg_pos] at hpos
      exact .inr ⟨div_neg_of_neg_of_pos hpos hden, hq⟩
    · exact absurd ⟨0, rfl⟩ hpow
    · have hnum : (0 : Rat) < q.num := by exact_mod_cast Rat.num_pos.2 hq
      exact .inl ⟨div_pos (hn.toRat_pos hp₀ hnum) hden, hq⟩
  -- neither of the two is a midpoint itself
  have hq₀ (m : Dyadic) (_ : IsMidpoint p m) : m.toRat ≠ q := by
    rintro rfl
    exact hpow (exists_den_toRat m)
  have hr₀ (m : Dyadic) (hm : IsMidpoint p m) : m.toRat ≠ n.toRat / q.den := fun hmr =>
    hm.2 (hn.fits.of_mul q.den_nz (by rw [hmr, div_mul_cancel₀ _ hden.ne']))
  have hq := isNearestEven_roundRat hp q
  rwa [(hr.eq_iff hp₀ hq hsign hr₀ hq₀).2 h]

/-- The errors of the two steps are multiplied. -/
lemma abs_sub_le_of_steps (hp : 2 ≤ p) {n : Dyadic} (hn : IsNearestEven p q.num n)
    (hr : IsNearestEven p (n.toRat / q.den) x) :
    |q - x.toRat| ≤ ((1 + 1 / 2 ^ p) ^ 2 - 1) * |q| := by
  have hp₀ : 0 < p := by omega
  have hden : (0 : Rat) < q.den := Nat.cast_pos.2 q.den_pos
  have hpow : (0 : Rat) < 2 ^ p := by positivity
  have hfirst : |q - n.toRat / q.den| ≤ |q| / 2 ^ p := by
    have herror := hn.relative_error hp₀
    have hq : |(q.num : Rat)| = |q| * q.den := by
      rw [← Rat.mul_den_eq_num q, abs_mul, abs_of_pos hden]
    have hdist : |q - n.toRat / q.den| = |q.num - n.toRat| / q.den := by
      rw [← abs_of_pos hden, ← abs_div, abs_of_pos hden, sub_div, Rat.num_div_den]
    rw [hdist, div_le_iff₀ hden]
    rwa [hq, mul_div_right_comm] at herror
  have hsecond := hr.relative_error hp₀
  have hsize : |n.toRat / q.den| ≤ |q| + |q| / 2 ^ p := by
    have := abs_sub_abs_le_abs_sub (n.toRat / q.den) q
    rw [abs_sub_comm] at this
    linarith
  calc |q - x.toRat| ≤ |q - n.toRat / q.den| + |n.toRat / q.den - x.toRat| := abs_sub_le _ _ _
    _ ≤ |q| / 2 ^ p + (|q| + |q| / 2 ^ p) / 2 ^ p :=
      add_le_add hfirst (hsecond.trans (div_le_div_of_nonneg_right hsize hpow.le))
    _ = ((1 + 1 / 2 ^ p) ^ 2 - 1) * |q| := by ring

namespace Operand

lemma num_ne_zero_of_den (h : ¬∃ j, q.den = 2 ^ j) : q.num ≠ 0 := by
  intro hzero
  rw [Rat.num_eq_zero] at hzero
  exact h ⟨0, hzero ▸ rfl⟩

/-- A fraction is converted like a rational number, if integers of as many bits as its value has can
be had. -/
lemma toBigFloat_of_refuseBits (h : (∃ j, q.den = 2 ^ j) ∨ refuseBits p = .ok ()) :
    (fraction q).toBigFloat p = .ok ((Number.rational q).toBigFloat p) := by
  have hok : BigFloat.refuseWideQuotient p (.ofInt q.num) (.ofInt q.den) = .ok () := by
    by_cases hpow : ∃ j, q.den = 2 ^ j
    · obtain ⟨j, hj⟩ := hpow
      rw [hj, refuseWideQuotient_two_pow]
    · rw [refuseWideQuotient_of_not_two_pow (num_ne_zero_of_den hpow) q.den_nz hpow]
      exact h.resolve_left hpow
  rw [toBigFloat, hok]
  rfl

/-- A quotient that does not end is refused as integers of as many bits are. -/
lemma toBigFloat_of_wide {err : Error} (h : ¬∃ j, q.den = 2 ^ j)
    (hwide : refuseBits p = .error err) : (fraction q).toBigFloat p = .error err := by
  rw [toBigFloat, refuseWideQuotient_of_not_two_pow (num_ne_zero_of_den h) q.den_nz h, hwide]
  rfl

/-- A fraction is converted by rounding its numerator to the nearest value, and then the quotient of
that by the denominator. The outcome is the value nearest to the fraction just when there is no
midpoint between the fraction and that quotient; so it is if the denominator is a power of two, or
if the numerator fits. A fraction with another denominator is refused where integers of as many bits
as the precision has are, with the same error. The exact fraction of a value that fits is converted
back to it. -/
theorem toBigFloat_fraction (hp : 2 ≤ p) :
    (∀ q : Rat, (∃ j, q.den = 2 ^ j) ∨ refuseBits p = .ok () → ∃ n x,
      IsNearestEven p q.num n ∧ IsNearestEven p (n.toRat / q.den) x ∧
      (fraction q).toBigFloat p = .ok (.finite x) ∧
      (IsNearestEven p q x ↔ ∀ m, IsMidpoint p m → ¬LiesBetween m q (n.toRat / q.den)) ∧
      ((∃ j, q.den = 2 ^ j) ∨ FitsIn p (scaled q.num 0) → IsNearestEven p q x) ∧
      |q - x.toRat| ≤ ((1 + 1 / 2 ^ p) ^ 2 - 1) * |q|) ∧
    (∀ (q : Rat) (err : Error), (¬∃ j, q.den = 2 ^ j) → refuseBits p = .error err →
      (fraction q).toBigFloat p = .error err) ∧
    ∀ y, FitsIn p y → (fraction y.toRat).toBigFloat p = .ok (.finite y) ∧
      (bigFloat (.finite y)).toExactRat = (BigFloat.finite y).refuseLong.map fun _ => y.toRat := by
  have hp₀ : 0 < p := by omega
  refine ⟨fun q hq => ?_, fun q err => toBigFloat_of_wide, fun y hy => ⟨?_, ?_⟩⟩
  · obtain ⟨x, hx, hr⟩ := exists_isNearestEven_toBigFloat hp q
    have hn := isNearestEven_num hp q
    refine ⟨_, x, hn, hr, (toBigFloat_of_refuseBits hq).trans (congrArg _ hx),
      isNearestEven_iff_of_steps hp hx hr, ?_, abs_sub_le_of_steps hp hn hr⟩
    rintro (⟨j, hj⟩ | hfits)
    · exact isNearestEven_of_den hp hj hx
    · rwa [toRat_roundScaled_num hp₀ hfits, Rat.num_div_den] at hr
  · obtain ⟨j, hj⟩ := exists_den_toRat y
    obtain ⟨x, hx, -⟩ := exists_isNearestEven_toBigFloat hp y.toRat
    rw [toBigFloat_of_refuseBits (.inl ⟨j, hj⟩), hx,
      (isNearestEven_of_den hp hj hx).unique hp₀ hy.isNearestEven]
  · rw [toExactRat, BigFloat.toRat]
    cases (BigFloat.finite y).refuseLong <;> rfl

/-- Three fifths and three quarters at two bits; a third at any precision that integers are refused
at. -/
theorem toBigFloat_three_fifths :
    (IsNearestEven 2 (3 / 5) (scaled 1 (-1)) ∧
      (fraction (3 / 5)).toBigFloat 2 = .ok (.finite (scaled 1 (-1)))) ∧
    (FitsIn 2 (scaled 3 (-2)) ∧
      (fraction (scaled 3 (-2)).toRat).toBigFloat 2 = .ok (.finite (scaled 3 (-2)))) ∧
    ∀ (p : Nat) (err : Error), 2 ≤ p → refuseBits p = .error err →
      (fraction (1 / 3)).toBigFloat p = .error err := by
  have hfits : FitsIn 2 (scaled 3 (-2)) := ⟨3, -2, by decide, rfl⟩
  have hthird : ¬∃ j, (1 / 3 : Rat).den = 2 ^ j := by
    rintro ⟨j, hj⟩
    rw [show (1 / 3 : Rat).den = 3 by decide +kernel] at hj
    cases j with
    | zero => contradiction
    | succ j => omega
  refine ⟨?_, ⟨hfits, ((toBigFloat_fraction le_rfl).2.2 _ hfits).1⟩,
    fun p err hp hwide => (toBigFloat_fraction hp).2.1 _ err hthird hwide⟩
  obtain ⟨n, x, -, -, hx, -, hnear, -⟩ :=
    (toBigFloat_fraction (le_refl 2)).1 (3 / 5) (.inr (by decide))
  have hvalue : (fraction (3 / 5)).toBigFloat 2 = .ok (.finite (scaled 1 (-1))) := by decide +kernel
  rw [hvalue] at hx
  cases hx
  exact ⟨hnear (.inr ⟨3, 0, by decide, by decide +kernel⟩), hvalue⟩

/-- The numerator of nine fifths is rounded down to eight, which takes the quotient across the
midpoint of three halves and two. -/
theorem not_isNearestEven_nine_fifths :
    IsNearestEven 2 (9 / 5) (scaled 1 1) ∧ IsNearestEven 2 9 (scaled 1 3) ∧
    (IsMidpoint 2 (scaled 7 (-2)) ∧ LiesBetween (scaled 7 (-2)) (9 / 5) (8 / 5)) ∧
    (fraction (9 / 5)).toBigFloat 2 = .ok (.finite (scaled 3 (-1))) ∧
      ¬IsNearestEven 2 (9 / 5) (scaled 3 (-1)) := by
  have hnear : IsNearestEven 2 (9 / 5) (scaled 1 1) := by
    have h := isNearestEven_roundRat (le_refl 2) (9 / 5)
    rwa [show roundRat 2 (9 / 5) = scaled 1 1 by decide +kernel] at h
  have hnine : IsNearestEven 2 9 (scaled 1 3) := by
    have h := isNearestEven_num (le_refl 2) 9
    rwa [show roundScaled 2 (9 : Rat).num 0 = scaled 1 3 by decide +kernel] at h
  have hmidpoint : IsMidpoint 2 (scaled 7 (-2)) :=
    ⟨⟨7, -2, by decide, rfl⟩, fun h => absurd (natAbs_lt_of_fitsIn (by decide) h) (by decide)⟩
  refine ⟨hnear, hnine, ⟨hmidpoint, .inr (by decide +kernel)⟩, by decide +kernel, fun h => ?_⟩
  exact absurd (h.unique two_pos hnear) (by decide)

end Operand

end SymbolicAlgebra
