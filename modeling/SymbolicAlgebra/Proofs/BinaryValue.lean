import SymbolicAlgebra.Proofs.NumberEquality
import SymbolicAlgebra.Proofs.Rounding

/-!
# The binary value of a number

Rounding commutes with shifting, so it does not matter in which representation a number is rounded
to a binary value (`Number.toBigFloat_eq_of_same`).
-/

namespace SymbolicAlgebra

variable {p : Nat} {n e i : Int}

/-! ### Quotients -/

lemma roundQuotient_mul_right (n d : Nat) {k : Nat} (hk : 0 < k) :
    roundQuotient (n * k) (d * k) = roundQuotient n d := by
  have htwice : 2 * (n % d * k) = 2 * (n % d) * k := (Nat.mul_assoc _ _ _).symm
  simp only [roundQuotient, Nat.mul_div_mul_right n d hk, Nat.mul_mod_mul_right, htwice,
    Nat.mul_lt_mul_right hk, Nat.mul_left_inj hk.ne']

lemma roundQuotient_mul_self (q : Nat) {d : Nat} (hd : 0 < d) : roundQuotient (q * d) d = q := by
  simp [roundQuotient, Nat.mul_div_cancel q hd, hd]

/-! ### Shifts -/

lemma scaled_shiftRight (n e i : Int) : scaled n e >>> i = scaled n (e - i) := by
  by_cases hn : n = 0
  · subst hn
    rfl
  · have hshift (e : Int) : scaled n e = .ofOdd (n >>> n.trailingZeros) (-e - n.trailingZeros)
        (Int.shiftRight_trailingZeros_mod_two hn) := dif_neg hn
    rw [hshift, hshift]
    show Dyadic.ofOdd _ _ _ = _
    congr 1
    omega

lemma scaled_mul_two_pow (n : Int) (t : Nat) (e : Int) :
    scaled (n * 2 ^ t) e = scaled n (e + t) := by
  have h := Dyadic.ofIntWithPrec_shiftLeft_add (x := n) (i := -(e + t)) (n := t)
  rw [Int.shiftLeft_eq] at h
  simpa [scaled] using h

lemma bitLength_mul_two_pow {n : Nat} (hn : n ≠ 0) (t : Nat) :
    bitLength (n * 2 ^ t) = bitLength n + t := by
  have hne (t : Nat) : n * 2 ^ t ≠ 0 := Nat.mul_ne_zero hn (Nat.two_pow_pos t).ne'
  rw [bitLength, bitLength, if_neg hn, if_neg (hne t)]
  induction t with
  | zero => simp
  | succ t ih =>
    have hstep : n * 2 ^ (t + 1) = 2 * (n * 2 ^ t) := by ring
    rw [hstep, Nat.log2_two_mul (hne t)]
    omega

lemma roundScaled_shiftRight (p : Nat) (n e i : Int) :
    roundScaled p n e >>> i = roundScaled p n (e - i) := by
  simp only [roundScaled]
  split
  · exact scaled_shiftRight n e i
  · rw [scaled_shiftRight]
    congr 1
    omega

lemma roundScaled_zero (p : Nat) (e : Int) : roundScaled p 0 e = .zero := by
  rw [roundScaled_of_lt (by simp)]
  rfl

/-- A power of two in the mantissa may go to the exponent. -/
lemma roundScaled_mul_two_pow (p : Nat) (n : Int) (t : Nat) (e : Int) :
    roundScaled p (n * 2 ^ t) e = roundScaled p n (e + t) := by
  by_cases hn : n = 0
  · subst hn
    rw [zero_mul, roundScaled_zero, roundScaled_zero]
  · have hpow : (2 : Int) ^ t = (2 ^ t : Nat) := by push_cast; rfl
    have habs : (n * 2 ^ t).natAbs = n.natAbs * 2 ^ t := by
      rw [hpow, Int.natAbs_mul, Int.natAbs_natCast]
    have hsign : (n * 2 ^ t).sign = n.sign := by
      rw [Int.sign_mul, hpow, Int.sign_natCast_of_ne_zero (Nat.two_pow_pos t).ne', Int.mul_one]
    have hlength := bitLength_mul_two_pow (Int.natAbs_ne_zero.2 hn) t
    simp only [roundScaled, habs, hsign, hlength, Nat.one_shiftLeft]
    by_cases hfits : bitLength n.natAbs ≤ p
    · rw [if_pos (Nat.sub_eq_zero_of_le hfits)]
      split
      · exact scaled_mul_two_pow n t e
      · next hne =>
        -- the bits that are rounded away are zero
        obtain ⟨u, hu⟩ : ∃ u, t = u + (bitLength n.natAbs + t - p) :=
          ⟨t - (bitLength n.natAbs + t - p), by omega⟩
        generalize bitLength n.natAbs + t - p = x at hne hu
        subst hu
        rw [pow_add, ← Nat.mul_assoc, roundQuotient_mul_self _ (Nat.two_pow_pos x)]
        push_cast
        rw [← mul_assoc, Int.sign_mul_abs, scaled_mul_two_pow]
        congr 1
        ring
    · have hexcess : bitLength n.natAbs + t - p = (bitLength n.natAbs - p) + t := by omega
      rw [if_neg (by omega), if_neg (by omega), hexcess, Nat.pow_add,
        roundQuotient_mul_right _ _ (Nat.two_pow_pos t)]
      congr 1
      push_cast
      ring

/-- Rounding a value gives what rounding any of its mantissas does. -/
lemma roundDyadic_scaled (p : Nat) (n e : Int) :
    roundDyadic p (scaled n e) = roundScaled p n e := by
  by_cases hn : n = 0
  · subst hn
    rw [roundScaled_zero]
    rfl
  · have hshift : scaled n e = .ofOdd (n >>> n.trailingZeros) (-e - n.trailingZeros)
        (Int.shiftRight_trailingZeros_mod_two hn) := dif_neg hn
    have hmul : n >>> n.trailingZeros * 2 ^ n.trailingZeros = n := by
      rw [Int.shiftRight_eq_div_pow]
      push_cast
      exact Int.ediv_mul_cancel (Int.two_pow_trailingZeros_dvd hn)
    conv_rhs => rw [← hmul]
    rw [hshift, roundDyadic, roundScaled_mul_two_pow]
    congr 1
    omega

/-! ### Quotients by powers of two -/

lemma log2Quotient_two_pow {a : Nat} (ha : a ≠ 0) (j : Nat) :
    log2Quotient a (2 ^ j) = (a.log2 : Int) - j := by
  have hle := Nat.log2_self_le ha
  simp only [log2Quotient, Nat.log2_two_pow, Nat.shiftLeft_eq]
  apply if_pos
  by_cases hj : j ≤ a.log2
  · have htop : 2 ^ j * 2 ^ ((a.log2 : Int) - j).toNat = 2 ^ a.log2 := by
      rw [← pow_add]
      congr 1
      omega
    have hbottom : (-((a.log2 : Int) - j)).toNat = 0 := by omega
    rw [htop, hbottom]
    simpa using hle
  · have htop : ((a.log2 : Int) - j).toNat = 0 := by omega
    have hj : 2 ^ j = 2 ^ a.log2 * 2 ^ (-((a.log2 : Int) - j)).toNat := by
      rw [← pow_add]
      congr 1
      omega
    rw [htop]
    calc
      2 ^ j * 2 ^ 0 = 2 ^ a.log2 * 2 ^ (-((a.log2 : Int) - j)).toNat := by
        rw [pow_zero, mul_one, hj]
      _ ≤ a * 2 ^ (-((a.log2 : Int) - j)).toNat := Nat.mul_le_mul_right _ hle

/-- The quotient of a mantissa that fits by a power of two is exact. -/
lemma roundDiv_two_pow (hn : n ≠ 0) (h : n.natAbs < 2 ^ p) (j : Nat) :
    roundDiv p n (2 ^ j) = scaled n (-j) := by
  have habs := Int.natAbs_ne_zero.2 hn
  have hlog : n.natAbs.log2 < p := (Nat.log2_lt habs).2 h
  rw [roundDiv, if_neg hn]
  simp only [log2Quotient_two_pow habs, Nat.shiftLeft_eq]
  obtain ⟨s, hs⟩ : ∃ s : Nat, (p : Int) - 1 - (n.natAbs.log2 - j) = s + j :=
    ⟨p - 1 - n.natAbs.log2, by omega⟩
  have hpos : ((s : Int) + j).toNat = s + j := by omega
  have hneg : (-((s : Int) + j)).toNat = 0 := by omega
  have hpow : n.natAbs * 2 ^ (s + j) = n.natAbs * 2 ^ s * 2 ^ j := by ring
  rw [hs, hpos, hneg, pow_zero, mul_one, hpow, roundQuotient_mul_self _ (Nat.two_pow_pos j)]
  push_cast
  rw [← mul_assoc, Int.sign_mul_abs, scaled_mul_two_pow]
  congr 1
  ring

lemma natAbs_lt_of_roundScaled {m k : Int} {hm : m % 2 = 1} (hp : 0 < p)
    (h : roundScaled p n e = .ofOdd m k hm) : m.natAbs < 2 ^ p := by
  obtain ⟨n', e', heq, hle⟩ := exists_scaled_eq_roundScaled p n e
  have hne : n' ≠ 0 := by
    rintro rfl
    rw [h] at heq
    cases heq
  obtain ⟨m', k', hm', hscaled, hle'⟩ := exists_ofOdd_eq_scaled hne e'
  rw [h, hscaled] at heq
  obtain ⟨rfl, -⟩ := Dyadic.ofOdd.inj heq
  exact lt_two_pow_of_odd hp hm (Nat.le_trans hle' hle)

/-! ### Numbers -/

namespace Number

variable {a b : Number}

lemma toBigFloat_rational_of_den {q : Rat} {j : Nat} (hp : 0 < p) (h : q.den = 2 ^ j) :
    toBigFloat p (rational q) = .finite (roundScaled p q.num (-j)) := by
  have hshift := roundScaled_shiftRight p q.num 0 j
  rw [Int.zero_sub] at hshift
  rw [← hshift, toBigFloat]
  cases hr : roundScaled p q.num 0 with
  | zero => rfl
  | ofOdd n k hn =>
    have hne : n ≠ 0 := by
      rintro rfl
      cases hn
    have hodd : Dyadic.ofOdd n k hn = scaled n (-k) := by
      rw [scaled, Int.neg_neg, Dyadic.ofOdd_eq_ofIntWithPrec]
    simp only [h, roundDiv_two_pow hne (natAbs_lt_of_roundScaled hp hr), hodd, scaled_shiftRight]
    congr 2
    omega

lemma eq_scaled_of_toRat {d : Dyadic} {j : Nat} (h : d.toRat.den = 2 ^ j) :
    d = scaled d.toRat.num (-j) := by
  rw [← Dyadic.toRat_inj, scaled, Dyadic.toRat_ofIntWithPrec_eq_mul_two_pow, Int.neg_neg, zpow_neg,
    zpow_natCast]
  have hden : (2 : Rat) ^ j = d.toRat.den := by
    rw [h]
    push_cast
    rfl
  rw [hden, ← div_eq_mul_inv, Rat.num_div_den]

lemma toRat_scaled_zero (n : Int) : (scaled n 0).toRat = n := by
  rw [scaled, Dyadic.toRat_ofIntWithPrec_eq_mul_two_pow]
  simp

lemma toBigFloat_of_toRat? {d : Dyadic} (hp : 0 < p) (h : a.toRat? = some d.toRat) :
    a.toBigFloat p = .finite (roundDyadic p d) := by
  rcases toRat?_eq_some_iff.1 h with h | ⟨d', q, rfl, hd⟩
  · rcases exactValue?_eq_some_iff.1 h with ⟨n, rfl, hn⟩ | rfl
    · have hd : d = scaled n 0 := Dyadic.toRat_inj.1 (hn.trans (toRat_scaled_zero n).symm)
      rw [hd, roundDyadic_scaled]
      rfl
    · obtain ⟨j, hj⟩ := exists_den_toRat d
      rw [toBigFloat_rational_of_den hp hj]
      conv_rhs => rw [eq_scaled_of_toRat hj, roundDyadic_scaled]
  · rw [Dyadic.toRat_inj.1 hd]
    rfl

/-- A number has one binary value, whatever its representation. -/
theorem toBigFloat_eq_of_same (hp : 0 < p) (h : a.same b) : a.toBigFloat p = b.toBigFloat p := by
  rcases same_cases h with ⟨x, ha, hb⟩ | ⟨s, q, r, rfl, rfl⟩ | ⟨m, q, r, rfl, rfl⟩
  · by_cases hx : ∃ d : Dyadic, d.toRat = x
    · obtain ⟨d, rfl⟩ := hx
      rw [toBigFloat_of_toRat? hp ha, toBigFloat_of_toRat? hp hb]
    · -- only a rational number has a value that is no binary one
      have hrational {a : Number} (h : a.toRat? = some x) : a = rational x := by
        rcases toRat?_eq_some_iff.1 h with h | ⟨d, q, rfl, hd⟩
        · rcases exactValue?_eq_some_iff.1 h with ⟨n, rfl, hn⟩ | h
          · exact absurd ⟨scaled n 0, (toRat_scaled_zero n).trans hn.symm⟩ hx
          · exact h
        · exact absurd ⟨d, hd⟩ hx
      rw [hrational ha, hrational hb]
  · rfl
  · rfl

end Number

end SymbolicAlgebra
