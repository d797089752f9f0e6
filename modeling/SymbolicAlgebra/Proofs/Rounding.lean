import Mathlib.Algebra.Order.Ring.Nat
import SymbolicAlgebra.Number.Arithmetic

/-!
# Rounding once is enough

A value with a mantissa of at most `p` bits is not changed by rounding to `p` bits, and a rounded
value is one. So zero added to a number, and one times it, are both that number rounded to its own
precision, and do nothing more when they are done again.
-/

namespace SymbolicAlgebra

variable {p : Nat}

lemma bitLength_le_iff {n : Nat} : bitLength n ≤ p ↔ n < 2 ^ p := by
  rw [bitLength]
  split
  · next h => simp [h]
  · next h => rw [Nat.succ_le_iff, Nat.log2_lt h]

lemma roundQuotient_le {n d q : Nat} (h : n < q * d) : roundQuotient n d ≤ q := by
  have hq : n / d < q := Nat.div_lt_of_lt_mul (Nat.mul_comm q d ▸ h)
  simp only [roundQuotient]
  split
  · exact Nat.le_of_lt hq
  · exact hq

/-! ### Mantissas -/

/-- The odd mantissa of a value is not greater than any other. -/
lemma exists_ofOdd_eq_scaled {n : Int} (h : n ≠ 0) (e : Int) :
    ∃ m k hm, scaled n e = .ofOdd m k hm ∧ m.natAbs ≤ n.natAbs := by
  have hodd := Int.shiftRight_trailingZeros_mod_two h
  refine ⟨n >>> n.trailingZeros, _, hodd, dif_neg h, ?_⟩
  rw [Int.shiftRight_eq_div_pow]
  exact Int.natAbs_ediv_le_natAbs _ _

/-- A mantissa of at most `p` bits is kept. -/
lemma roundScaled_of_lt {n e : Int} (h : n.natAbs < 2 ^ p) : roundScaled p n e = scaled n e := by
  have hbits : bitLength n.natAbs - p = 0 := Nat.sub_eq_zero_of_le (bitLength_le_iff.2 h)
  simp [roundScaled, hbits]

/-- An odd mantissa is not a power of two. -/
lemma lt_two_pow_of_odd {m : Int} (hp : 0 < p) (hm : m % 2 = 1) (h : m.natAbs ≤ 2 ^ p) :
    m.natAbs < 2 ^ p := by
  have heven : 2 ^ p % 2 = 0 := Nat.mod_eq_zero_of_dvd (dvd_pow_self 2 hp.ne')
  omega

/-- A value that has a mantissa of at most `p` bits, or one that rounding up to `p` bits may give,
is kept. -/
lemma roundDyadic_scaled_of_le {n e : Int} (hp : 0 < p) (h : n.natAbs ≤ 2 ^ p) :
    roundDyadic p (scaled n e) = scaled n e := by
  by_cases hn : n = 0
  · subst hn
    rfl
  · obtain ⟨m, k, hm, hmk, hle⟩ := exists_ofOdd_eq_scaled hn e
    rw [hmk, roundDyadic, roundScaled_of_lt (lt_two_pow_of_odd hp hm (Nat.le_trans hle h)), scaled,
      Int.neg_neg, Dyadic.ofOdd_eq_ofIntWithPrec]

/-- A rounded value has a mantissa of at most `p` bits, or the least one that has more. -/
lemma exists_scaled_eq_roundScaled (p : Nat) (n e : Int) :
    ∃ m e', roundScaled p n e = scaled m e' ∧ m.natAbs ≤ 2 ^ p := by
  rw [roundScaled]
  split
  · next h =>
    exact ⟨n, e, rfl, Nat.le_of_lt (bitLength_le_iff.1 (Nat.sub_eq_zero_iff_le.1 h))⟩
  · next h =>
    refine ⟨_, _, rfl, ?_⟩
    have hlt : n.natAbs < 2 ^ p * 1 <<< (bitLength n.natAbs - p) := by
      rw [Nat.one_shiftLeft, ← Nat.pow_add, ← bitLength_le_iff]
      omega
    rw [Int.natAbs_mul, Int.natAbs_natCast]
    calc n.sign.natAbs * roundQuotient n.natAbs (1 <<< (bitLength n.natAbs - p))
        ≤ 1 * roundQuotient n.natAbs (1 <<< (bitLength n.natAbs - p)) :=
          Nat.mul_le_mul_right _ (by rw [Int.natAbs_sign]; split <;> omega)
      _ ≤ 2 ^ p := by rw [Nat.one_mul]; exact roundQuotient_le hlt

/-- Rounding twice is rounding once. -/
lemma roundDyadic_roundDyadic (hp : 0 < p) (x : Dyadic) :
    roundDyadic p (roundDyadic p x) = roundDyadic p x := by
  cases x with
  | zero => rfl
  | ofOdd n k hn =>
    obtain ⟨m, e, heq, hle⟩ := exists_scaled_eq_roundScaled p n (-k)
    rw [roundDyadic, heq]
    exact roundDyadic_scaled_of_le hp hle

lemma BigFloat.round_round (hp : 0 < p) (x : BigFloat) : (x.round p).round p = x.round p := by
  cases x with
  | finite x => simp only [round, roundDyadic_roundDyadic hp]
  | infinite s => rfl
  | nan m => rfl

/-! ### Zero and one -/

namespace Number

lemma toBigFloat_zero (p : Nat) : toBigFloat p 0 = .finite .zero := by
  show BigFloat.finite (roundScaled p 0 0) = .finite .zero
  rw [roundScaled_of_lt (by simp)]
  rfl

lemma toBigFloat_one (hp : 0 < p) : toBigFloat p 1 = .finite (.ofOdd 1 0 rfl) := by
  show BigFloat.finite (roundScaled p 1 0) = .finite (.ofOdd 1 0 rfl)
  rw [roundScaled_of_lt (Nat.one_lt_two_pow hp.ne'), Dyadic.ofOdd_eq_ofIntWithPrec]
  rfl

/-- A number rounded to its own precision. -/
def rounded : Number → Number
  | float x p => float (x.round (roundingBits p)) p
  | a => a

lemma rounded_of_isExact {a : Number} (h : a.isExact) : a.rounded = a := by
  cases a with
  | float => cases h
  | _ => rfl

lemma rounded_rounded (a : Number) : a.rounded.rounded = a.rounded := by
  cases a with
  | float x p => simp only [rounded, BigFloat.round_round (roundingBits_pos p)]
  | _ => rfl

lemma zero_add_eq (a : Number) : 0 + a = a.rounded := by
  cases a with
  | integer n => exact congrArg integer (Int.zero_add n)
  | rational q => exact congrArg rational (Rat.zero_add q)
  | float x p =>
    have hp := roundingBits_pos p
    show float (.add (roundingBits p) (toBigFloat (roundingBits p) 0)
        (x.round (roundingBits p))) p = float (x.round (roundingBits p)) p
    rw [toBigFloat_zero]
    cases x with
    | finite x =>
      simp only [BigFloat.round, BigFloat.add, BigFloat.addDyadic, roundDyadic_roundDyadic hp]
    | _ => rfl

lemma one_mul_eq (a : Number) : 1 * a = a.rounded := by
  cases a with
  | integer n => exact congrArg integer (Int.one_mul n)
  | rational q => exact congrArg rational (Rat.one_mul q)
  | float x p =>
    have hp := roundingBits_pos p
    show float (.mul (roundingBits p) (toBigFloat (roundingBits p) 1)
        (x.round (roundingBits p))) p = float (x.round (roundingBits p)) p
    rw [toBigFloat_one hp]
    cases x with
    | finite x =>
      simp only [BigFloat.round, BigFloat.mul, Dyadic.ofOdd_eq_ofIntWithPrec]
      rw [show Dyadic.ofIntWithPrec 1 0 = 1 from rfl, Dyadic.one_mul, roundDyadic_roundDyadic hp]
    | infinite s => simp [BigFloat.round, BigFloat.mul, BigFloat.isZero, BigFloat.isNegative]
    | nan m => rfl

/-- A number is rounded if rounding does not change its value. -/
lemma rounded_eq_of_same {a : Number} (h : a.rounded.same a) : a.rounded = a := by
  cases a with
  | float x p =>
    rw [same, Bool.or_eq_true] at h
    cases x with
    | nan m => exact absurd h (by simp [rounded, BigFloat.round, BEq.beq, eq, exactValue?, bigFloat,
        BigFloat.eq, BigFloat.sharesMark, Mark.agrees])
    | finite x =>
      rcases h with h | h
      · have hx : BigFloat.finite (roundDyadic (roundingBits p) x) = .finite x :=
          of_decide_eq_true h
        simp only [rounded, BigFloat.round, hx]
      · exact absurd h (by simp [rounded, BigFloat.round, bigFloat, BigFloat.sharesMark])
    | infinite s => rfl
  | _ => rfl

end Number

end SymbolicAlgebra
