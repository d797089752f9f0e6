import Mathlib.Algebra.Field.Rat
import Mathlib.Data.Nat.Prime.Basic
import Mathlib.Algebra.Order.Ring.Nat
import SymbolicAlgebra.Proofs.ExactNumber

/-!
# Equality of numbers is equality of their values

Two finite numbers are equal just when the rationals that they stand for are, whatever their
representations. A number that is not finite has no such rational: an infinity equals itself only,
and what is not a number is the same only as itself, by its mark.
-/

namespace SymbolicAlgebra

/-! ### Binary values among the rationals -/

/-- A rational whose denominator is a power of two is a binary value. -/
lemma toRat_of_dyadicOfRat? {q : Rat} {d : Dyadic} (h : BigFloat.dyadicOfRat? q = some d) :
    d.toRat = q := by
  rw [BigFloat.dyadicOfRat?] at h
  split at h
  · next hden =>
    rw [← Option.some.inj h, Dyadic.toRat_ofIntWithPrec_eq_mul_two_pow]
    rw [Nat.one_shiftLeft] at hden
    have hpow : (2 : Rat) ^ (-(q.den.log2 : Int)) = (q.den : Rat)⁻¹ := by
      rw [zpow_neg, zpow_natCast]
      conv_rhs => rw [hden]
      push_cast
      rfl
    rw [hpow, ← div_eq_mul_inv, Rat.num_div_den]
  · cases h

/-- The denominator of a binary value is a power of two. -/
lemma exists_den_toRat (d : Dyadic) : ∃ k, d.toRat.den = 2 ^ k := by
  cases d with
  | zero => exact ⟨0, rfl⟩
  | ofOdd n k hn =>
    cases k with
    | ofNat k => exact ⟨k, rfl⟩
    | negSucc k => exact ⟨0, rfl⟩

lemma dyadicOfRat?_eq_some_iff {q : Rat} {d : Dyadic} :
    BigFloat.dyadicOfRat? q = some d ↔ d.toRat = q := by
  constructor
  · exact toRat_of_dyadicOfRat?
  · rintro rfl
    obtain ⟨k, hk⟩ := exists_den_toRat d
    have hden : d.toRat.den = 1 <<< d.toRat.den.log2 := by
      rw [hk, Nat.log2_two_pow, Nat.one_shiftLeft]
    have hsome :
        BigFloat.dyadicOfRat? d.toRat = some (.ofIntWithPrec d.toRat.num d.toRat.den.log2) :=
      if_pos hden
    rw [hsome, Dyadic.toRat_inj.1 (toRat_of_dyadicOfRat? hsome)]

namespace Number

variable {a b : Number} {x y : Rat}

/-! ### Finite numbers -/

lemma toRat?_eq_some_iff : a.toRat? = some x ↔
    a.exactValue? = some x ∨ ∃ d p, a = float (.finite d) p ∧ d.toRat = x := by
  cases a with
  | float z p => cases z <;> simp [toRat?, exactValue?]
  | _ => simp [toRat?, exactValue?]

lemma exists_toRat? (h : a.isFinite) : ∃ x, a.toRat? = some x := by
  cases a with
  | float z p =>
    cases z with
    | finite d => exact ⟨_, rfl⟩
    | _ => cases h
  | _ => exact ⟨_, rfl⟩

lemma isZero_iff_toRat? : a.isZero ↔ a.toRat? = some 0 := by
  cases a with
  | float z p =>
    cases z with
    | finite d =>
      rw [toRat?, Option.some_inj, ← Dyadic.toRat_zero, Dyadic.toRat_inj, ← Dyadic.zero_eq]
      cases d <;> simp [isZero, BigFloat.isZero]
    | _ => simp [isZero, BigFloat.isZero, toRat?]
  | _ => simp [isZero, toRat?]

/-- Finite numbers are equal just when their values are. -/
lemma beq_iff_of_toRat? (ha : a.toRat? = some x) (hb : b.toRat? = some y) :
    (a == b) = true ↔ x = y := by
  rcases toRat?_eq_some_iff.1 ha with ha | ⟨d, p, rfl, rfl⟩ <;>
    rcases toRat?_eq_some_iff.1 hb with hb | ⟨d', p', rfl, rfl⟩
  · exact beq_iff ha hb
  · have heq : (a == float (.finite d') p') = decide (BigFloat.dyadicOfRat? x = some d') := by
      rcases exactValue?_eq_some_iff.1 ha with ⟨m, rfl, rfl⟩ | rfl <;> rfl
    rw [heq, decide_eq_true_iff, dyadicOfRat?_eq_some_iff]
    exact eq_comm
  · have heq : (float (.finite d) p == b) = decide (BigFloat.dyadicOfRat? y = some d) := by
      rcases exactValue?_eq_some_iff.1 hb with ⟨m, rfl, rfl⟩ | rfl <;> rfl
    rw [heq, decide_eq_true_iff, dyadicOfRat?_eq_some_iff]
  · have heq : (float (.finite d) p == float (.finite d') p') = decide (d = d') := by
      simp [BEq.beq, eq, exactValue?, bigFloat, BigFloat.eq]
    rw [heq, decide_eq_true_iff, Dyadic.toRat_inj]

/-- Finite numbers are the same constant just when their values are equal. -/
lemma same_iff_of_toRat? (ha : a.toRat? = some x) (hb : b.toRat? = some y) :
    a.same b = true ↔ x = y := by
  have hmark : a.bigFloat.sharesMark b.bigFloat = false := by
    rcases toRat?_eq_some_iff.1 ha with ha | ⟨d, p, rfl, rfl⟩
    · rw [bigFloat_of_exactValue? ha]
      rfl
    · rfl
  rw [same, hmark, Bool.or_false, beq_iff_of_toRat? ha hb]

/-! ### All numbers -/

lemma toRat?_eq_none_iff : a.toRat? = none ↔
    (∃ s p, a = float (.infinite s) p) ∨ ∃ m p, a = float (.nan m) p := by
  cases a with
  | float z p => cases z <;> simp [toRat?]
  | _ => simp [toRat?]

/-- A finite number is no other constant. -/
lemma not_same_of_toRat? (ha : a.toRat? = some x) (hb : b.toRat? = none) :
    a.same b = false ∧ b.same a = false := by
  rcases toRat?_eq_none_iff.1 hb with ⟨s, p, rfl⟩ | ⟨m, p, rfl⟩ <;>
    rcases toRat?_eq_some_iff.1 ha with ha | ⟨d, q, rfl, rfl⟩
  · rcases exactValue?_eq_some_iff.1 ha with ⟨m, rfl, rfl⟩ | rfl <;> exact ⟨rfl, rfl⟩
  · exact ⟨rfl, rfl⟩
  · rcases exactValue?_eq_some_iff.1 ha with ⟨m, rfl, rfl⟩ | rfl <;> exact ⟨rfl, rfl⟩
  · exact ⟨rfl, rfl⟩

/-- Two numbers are the same constant if they have the same value, are the same infinity, or carry
the same mark. -/
lemma same_cases (h : a.same b) : (∃ x, a.toRat? = some x ∧ b.toRat? = some x) ∨
    (∃ s p q, a = float (.infinite s) p ∧ b = float (.infinite s) q) ∨
      ∃ m p q, a = float (.nan m) p ∧ b = float (.nan m) q := by
  match ha : a.toRat?, hb : b.toRat? with
  | some x, some y =>
    obtain rfl := (same_iff_of_toRat? ha hb).1 h
    exact .inl ⟨x, rfl, rfl⟩
  | some x, none => simp [(not_same_of_toRat? ha hb).1] at h
  | none, some y => simp [(not_same_of_toRat? hb ha).2] at h
  | none, none =>
    right
    rcases toRat?_eq_none_iff.1 ha with ⟨s, p, rfl⟩ | ⟨m, p, rfl⟩ <;>
      rcases toRat?_eq_none_iff.1 hb with ⟨t, q, rfl⟩ | ⟨n, q, rfl⟩ <;>
      simp [same, BEq.beq, eq, exactValue?, bigFloat, BigFloat.eq, BigFloat.sharesMark] at h
    · exact .inl ⟨s, p, q, rfl, h ▸ rfl⟩
    · exact .inr ⟨m, p, q, rfl, Mark.eq_of_agrees h ▸ rfl⟩

/-- What equals zero is zero. -/
lemma isZero_of_beq (h : a == b) (hb : b.isZero) : a.isZero := by
  have hb := isZero_iff_toRat?.1 hb
  match ha : a.toRat? with
  | some x =>
    rw [isZero_iff_toRat?, ha, (beq_iff_of_toRat? ha hb).1 h]
  | none =>
    have hsame := (not_same_of_toRat? hb ha).2
    simp [same, h] at hsame

/-- To be the same constant as one is to be one. -/
lemma same_one_iff : a.same 1 = true ↔ a.isOne = true := by
  match ha : a.toRat? with
  | some x =>
    rw [same_iff_of_toRat? ha (y := 1) rfl]
    rcases toRat?_eq_some_iff.1 ha with ha | ⟨d, p, rfl, rfl⟩
    · exact (isOne_iff ha).symm
    · have hone : (Dyadic.ofInt 1).toRat = 1 := rfl
      rw [← hone, Dyadic.toRat_inj]
      simp [isOne, BigFloat.one, BigFloat.ofInt]
  | none =>
    rw [(not_same_of_toRat? (a := 1) (x := 1) rfl ha).2]
    rcases toRat?_eq_none_iff.1 ha with ⟨s, p, rfl⟩ | ⟨m, p, rfl⟩ <;>
      simp [isOne, BigFloat.one, BigFloat.ofInt]

lemma not_isOne_of_beq_neg_one (h : a == integer (-1)) : a.isOne = false := by
  match ha : a.toRat? with
  | some x =>
    have hx : x = -1 := (beq_iff_of_toRat? ha (y := -1) rfl).1 h
    rw [Bool.eq_false_iff, Ne, ← same_one_iff, same_iff_of_toRat? ha (y := 1) rfl, hx]
    decide
  | none =>
    have hsame := (not_same_of_toRat? (a := integer (-1)) (x := -1) rfl ha).2
    simp [same, h] at hsame

end Number

end SymbolicAlgebra
