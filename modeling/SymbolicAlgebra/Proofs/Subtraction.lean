import SymbolicAlgebra.Proofs.NearestEven
import SymbolicAlgebra.Proofs.Rules

/-!
# Subtraction and the opposite

A difference of constants is simplified to the sum of the first and the opposite of the second. The
opposite of a floating point number is rounded to `signPrecision` bits, whatever the precision that
the number carries. So the opposite of the opposite is the number itself, and the sum is the
difference, only where the number has no more bits than that.
-/

namespace SymbolicAlgebra

variable {p : Nat} {n e : Int} {x y : Dyadic}

/-! ### Rounding and the opposite -/

lemma roundScaled_neg (p : Nat) (n e : Int) : roundScaled p (-n) e = -roundScaled p n e := by
  simp only [roundScaled, Int.natAbs_neg, Int.sign_neg, Int.neg_mul]
  split <;> rw [neg_scaled]

lemma roundDyadic_neg (p : Nat) (x : Dyadic) : roundDyadic p (-x) = -roundDyadic p x := by
  obtain ⟨n, e, rfl⟩ := exists_eq_scaled x
  rw [neg_scaled, roundDyadic_scaled, roundDyadic_scaled, roundScaled_neg]

lemma dyadic_neg_inj : -x = -y ↔ x = y :=
  ⟨fun h => by rw [← dyadic_neg_neg x, h, dyadic_neg_neg], fun h => by rw [h]⟩

lemma neg_shiftRight (x : Dyadic) (i : Int) : (-x) >>> i = -(x >>> i) := by
  obtain ⟨n, e, rfl⟩ := exists_eq_scaled x
  rw [neg_scaled, scaled_shiftRight, scaled_shiftRight, neg_scaled]

lemma roundDiv_neg (p : Nat) (a : Int) (b : Nat) : roundDiv p (-a) b = -roundDiv p a b := by
  simp only [roundDiv, Int.natAbs_neg, Int.sign_neg, Int.neg_mul, Int.neg_eq_zero]
  split
  · rfl
  · rw [neg_scaled]

lemma FitsIn.mono {p' : Nat} (h : FitsIn p x) (hp : p ≤ p') : FitsIn p' x := by
  obtain ⟨n, e, hn, rfl⟩ := h
  exact ⟨n, e, hn.trans_le (Nat.pow_le_pow_right two_pos hp), rfl⟩

lemma fitsIn_roundDyadic (hp : 0 < p) (x : Dyadic) : FitsIn p (roundDyadic p x) :=
  (fitsIn_iff hp).2 (roundDyadic_roundDyadic hp x)

/-! ### Sums that are zero -/

lemma scaled_eq_zero_iff : scaled n e = .zero ↔ n = 0 := by
  constructor
  · intro h
    by_contra hn
    obtain ⟨m, k, hm, hmk, -⟩ := exists_ofOdd_eq_scaled hn e
    rw [hmk] at h
    cases h
  · rintro rfl
    rfl

/-- Nothing but zero is rounded to zero. -/
lemma roundDyadic_eq_zero_iff (hp : 0 < p) : roundDyadic p x = .zero ↔ x = .zero := by
  obtain ⟨n, e, rfl⟩ := exists_eq_scaled x
  rw [roundDyadic_scaled, roundScaled]
  split
  · rfl
  · next hlong =>
    rw [scaled_eq_zero_iff, scaled_eq_zero_iff, Int.mul_eq_zero, Int.sign_eq_zero_iff_zero,
      or_iff_left_iff_imp]
    intro hzero
    have hlow : 1 <<< (bitLength n.natAbs - p) ≤ n.natAbs := by
      rw [Nat.one_shiftLeft]
      refine not_lt.1 fun hlt => ?_
      have := bitLength_le_iff.2 hlt
      omega
    have hpos : 0 < 1 <<< (bitLength n.natAbs - p) := by
      rw [Nat.one_shiftLeft]
      exact Nat.two_pow_pos _
    have hnear := (roundQuotient_near n.natAbs _ hpos).1
    rw [Int.natCast_eq_zero.1 hzero] at hnear
    omega

lemma dyadic_add_eq_zero_iff : x + y = .zero ↔ y = -x := by
  rw [← Dyadic.toRat_inj, ← Dyadic.toRat_inj, Dyadic.toRat_add, Dyadic.toRat_neg]
  exact (add_eq_zero_iff_eq_neg).trans (by constructor <;> intro h <;> linarith)

lemma topBit_neg (x : Dyadic) : topBit (-x) = topBit x := by
  cases x with
  | zero => rfl
  | ofOdd n k hn =>
    show ((-n).natAbs.log2 : Int) - k = _
    rw [Int.natAbs_neg]
    rfl

/-- A speck is not the opposite of the value that it is added to. -/
lemma speck_ne_neg {g k : Int} {hn : n % 2 = 1} (hg : g ≤ -k) (y : Dyadic) :
    BigFloat.speck y g ≠ -Dyadic.ofOdd n k hn := by
  intro h
  cases y with
  | zero => cases h
  | ofOdd m i hm =>
    have hsign : m.sign % 2 = 1 := by
      rcases lt_trichotomy m 0 with hneg | rfl | hpos
      · rw [Int.sign_eq_neg_one_of_neg hneg]
        rfl
      · cases hm
      · rw [Int.sign_eq_one_of_pos hpos]
        rfl
    have hspeck : BigFloat.speck (.ofOdd m i hm) g = .ofOdd m.sign (-(g - 1)) hsign := by
      rw [ofOdd_eq_scaled m.sign, Int.neg_neg]
      rfl
    rw [hspeck] at h
    obtain ⟨-, hk⟩ := Dyadic.ofOdd.inj h
    omega

lemma addOrdered_eq_zero_iff (hp : 0 < p) : BigFloat.addOrdered p x y = .zero ↔ x + y = .zero := by
  cases x with
  | zero =>
    rw [BigFloat.addOrdered, roundDyadic_eq_zero_iff hp, dyadic_add_eq_zero_iff]
    rfl
  | ofOdd n k hn =>
    simp only [BigFloat.addOrdered]
    split
    · next hfar =>
      rw [roundDyadic_eq_zero_iff hp, dyadic_add_eq_zero_iff, dyadic_add_eq_zero_iff]
      refine iff_of_false (speck_ne_neg (min_le_left _ _) y) ?_
      rintro rfl
      rw [topBit_neg] at hfar
      omega
    · exact roundDyadic_eq_zero_iff hp

/-- A rounded sum is zero just when the exact sum is. -/
lemma addDyadic_eq_zero_iff (hp : 0 < p) : BigFloat.addDyadic p x y = .zero ↔ x + y = .zero := by
  have hcomm : y + x = .zero ↔ x + y = .zero := by
    rw [← Dyadic.toRat_inj, ← Dyadic.toRat_inj, Dyadic.toRat_add, Dyadic.toRat_add, add_comm]
  cases x with
  | zero =>
    rw [BigFloat.addDyadic, roundDyadic_eq_zero_iff hp, dyadic_add_eq_zero_iff]
    rfl
  | ofOdd n k hn =>
    cases y with
    | zero =>
      rw [← hcomm, dyadic_add_eq_zero_iff]
      show roundDyadic p (.ofOdd n k hn) = .zero ↔ Dyadic.ofOdd n k hn = .zero
      exact roundDyadic_eq_zero_iff hp
    | ofOdd m i hm =>
      simp only [BigFloat.addDyadic]
      split
      · exact addOrdered_eq_zero_iff hp
      · exact (addOrdered_eq_zero_iff hp).trans hcomm

/-! ### Numbers -/

namespace Number

variable {a b : Number}

/-- Whether the opposite of a number is not rounded. -/
def NegatesExactly : Number → Prop
  | float (.finite x) _ => FitsIn signPrecision x
  | _ => True

/-- The binary value of the opposite is the opposite value. -/
lemma exists_toBigFloat_neg (ha : a.isFinite) (hexact : a.NegatesExactly) (p : Nat) :
    ∃ x, a.toBigFloat p = .finite x ∧ (-a).toBigFloat p = .finite (-x) := by
  cases a with
  | integer n => exact ⟨_, rfl, congrArg BigFloat.finite (roundScaled_neg p n 0)⟩
  | rational q =>
    have hneg : -rational q = rational (-q) := rfl
    rw [hneg, toBigFloat, toBigFloat, Rat.neg_num, Rat.neg_den, roundScaled_neg]
    cases roundScaled p q.num 0 with
    | zero => exact ⟨.zero, rfl, rfl⟩
    | ofOdd n k hn =>
      refine ⟨_, rfl, congrArg BigFloat.finite ?_⟩
      rw [roundDiv_neg, neg_shiftRight]
  | float z precision =>
    cases z with
    | finite x =>
      refine ⟨_, rfl, congrArg BigFloat.finite ?_⟩
      have hkept : roundDyadic signPrecision (-x) = -x := (fitsIn_iff (by decide)).1 hexact.neg
      rw [hkept, roundDyadic_neg]
    | infinite => cases ha
    | nan => cases ha

lemma workingPrecision_neg (a b : Number) : workingPrecision a (-b) = workingPrecision a b := by
  cases a <;> cases b <;> rfl

/-- A number is added by subtracting its opposite. -/
lemma add_eq_sub_neg (a : Number) (hb : b.isFinite) (hexact : b.NegatesExactly) :
    a + b = a - -b := by
  have hfloats : onFloats BigFloat.add a b = onFloats BigFloat.sub a (-b) := by
    obtain ⟨y, hy, hneg⟩ := exists_toBigFloat_neg hb hexact (roundingBits (workingPrecision a b))
    rw [onFloats, onFloats, workingPrecision_neg]
    simp only [hy, hneg]
    congr 1
    cases a.toBigFloat (roundingBits (workingPrecision a b)) with
    | finite x =>
      simp only [BigFloat.add, BigFloat.sub, dyadic_neg_neg]
    | infinite => rfl
    | nan => rfl
  cases a with
  | float => exact hfloats
  | integer m =>
    cases b with
    | integer n => exact congrArg integer (by omega : m + n = m - -n)
    | rational r => exact congrArg rational (by ring : (m : Rat) + r = m - -r)
    | float => exact hfloats
  | rational q =>
    cases b with
    | integer n => exact congrArg rational (by push_cast; ring : q + (n : Rat) = q - (-n : Int))
    | rational r => exact congrArg rational (by ring : q + r = q - -r)
    | float => exact hfloats

lemma isFinite_neg (hb : b.isFinite) : (-b).isFinite := by
  cases b with
  | float z _ => cases z <;> first | rfl | exact hb
  | _ => rfl

/-- What was rounded by taking the opposite is kept. -/
lemma negatesExactly_neg (b : Number) : (-b).NegatesExactly := by
  cases b with
  | float z _ =>
    cases z with
    | finite x => exact fitsIn_roundDyadic (by decide) (-x)
    | _ => trivial
  | _ => trivial

lemma neg_neg_float (x : Dyadic) (precision : Int) :
    -(-float (.finite x) precision) = float (.finite (roundDyadic signPrecision x)) precision := by
  show float (.finite (roundDyadic signPrecision (-roundDyadic signPrecision (-x)))) precision = _
  rw [roundDyadic_neg, roundDyadic_neg, roundDyadic_neg, dyadic_neg_neg,
    roundDyadic_roundDyadic (by decide)]

lemma neg_neg_eq (hb : b.isFinite) (hexact : b.NegatesExactly) : -(-b) = b := by
  cases b with
  | integer n => exact congrArg integer (Int.neg_neg n)
  | rational q => exact congrArg rational (neg_neg q)
  | float z _ =>
    cases z with
    | finite x => rw [neg_neg_float, (fitsIn_iff (by decide)).1 hexact]
    | infinite => cases hb
    | nan => cases hb

/-- The opposite of the opposite equals the number just when no bits were lost. -/
lemma neg_neg_beq_iff (hb : b.isFinite) : -(-b) == b ↔ b.NegatesExactly := by
  refine ⟨fun h => ?_, fun hexact => ?_⟩
  · cases b with
    | float z _ =>
      cases z with
      | finite x =>
        rw [neg_neg_float, beq_iff_of_toRat? rfl rfl, Dyadic.toRat_inj] at h
        exact (fitsIn_iff (by decide)).2 h
      | _ => trivial
    | _ => trivial
  · obtain ⟨x, hx⟩ := exists_toRat? hb
    rw [neg_neg_eq hb hexact, beq_iff_of_toRat? hx hx]

lemma add_neg_float (x : Dyadic) (precision : Int) :
    float (.finite x) precision + -float (.finite x) precision =
      float (.finite
        (BigFloat.addDyadic (roundingBits precision) (roundDyadic (roundingBits precision) x)
        (-roundDyadic (roundingBits precision) (roundDyadic signPrecision x)))) precision := by
  show onFloats BigFloat.add (float (.finite x) precision) (-float (.finite x) precision) = _
  rw [onFloats, workingPrecision_neg, workingPrecision, max_self, ← roundDyadic_neg,
    ← roundDyadic_neg]
  rfl

lemma rounded_float_eq_iff {x y : Dyadic} {precision : Int} :
    (float (.finite x) precision).rounded = float (.finite y) precision ↔
      roundDyadic (roundingBits precision) x = y := by
  simp [rounded, BigFloat.round]

lemma isZero_float {x : Dyadic} {precision : Int} :
    (float (.finite x) precision).isZero ↔ x = .zero := by
  cases x <;> simp [isZero, BigFloat.isZero]

/-- A number and its opposite cancel just when the bits that the opposite loses do not count at the
precision of the number. -/
lemma isZero_add_neg_iff (hb : b.isFinite) : (b + -b).isZero ↔ (-(-b)).rounded = b.rounded := by
  cases b with
  | integer n =>
    rw [neg_neg_eq hb trivial]
    exact iff_of_true (decide_eq_true (Int.add_right_neg n)) rfl
  | rational q =>
    rw [neg_neg_eq hb trivial]
    exact iff_of_true (decide_eq_true (add_neg_cancel q)) rfl
  | float z precision =>
    cases z with
    | finite x =>
      rw [add_neg_float, isZero_float, addDyadic_eq_zero_iff (roundingBits_pos precision),
        dyadic_add_eq_zero_iff, neg_neg_float, rounded.eq_1 (.finite x), BigFloat.round,
        rounded_float_eq_iff, dyadic_neg_inj]
    | infinite => cases hb
    | nan => cases hb

/-- In a number that has no more bits than its precision, every bit counts. -/
lemma rounded_neg_neg_iff (hb : b.isFinite) (hround : b.rounded = b) :
    (-(-b)).rounded = b ↔ b.NegatesExactly := by
  refine ⟨fun h => ?_, fun hexact => by rw [neg_neg_eq hb hexact, hround]⟩
  cases b with
  | float z precision =>
    cases z with
    | finite x =>
      have hp := roundingBits_pos precision
      have hfits : FitsIn (roundingBits precision) x :=
        (fitsIn_iff hp).2 (rounded_float_eq_iff.1 hround)
      rw [neg_neg_float, rounded_float_eq_iff] at h
      rcases le_total (roundingBits precision) signPrecision with hle | hle
      · exact hfits.mono hle
      · have hkept :=
          (fitsIn_iff hp).1 ((fitsIn_roundDyadic (p := signPrecision) (by decide) x).mono hle)
        exact (fitsIn_iff (by decide)).2 (hkept.symm.trans h)
    | _ => trivial
  | _ => trivial

/-- A finite number less itself is zero. -/
lemma isZero_sub_self (hb : b.isFinite) : (b - b).isZero := by
  cases b with
  | integer n => exact decide_eq_true (Int.sub_self n)
  | rational q => exact decide_eq_true (sub_self q)
  | float z precision =>
    cases z with
    | finite x =>
      rw [show float (.finite x) precision - float (.finite x) precision =
        onFloats BigFloat.sub (float (.finite x) precision) (float (.finite x) precision) from rfl]
      exact isZero_float.2
        ((addDyadic_eq_zero_iff (roundingBits_pos _)).2 (dyadic_add_eq_zero_iff.2 rfl))
    | infinite => cases hb
    | nan => cases hb

end Number

/-! ### Differences of constants -/

open Simplify

variable {a b : Number}

lemma simplify_add_const (a b : Number) :
    simplify (.add (.const a) (.const b)) = .ok (.const (a.rounded + b)) := by
  have hops : Rules.operands .sum (.add (.const a) (.const b)) = .ok [.const a, .const b] := by
    have hleaf (c : Number) : Rules.operands .sum (.const c) = .ok [.const c] := by
      rw [Rules.operands_leaf rfl, simplify_const]
      rfl
    rw [show Expr.add (.const a) (.const b) = Chain.sum.node (.const a) (.const b) from rfl,
      Rules.operands_node, hleaf, hleaf]
    rfl
  have hsum : Rules.sum [.const a, .const b] = .ok (.const (0 + a + b)) := by
    rfl
  rw [simplify_add, hops, ← Number.zero_add_eq, ← hsum]
  rfl

/-- A difference of constants is simplified by way of the opposite. -/
lemma simplify_sub_const (a : Number) (hb : b.isFinite) :
    simplify (.sub (.const a) (.const b)) = .ok (.const (a.rounded - -(-b))) := by
  have hneg : simplify (.neg (.const b)) = .ok (.const (-b)) := by
    rw [simplify_neg, simplify_const]
    rfl
  rw [simplify_sub, simplify_const, simplify_const]
  simp only [bind, Except.bind, hneg, simplify_add_const]
  rw [Number.add_eq_sub_neg _ (Number.isFinite_neg hb) (Number.negatesExactly_neg b)]

/-- The opposite of the opposite of a number, the sum of a number and its opposite, and the
simplified difference of two constants. They are the number, zero and the difference where the
opposite is not rounded; where it is, a number that has no more bits than its own precision differs
from its opposite's opposite, does not cancel against its opposite, and has a simplified difference
with itself that is not zero. -/
theorem simplify_sub_const_agrees (hb : b.isFinite) :
    (-(-b) == b ↔ b.NegatesExactly) ∧
    ((b + -b).isZero ↔ (-(-b)).rounded = b.rounded) ∧
    (b.rounded = b → ((b + -b).isZero ↔ b.NegatesExactly)) ∧
    (∀ a : Number, simplify (.sub (.const a) (.const b)) = .ok (.const (a.rounded - -(-b)))) ∧
    (∀ a : Number, a.rounded = a → b.NegatesExactly →
      simplify (.sub (.const a) (.const b)) = .ok (.const (a - b))) ∧
    (b.rounded = b → ¬b.NegatesExactly →
      ∃ c, simplify (.sub (.const b) (.const b)) = .ok (.const c) ∧ ¬c == b - b) := by
  have hcancel (hround : b.rounded = b) : (b + -b).isZero ↔ b.NegatesExactly := by
    rw [Number.isZero_add_neg_iff hb, hround, Number.rounded_neg_neg_iff hb hround]
  refine ⟨Number.neg_neg_beq_iff hb, Number.isZero_add_neg_iff hb, hcancel,
    fun a => simplify_sub_const a hb,
    fun a ha hexact => ?_, fun hround hlost => ⟨_, simplify_sub_const b hb, fun hzero => hlost ?_⟩⟩
  · rw [simplify_sub_const a hb, Number.neg_neg_eq hb hexact, ha]
  · rw [hround,
      ← Number.add_eq_sub_neg b (Number.isFinite_neg hb) (Number.negatesExactly_neg b)] at hzero
    exact (hcancel hround).1 (Number.isZero_of_beq hzero (Number.isZero_sub_self hb))

/-- A third less three halves. -/
theorem simplify_sub_const_of_three_halves :
    let a := Number.rational (1 / 3)
    let b := Number.float (.finite (scaled 3 (-1))) 100
    b.isFinite ∧ a.rounded = a ∧ b.NegatesExactly ∧ -(-b) == b ∧ (b + -b).isZero ∧
      simplify (.sub (.const a) (.const b)) = .ok (.const (a - b)) := by
  intro a b
  have hexact : b.NegatesExactly := ⟨3, -1, by decide, rfl⟩
  obtain ⟨hneg, -, hcancel, -, hsub, -⟩ := simplify_sub_const_agrees (b := b) rfl
  have hround : b.rounded = b := by decide +kernel
  exact ⟨rfl, rfl, hexact, hneg.2 hexact, (hcancel hround).2 hexact, hsub a rfl hexact⟩

/-- The least whole number of 54 bits that is odd loses its last bit when its opposite is taken. -/
theorem not_neg_neg_beq_of_odd :
    let b := Number.float (.finite (Dyadic.ofInt 9007199254740993)) 100
    b.isFinite ∧ b.rounded = b ∧ ¬(-(-b) == b) ∧ ¬(b + -b).isZero ∧ (b - b).isZero ∧
      simplify (.sub (.const b) (.const b)) =
          .ok (.const (.float (.finite (Dyadic.ofInt 1)) 100)) := by
  intro b
  refine ⟨rfl, by decide +kernel, by decide +kernel, by decide +kernel, by decide +kernel, ?_⟩
  rw [simplify_sub_const b rfl]
  congr 2

end SymbolicAlgebra
