import Mathlib.Order.Compare
import SymbolicAlgebra.Operand.Arithmetic
import SymbolicAlgebra.Proofs.Evaluation
import SymbolicAlgebra.Proofs.NumberEquality

/-!
# The tower of numbers

An operation on exact numbers has the exact result, as an integer or a rational according to its
operands. Finite numbers of any representation compare as their exact values do, so that they are
ordered like the rationals.
-/

namespace SymbolicAlgebra

namespace Number

variable {a b : Number} {x y : Rat}

/-- The place of a representation in the order in which they widen. -/
def width : Number → Nat
  | integer _ => 0
  | rational _ => 1
  | float _ _ => 2

lemma exactValue?_sub (ha : a.exactValue? = some x) (hb : b.exactValue? = some y) :
    (a - b).exactValue? = some (x - y) := by
  rcases exactValue?_eq_some_iff.1 ha with ⟨m, rfl, rfl⟩ | rfl <;>
    rcases exactValue?_eq_some_iff.1 hb with ⟨n, rfl, rfl⟩ | rfl
  · exact congrArg some (Int.cast_sub m n)
  · rfl
  · rfl
  · rfl

/-- An operation on two numbers has the wider of their representations. -/
lemma width_promote (onInt : Int → Int → Int) (onRat : Rat → Rat → Rat)
    (onFloat : Nat → BigFloat → BigFloat → BigFloat) (a b : Number) :
    (promote onInt onRat onFloat a b).width = max a.width b.width := by
  cases a <;> cases b <;> rfl

/-- A refusal that quotes a number is told as a division by zero just when the number can be
written. -/
lemma isDivisionByZero_iff_of_quotes {err : Error} {q : Rat} (h : err.Quotes q) :
    err.IsDivisionByZero ↔ IsShort q := by
  refine ⟨fun hzero => ?_, h.short⟩
  by_contra hlong
  rw [h.long hlong] at hzero
  exact not_isDivisionByZero_fault _ hzero

/-- What a power of exact numbers with a whole exponent is represented as. -/
lemma width_of_pow {c : Number} (ha : a.exactValue? = some x) (hb : b.exactValue? = some y)
    (hy : y.den = 1) (hc : a.pow b = .ok c) : c.width = if x.den = 1 ∧ 0 ≤ y then 0 else 1 := by
  have hpow : a.pow b = powExact x y.num := by simp [pow, ha, hb, hy]
  simp only [← Rat.num_nonneg (q := y)]
  by_cases hzero : x = 0 ∧ y.num < 0
  · rw [hpow, powExact, if_pos hzero] at hc
    cases ht : integerText y.num <;> rw [ht] at hc <;> cases hc
  · rw [hpow, powExact, if_neg hzero] at hc
    split_ifs at hc ⊢ <;> cases hc <;> rfl

lemma beq_eq_decide (ha : a.toRat? = some x) (hb : b.toRat? = some y) :
    (a == b) = decide (x = y) := by
  rw [Bool.eq_iff_iff, decide_eq_true_iff]
  exact beq_iff_of_toRat? ha hb

/-- Two finite numbers are in the order that their values are in. -/
lemma onNumbers_eq (r : Comparison) (ha : a.toRat? = some x) (hb : b.toRat? = some y) :
    r.onNumbers a b = r.admits (compare x y) := by
  have hlt : a.lt b = decide (x < y) := by simp [lt, ha, hb]
  have heq : a.eq b = decide (x = y) := beq_eq_decide ha hb
  rcases lt_trichotomy x y with h | rfl | h
  · rw [compare_lt_iff_lt.2 h]
    cases r <;> simp [Comparison.onNumbers, Comparison.admits, le, gt, ge, hlt, heq, h, h.ne]
  · rw [compare_eq_iff_eq.2 rfl]
    cases r <;> simp [Comparison.onNumbers, Comparison.admits, le, gt, ge, hlt, heq]
  · rw [compare_gt_iff_gt.2 h]
    cases r <;>
      simp [Comparison.onNumbers, Comparison.admits, le, gt, ge, hlt, heq, h.not_gt, h.ne']

lemma exactValue?_of_isExact (h : a.isExact) (ha : a.toRat? = some x) : a.exactValue? = some x := by
  cases a with
  | float => cases h
  | _ => exact ha

/-- Operations on exact numbers have the exact results, in the wider of the two representations; a
quotient is a rational, and a whole power is an integer where the base is whole and the exponent is
not negative. Division by zero and a negative power of zero are refused, as divisions by zero if the
number that the refusal quotes can be written. Finite numbers compare as their values do, unless one
of them is too long for its value to be written out. -/
theorem agrees_with_values (ha : a.toRat? = some x) (hb : b.toRat? = some y) :
    (a.isExact → b.isExact →
      ((a + b).exactValue? = some (x + y) ∧ (a + b).width = max a.width b.width) ∧
      ((a - b).exactValue? = some (x - y) ∧ (a - b).width = max a.width b.width) ∧
      ((a * b).exactValue? = some (x * y) ∧ (a * b).width = max a.width b.width) ∧
      (y ≠ 0 → a.div b = .ok (rational (x / y))) ∧
      (y = 0 → ∃ err, a.div b = .error err ∧ (err.IsDivisionByZero ↔ IsShort x)) ∧
      (y.den = 1 →
        (x ≠ 0 ∨ 0 ≤ y → ∃ c, a.pow b = .ok c ∧ c.exactValue? = some (x ^ y.num) ∧
          c.width = if x.den = 1 ∧ 0 ≤ y then 0 else 1) ∧
        (x = 0 → y < 0 → ∃ err, a.pow b = .error err ∧ (err.IsDivisionByZero ↔ IsShort y)))) ∧
    (a == b ↔ x = y) ∧ (a.lt b ↔ x < y) ∧
    (Operand.number a).equals (.number b) = (do a.refuseLong; b.refuseLong; return x = y) ∧
    ∀ r : Comparison, (Operand.number a).compare r (.number b) =
      (do a.refuseLong; b.refuseLong; return r.admits (compare x y)) := by
  refine ⟨fun hexact hexact' => ?_, beq_iff_of_toRat? ha hb, ?_, ?_, fun r => ?_⟩
  · have ha := exactValue?_of_isExact hexact ha
    have hb := exactValue?_of_isExact hexact' hb
    refine ⟨⟨exactValue?_add ha hb, width_promote _ _ _ a b⟩,
      ⟨exactValue?_sub ha hb, width_promote _ _ _ a b⟩,
      ⟨exactValue?_mul ha hb, width_promote _ _ _ a b⟩, div_eq_ok ha hb, ?_, fun hy => ⟨?_, ?_⟩⟩
    · rintro rfl
      obtain ⟨err, herr, hquotes⟩ := exists_div_eq_error ha hb
      exact ⟨err, herr, isDivisionByZero_iff_of_quotes hquotes⟩
    · intro h
      obtain ⟨c, hc, hvalue⟩ := exactValue?_pow ha hb (powValue_eq_some_iff.2 ⟨⟨hy, h⟩, rfl⟩)
      exact ⟨c, hc, hvalue, width_of_pow ha hb hy hc⟩
    · intro hx hneg
      have hnone : powValue x y = none :=
        if_neg fun h => h.2.elim (fun hx' => hx' hx) (not_le.2 hneg)
      obtain ⟨err, herr, hquotes⟩ := exists_pow_eq_error ha hb hy hnone
      exact ⟨err, herr, isDivisionByZero_iff_of_quotes hquotes⟩
  · simp [lt, ha, hb]
  · show Operand.equalNumbers a b = _
    rw [Operand.equalNumbers, beq_eq_decide ha hb]
  · show Operand.compareNumbers r a b = _
    rw [Operand.compareNumbers, onNumbers_eq r ha hb]

/-- Seven and a three that is a rational, seven and zero, and a half of 53 bits beside two
thirds. -/
theorem agrees_with_values_of_seven_and_three :
    (integer 7 - rational 3).exactValue? = some 4 ∧ (integer 7 - rational 3).width = 1 ∧
    (integer 7).div (rational 3) = .ok (rational (7 / 3)) ∧
    (∃ c, (integer 7).pow (rational 3) = .ok c ∧ c.exactValue? = some 343 ∧ c.width = 0) ∧
    (∃ err, (integer 7).div 0 = .error err ∧ err.IsDivisionByZero) ∧
    (float (.finite (scaled 1 (-1))) 53).lt (rational (2 / 3)) := by
  have hseven : (integer 7).toRat? = some 7 := rfl
  have hthree : (rational 3).toRat? = some 3 := rfl
  have htwoThirds : (rational (2 / 3)).toRat? = some (2 / 3) := rfl
  have hhalf : (float (.finite (scaled 1 (-1))) 53).toRat? = some (1 / 2) := by decide +kernel
  have hshort : IsShort 7 := by
    show magnitude 7 < numeralBound
    decide +kernel
  obtain ⟨-, ⟨hsub, hwidth⟩, -, hdiv, -, hpow⟩ := (agrees_with_values hseven hthree).1 rfl rfl
  obtain ⟨-, -, -, -, hquotient, -⟩ := (agrees_with_values (b := 0) hseven rfl).1 rfl rfl
  obtain ⟨err, herr, hzero⟩ := hquotient rfl
  obtain ⟨-, -, hlt, -⟩ := agrees_with_values hhalf htwoThirds
  refine ⟨?_, hwidth, hdiv (by decide), ?_, ⟨err, herr, hzero.2 hshort⟩, hlt.2 (by decide +kernel)⟩
  · rw [hsub]
    norm_num
  · obtain ⟨c, hc, hvalue, hwhole⟩ := (hpow rfl).1 (.inl (by decide))
    refine ⟨c, hc, ?_, hwhole.trans (by decide +kernel)⟩
    rw [hvalue]
    decide +kernel

/-- The refusal of a division by zero quotes the dividend, which may be too long for that. -/
theorem not_isDivisionByZero_of_long_numeral :
    ∃ err, (integer (10 ^ 4300)).div 0 = .error err ∧ ¬err.IsDivisionByZero :=
  ⟨.fault .wrongValue, by decide +kernel, not_isDivisionByZero_fault _⟩

end Number

end SymbolicAlgebra
