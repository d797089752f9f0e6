import SymbolicAlgebra.Proofs.DecidableExpr
import SymbolicAlgebra.Proofs.Soundness.Product
import SymbolicAlgebra.Simplify

/-!
# Simplification keeps values

Each rule of simplification keeps the value of an expression that has one, under every valuation of
the variables and for every logarithm, and divides by zero for no such expression (`step_keeps`). So
does simplification (`simplify_value`).
-/

namespace SymbolicAlgebra

namespace Simplify

open Bounded

variable {ν : Valuation} {simp : Expr → Bounded Expr}

lemma quotient_keeps {n d : Expr} {v : Rat} (hv : (Expr.div n d).value ν = some v) :
    (ofExcept (quotient n d)).Ensures (fun r => r.value ν = some v) NoDivision := by
  obtain ⟨x, y, hx, hy, hq⟩ := Expr.value_div_eq_some_iff.1 hv
  unfold quotient
  split
  · obtain ⟨hy0, rfl⟩ := Expr.divValue_eq_some_iff.1 hq
    rw [Number.div_eq_ok hx hy hy0]
    exact ensures_pure rfl
  · exact ensures_pure hv

lemma constantPower_keeps {b p : Number} {v : Rat}
    (hv : (Expr.pow (.const b) (.const p)).value ν = some v) :
    (ofExcept (constantPower b p)).Ensures (fun r => r.value ν = some v) NoDivision := by
  obtain ⟨x, y, hx, hy, hpow⟩ := Expr.value_pow_eq_some_iff.1 hv
  obtain ⟨c, hc, hval⟩ := Number.exactValue?_pow hx hy hpow
  rw [constantPower, hc]
  exact ensures_pure hval

lemma powerOf_keeps (h : Keeps ν simp) {b p : Expr} {v : Rat}
    (hv : (Expr.pow b p).value ν = some v) :
    (powerOf simp b p).Ensures (fun r => r.value ν = some v) NoDivision := by
  unfold powerOf
  split
  · next b q =>
    obtain ⟨x, y, hx, hy, hp⟩ := Expr.value_pow_eq_some_iff.1 hv
    obtain ⟨z, w, hz, hw, hq⟩ := Expr.value_pow_eq_some_iff.1 hx
    refine (h _ _ (Expr.value_mul_eq_some_iff.2 ⟨y, w, hy, hw, rfl⟩)).bind fun r hr => ?_
    exact h _ _ (Expr.value_pow_eq_some_iff.2 ⟨z, y * w, hz, hr, powValue_mul hq hp⟩)
  · exact constantPower_keeps hv
  · exact ensures_pure hv

lemma power_keeps (h : Keeps ν simp) {b p : Expr} {v : Rat}
    (hv : (Expr.pow b p).value ν = some v) :
    (power simp b p).Ensures (fun r => r.value ν = some v) NoDivision := by
  unfold power
  split
  · next c =>
    obtain ⟨x, y, hx, hy, hp⟩ := Expr.value_pow_eq_some_iff.1 hv
    split
    · next hone =>
      obtain rfl := (Number.isOne_iff hy).1 hone
      rw [powValue_one] at hp
      exact ensures_pure (hx.trans hp)
    · split
      · next hzero =>
        obtain rfl := (Number.isZero_iff hy).1 hzero
        rw [powValue_zero] at hp
        exact ensures_pure hp
      · exact powerOf_keeps h hv
  · exact powerOf_keeps h hv

lemma opposite_keeps (h : Keeps ν simp) {e : Expr} {v : Rat} (hv : (Expr.neg e).value ν = some v) :
    (opposite simp e).Ensures (fun r => r.value ν = some v) NoDivision := by
  obtain ⟨z, hz, rfl⟩ := Expr.value_neg_eq_some_iff.1 hv
  cases e with
  | const c => exact ensures_pure (Number.exactValue?_neg hz)
  | var x => exact ensures_pure hv
  | pow b p => exact ensures_pure hv
  | log b a => exact ensures_pure hv
  | other m k es => cases hz
  | neg u =>
    obtain ⟨x, hx, rfl⟩ := Expr.value_neg_eq_some_iff.1 hz
    exact ensures_pure (by rw [hx, neg_neg])
  | add l r =>
    obtain ⟨x, y, hx, hy, rfl⟩ := Expr.value_add_eq_some_iff.1 hz
    refine h _ _ (Expr.value_add_eq_some_iff.2 ⟨-x, -y, ?_, ?_, by ring⟩)
    · exact Expr.value_neg_eq_some_iff.2 ⟨x, hx, rfl⟩
    · exact Expr.value_neg_eq_some_iff.2 ⟨y, hy, rfl⟩
  | sub l r =>
    obtain ⟨x, y, hx, hy, rfl⟩ := Expr.value_sub_eq_some_iff.1 hz
    refine h _ _ (Expr.value_add_eq_some_iff.2 ⟨-x, y, ?_, hy, by ring⟩)
    exact Expr.value_neg_eq_some_iff.2 ⟨x, hx, rfl⟩
  | mul l r =>
    obtain ⟨x, y, hx, hy, rfl⟩ := Expr.value_mul_eq_some_iff.1 hz
    refine h _ _ (Expr.value_mul_eq_some_iff.2 ⟨-x, y, ?_, hy, by ring⟩)
    exact Expr.value_neg_eq_some_iff.2 ⟨x, hx, rfl⟩
  | div n d =>
    obtain ⟨x, y, hx, hy, hq⟩ := Expr.value_div_eq_some_iff.1 hz
    obtain ⟨hy0, rfl⟩ := Expr.divValue_eq_some_iff.1 hq
    refine h _ _ (Expr.value_div_eq_some_iff.2 ⟨-x, y, ?_, hy, ?_⟩)
    · exact Expr.value_neg_eq_some_iff.2 ⟨x, hx, rfl⟩
    · exact Expr.divValue_eq_some_iff.2 ⟨hy0, neg_div y x⟩

/-- A simplifier that keeps values makes one that does, one level up. -/
lemma step_keeps (h : Keeps ν simp) : Keeps ν (step simp) := by
  intro e v hv
  cases e with
  | const c => exact ensures_pure hv
  | var x => exact ensures_pure hv
  | add l r => exact sum_keeps h hv
  | mul l r => exact product_keeps h hv
  | sub l r =>
    obtain ⟨x, y, hx, hy, rfl⟩ := Expr.value_sub_eq_some_iff.1 hv
    refine (h l x hx).bind fun l' hl => (h r y hy).bind fun r' hr => ?_
    refine (h _ _ (Expr.value_neg_eq_some_iff.2 ⟨y, hr, rfl⟩)).bind fun m hm => ?_
    exact h _ _ (Expr.value_add_eq_some_iff.2 ⟨x, -y, hl, hm, by ring⟩)
  | div n d =>
    obtain ⟨x, y, hx, hy, hq⟩ := Expr.value_div_eq_some_iff.1 hv
    refine (h n x hx).bind fun n' hn => (h d y hy).bind fun d' hd => ?_
    exact quotient_keeps (Expr.value_div_eq_some_iff.2 ⟨x, y, hn, hd, hq⟩)
  | pow b p =>
    obtain ⟨x, y, hx, hy, hp⟩ := Expr.value_pow_eq_some_iff.1 hv
    refine (h b x hx).bind fun b' hb => (h p y hy).bind fun p' hp' => ?_
    exact power_keeps h (Expr.value_pow_eq_some_iff.2 ⟨x, y, hb, hp', hp⟩)
  | log b a =>
    obtain ⟨x, y, hx, hy, hl⟩ := Expr.value_log_eq_some_iff.1 hv
    refine (h b x hx).bind fun b' hb => (h a y hy).bind fun a' ha => ensures_pure ?_
    exact Expr.value_log_eq_some_iff.2 ⟨x, y, hb, ha, hl⟩
  | neg u =>
    obtain ⟨x, hx, rfl⟩ := Expr.value_neg_eq_some_iff.1 hv
    refine (h u x hx).bind fun u' hu => ?_
    exact opposite_keeps h (Expr.value_neg_eq_some_iff.2 ⟨x, hu, rfl⟩)
  | other m k es => cases hv

lemma within_keeps (ν : Valuation) (n : Nat) : Keeps ν (within n) := by
  induction n with
  | zero => exact fun e v _ => ⟨fun _ h => (nomatch h), fun _ h => (nomatch h)⟩
  | succ n ih => exact step_keeps ih

end Simplify

lemma simplify_ensures {ν : Valuation} {e : Expr} {v : Rat} (hv : e.value ν = some v) :
    (Bounded.ofExcept (simplify e)).Ensures (fun r => r.value ν = some v) Simplify.NoDivision := by
  obtain ⟨n, hn⟩ := simplify_eq_iff.1 (rfl : simplify e = simplify e)
  have h := Simplify.within_keeps ν n e v hv
  exact ⟨fun r hr => h.1 r (hn.trans hr), fun err herr => h.2 err (hn.trans herr)⟩

/-- An expression with a value is simplified to one with the same value, and its simplification is
not refused as a division by zero. -/
theorem simplify_value {ν : Valuation} {e : Expr} {v : Rat} (hv : e.value ν = some v) :
    (∀ err, simplify e = .error err → ¬err.IsDivisionByZero) ∧
      ∀ r, simplify e = .ok r → r.value ν = some v := by
  have h := simplify_ensures hv
  constructor
  · intro err herr
    exact h.2 err (congrArg some herr)
  · intro r hr
    exact h.1 r (congrArg some hr)

/-- The factors of `x ^ 2 * x ^ (-1)` have values where `x` is not zero. -/
theorem simplify_value_of_cancelled_powers :
    let e : Expr := .mul (.pow (.var "x") (.const 2)) (.pow (.var "x") (.const (-1)))
    let ν : Valuation := ⟨fun _ => 3, fun _ _ => none⟩
    simplify e = .ok (.var "x") ∧ e.value ν = some 3 ∧
      (∀ err, simplify e = .error err → ¬err.IsDivisionByZero) ∧
        ∀ r, simplify e = .ok r → r.value ν = some 3 := by
  intro e ν
  have hv : e.value ν = some 3 := by decide +kernel
  exact ⟨by decide +kernel, hv, simplify_value hv⟩

end SymbolicAlgebra
