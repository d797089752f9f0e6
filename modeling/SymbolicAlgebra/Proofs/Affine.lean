import SymbolicAlgebra.Proofs.Evaluation
import SymbolicAlgebra.Proofs.NumeralLength

/-!
# Affine expressions

An expression is affine in a variable `x` if it is built from exact constants and `x` by sums,
differences, opposites, products with a factor free of `x`, and quotients by a divisor that is free
of `x` and not zero. It stands for `a * x + b`; `a` is its slope and `b` its intercept.

A line is an affine expression in which nothing but constants stands beside the path to the one
place of `x`, and none of the constants that multiply or divide is zero. Its slope is not zero.
-/

namespace SymbolicAlgebra

open Simplify

/-! ### Affine expressions -/

/-- An expression that stands for `a * x + b`. -/
inductive IsAffine (x : String) : Expr → (a b : Rat) → Prop where
  | const {c : Number} {q : Rat} (hc : c.exactValue? = some q) : IsAffine x (.const c) 0 q
  | var : IsAffine x (.var x) 1 0
  | add {l r : Expr} {a b a' b' : Rat} (hl : IsAffine x l a b) (hr : IsAffine x r a' b') :
      IsAffine x (.add l r) (a + a') (b + b')
  | sub {l r : Expr} {a b a' b' : Rat} (hl : IsAffine x l a b) (hr : IsAffine x r a' b') :
      IsAffine x (.sub l r) (a - a') (b - b')
  | neg {e : Expr} {a b : Rat} (he : IsAffine x e a b) : IsAffine x (.neg e) (-a) (-b)
  | mulLeft {l r : Expr} {k a b : Rat} (hl : IsAffine x l 0 k) (hfree : l.countOccurrences x = 0)
      (hr : IsAffine x r a b) : IsAffine x (.mul l r) (k * a) (k * b)
  | mulRight {l r : Expr} {k a b : Rat} (hl : IsAffine x l a b) (hr : IsAffine x r 0 k)
      (hfree : r.countOccurrences x = 0) : IsAffine x (.mul l r) (k * a) (b * k)
  | div {n d : Expr} {k a b : Rat} (hn : IsAffine x n a b) (hd : IsAffine x d 0 k)
      (hfree : d.countOccurrences x = 0) (hk : k ≠ 0) : IsAffine x (.div n d) (a / k) (b / k)

/-- An affine expression with one place of `x` and nothing but constants beside the path to it. -/
inductive IsLine (x : String) : Expr → (a b : Rat) → Prop where
  | var : IsLine x (.var x) 1 0
  | neg {e : Expr} {a b : Rat} (he : IsLine x e a b) : IsLine x (.neg e) (-a) (-b)
  | add {c : Number} {e : Expr} {k a b : Rat} (hc : c.exactValue? = some k) (he : IsLine x e a b) :
      IsLine x (.add (.const c) e) a (k + b)
  | mul {c : Number} {e : Expr} {k a b : Rat} (hc : c.exactValue? = some k) (hk : k ≠ 0)
      (he : IsLine x e a b) : IsLine x (.mul (.const c) e) (k * a) (k * b)
  | div {c : Number} {e : Expr} {k a b : Rat} (hc : c.exactValue? = some k) (hk : k ≠ 0)
      (he : IsLine x e a b) : IsLine x (.div e (.const c)) (a / k) (b / k)

variable {x : String} {e l r : Expr} {a b a' b' : Rat} {ν : Valuation}

lemma IsAffine.congr (h : IsAffine x e a b) (ha : a = a') (hb : b = b') : IsAffine x e a' b' := by
  rw [← ha, ← hb]
  exact h

lemma IsLine.congr (h : IsLine x e a b) (ha : a = a') (hb : b = b') : IsLine x e a' b' := by
  rw [← ha, ← hb]
  exact h

/-- An affine expression has the value that it stands for. -/
lemma IsAffine.value_eq (h : IsAffine x e a b) (ν : Valuation) :
    e.value ν = some (a * ν.letter x + b) := by
  induction h with
  | const hc => simpa [Expr.value] using hc
  | var => simp [Expr.value]
  | add _ _ ihl ihr =>
    rw [Expr.value_add_eq_some_iff]
    exact ⟨_, _, ihl, ihr, by ring⟩
  | sub _ _ ihl ihr =>
    rw [Expr.value_sub_eq_some_iff]
    exact ⟨_, _, ihl, ihr, by ring⟩
  | neg _ ih =>
    rw [Expr.value_neg_eq_some_iff]
    exact ⟨_, ih, by ring⟩
  | mulLeft _ _ _ ihl ihr =>
    rw [Expr.value_mul_eq_some_iff]
    exact ⟨_, _, ihl, ihr, by ring⟩
  | mulRight _ _ _ ihl ihr =>
    rw [Expr.value_mul_eq_some_iff]
    exact ⟨_, _, ihl, ihr, by ring⟩
  | div _ _ _ hk ihn ihd =>
    rw [zero_mul, zero_add] at ihd
    rw [Expr.value_div_eq_some_iff]
    exact ⟨_, _, ihn, ihd, Expr.divValue_eq_some_iff.2 ⟨hk, by ring⟩⟩

/-- Where `x` does not occur, the slope is zero. -/
lemma IsAffine.slope_eq_zero (h : IsAffine x e a b) (hx : e.countOccurrences x = 0) : a = 0 := by
  induction h with
  | const => rfl
  | var => simp at hx
  | add _ _ ihl ihr | sub _ _ ihl ihr =>
    simp only [Expr.countOccurrences_add, Expr.countOccurrences_sub, Nat.add_eq_zero_iff] at hx
    rw [ihl hx.1, ihr hx.2]
    simp
  | neg _ ih => rw [ih hx, neg_zero]
  | mulLeft _ _ _ _ ihr =>
    rw [Expr.countOccurrences_mul, Nat.add_eq_zero_iff] at hx
    rw [ihr hx.2, mul_zero]
  | mulRight _ _ _ ihl _ =>
    rw [Expr.countOccurrences_mul, Nat.add_eq_zero_iff] at hx
    rw [ihl hx.1, mul_zero]
  | div _ _ _ _ ihn _ =>
    rw [Expr.countOccurrences_div, Nat.add_eq_zero_iff] at hx
    rw [ihn hx.1, zero_div]

lemma IsAffine.isExact (h : IsAffine x e a b) : e.IsExact := by
  induction h with
  | const hc => exact Number.isExact_of_exactValue? hc
  | var => trivial
  | neg _ ih => exact ih
  | add _ _ ihl ihr | sub _ _ ihl ihr => exact ⟨ihl, ihr⟩
  | mulLeft _ _ _ ihl ihr => exact ⟨ihl, ihr⟩
  | mulRight _ _ _ ihl ihr => exact ⟨ihl, ihr⟩
  | div _ _ _ _ ihn ihd => exact ⟨ihn, ihd⟩

lemma IsLine.slope_ne_zero (h : IsLine x e a b) : a ≠ 0 := by
  induction h with
  | var => exact one_ne_zero
  | neg _ ih => exact neg_ne_zero.2 ih
  | add _ _ ih => exact ih
  | mul _ hk _ ih => exact mul_ne_zero hk ih
  | div _ hk _ ih => exact div_ne_zero ih hk

lemma IsLine.count_eq_one (h : IsLine x e a b) : e.countOccurrences x = 1 := by
  induction h with
  | var => exact Expr.countOccurrences_var_self x
  | neg _ ih => exact ih
  | add _ _ ih => simpa using ih
  | mul _ _ _ ih => simpa using ih
  | div _ _ _ ih => simpa using ih

lemma IsLine.isAffine (h : IsLine x e a b) : IsAffine x e a b := by
  induction h with
  | var => exact .var
  | neg _ ih => exact .neg ih
  | add hc _ ih => exact (IsAffine.add (.const hc) ih).congr (zero_add _) rfl
  | mul hc _ _ ih => exact .mulLeft (.const hc) (Expr.countOccurrences_const _) ih
  | div hc hk _ ih => exact .div ih (.const hc) (Expr.countOccurrences_const _) hk

/-- What an affine expression is simplified to. -/
def IsSimplified (x : String) (a b : Rat) (r : Expr) : Prop :=
  (a = 0 ∧ IsValue r b) ∨ IsLine x r a b

lemma isAffine_of_isValue (h : IsValue e b) : IsAffine x e 0 b ∧ e.countOccurrences x = 0 := by
  obtain ⟨c, rfl, hc⟩ := h
  exact ⟨.const hc, Expr.countOccurrences_const c⟩

namespace IsSimplified

lemma isAffine (h : IsSimplified x a b r) : IsAffine x r a b := by
  rcases h with ⟨rfl, hr⟩ | hr
  · exact (isAffine_of_isValue hr).1
  · exact hr.isAffine

/-- A simplified expression is a constant where `x` does not occur in the expression that it comes
from. -/
lemma isValue (h : IsSimplified x a b r) (he : IsAffine x e a b) (hx : e.countOccurrences x = 0) :
    IsValue r b := by
  rcases h with ⟨-, hr⟩ | hr
  · exact hr
  · exact absurd (he.slope_eq_zero hx) hr.slope_ne_zero

lemma count_le (h : IsSimplified x a b r) (he : IsAffine x e a b) :
    r.countOccurrences x ≤ e.countOccurrences x := by
  rcases h with ⟨-, hr⟩ | hr
  · rw [(isAffine_of_isValue hr).2]
    exact Nat.zero_le _
  · rw [hr.count_eq_one, Nat.one_le_iff_ne_zero]
    intro hx
    exact hr.slope_ne_zero (he.slope_eq_zero hx)

end IsSimplified

end SymbolicAlgebra
