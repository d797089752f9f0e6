import SymbolicAlgebra.Simplify.Termination.Product
import SymbolicAlgebra.Simplify.Termination.Sum

/-!
# Simplification needs a bounded depth only

A simplifier that settles all expressions of a smaller depth than `e` makes one that settles `e`
(`step_settles`). So `within n` has an outcome for every expression of a depth below `n`, and its
result has no greater rank and is tidy (`within_settles`).
-/

namespace SymbolicAlgebra.Simplify

open SymbolicAlgebra.Expr Bounded

variable {simp : Expr → Bounded Expr} {n : Nat}

/-! ### The other rules -/

theorem quotient_reduces {n d r : Expr} (hn : Tidy n) (hd : Tidy d) (h : quotient n d = .ok r) :
    Reduces (.div n d) r := by
  unfold quotient at h
  split at h
  · obtain ⟨c, -, h⟩ := bind_eq_ok_iff.1 h
    obtain rfl := pure_eq_ok_iff.1 h
    exact ⟨by simp only [rank]; omega, trivial⟩
  · obtain rfl := pure_eq_ok_iff.1 h
    exact ⟨Nat.le_refl _, hn, hd⟩

theorem constantPower_reduces {b p : Number} {r : Expr} (h : constantPower b p = .ok r) :
    Reduces (.pow (.const b) (.const p)) r := by
  unfold constantPower at h
  split at h
  · obtain rfl := pure_eq_ok_iff.1 h
    exact ⟨by simp only [rank]; omega, trivial⟩
  · obtain rfl := pure_eq_ok_iff.1 h
    exact ⟨Nat.le_refl _, trivial, trivial⟩
  · cases h

/-- The power of a power has a greater rank than the product of the exponents, and than the power
that it becomes. -/
theorem rank_pow_pow (b p q : Expr) :
    p.rank * q.rank < (Expr.pow (.pow b q) p).rank ∧
      (b.rank - 1) * (p.rank * q.rank) + 2 < (Expr.pow (.pow b q) p).rank := by
  have hb := b.two_le_rank
  have hp := p.two_le_rank
  obtain ⟨β, hβ⟩ : ∃ β, b.rank = β + 2 := ⟨b.rank - 2, by omega⟩
  simp only [rank, hβ]
  grind

theorem powerOf_settles {b p : Expr} (h : Handles simp n) (hb : Tidy b) (hp : Tidy p)
    (hn : (Expr.pow b p).rank ≤ n + 1) : (powerOf simp b p).Settles (Reduces (.pow b p)) := by
  unfold powerOf
  split
  · next b q =>
    have hlt := rank_pow_pow b p q
    refine (h (.mul p q) (by simp only [rank] at *; omega)).bind fun r hr => ?_
    have hle : (Expr.pow b r).rank ≤ (b.rank - 1) * (p.rank * q.rank) + 2 := by
      have := Nat.mul_le_mul_left (b.rank - 1) hr.1
      simpa only [rank, Nat.add_le_add_iff_right] using this
    exact (h _ (by omega)).mono fun x hx => ⟨by have := hx.1; omega, hx.2⟩
  · exact settles_ofExcept fun r hr => constantPower_reduces hr
  · exact settles_pure ⟨Nat.le_refl _, hb, hp⟩

theorem power_settles {b p : Expr} (h : Handles simp n) (hb : Tidy b) (hp : Tidy p)
    (hn : (Expr.pow b p).rank ≤ n + 1) : (power simp b p).Settles (Reduces (.pow b p)) := by
  unfold power
  split
  · split
    · exact settles_pure ⟨Nat.le_of_lt (rank_base_lt_pow _ _), hb⟩
    · split
      · exact settles_pure ⟨by simp only [rank]; omega, trivial⟩
      · exact powerOf_settles h hb hp hn
  · exact powerOf_settles h hb hp hn

/-- The opposite of a product is of its rank, but no opposite by itself. -/
theorem opposite_settles {e : Expr} (h : ∀ x, depth x ≤ 4 * e.rank → (simp x).Settles (Reduces x))
    (he : Tidy e) : (opposite simp e).Settles (Reduces (.neg e)) := by
  cases e with
  | const c => exact settles_pure ⟨by simp only [rank]; omega, trivial⟩
  | add l r =>
    refine (h (.add (.neg l) (.neg r)) ?_).mono fun x hx => ⟨Nat.le_trans hx.1 ?_, hx.2⟩ <;>
      simp only [depth, rank] <;> omega
  | sub l r =>
    refine (h (.add (.neg l) r) ?_).mono fun x hx => ⟨Nat.le_trans hx.1 ?_, hx.2⟩ <;>
      simp only [depth, rank] <;> omega
  | mul l r =>
    refine (h (.mul (.neg l) r) ?_).mono fun x hx => ⟨Nat.le_trans hx.1 ?_, hx.2⟩ <;>
      simp only [depth, rank, Nat.mul_assoc] <;> omega
  | div n d =>
    refine (h (.div (.neg n) d) ?_).mono fun x hx => ⟨Nat.le_trans hx.1 ?_, hx.2⟩ <;>
      simp only [depth, rank] <;> omega
  | neg e => exact settles_pure ⟨by simp only [rank]; omega, he.2⟩
  | var x => exact settles_pure ⟨Nat.le_refl _, rfl, he⟩
  | pow b p => exact settles_pure ⟨Nat.le_refl _, rfl, he⟩
  | log b a => exact settles_pure ⟨Nat.le_refl _, rfl, he⟩
  | other m k es => exact he.elim

/-! ### All rules together -/

/-- A simplifier for all expressions of a smaller depth makes one for `e`. -/
theorem step_settles {e : Expr} (h : ∀ x, depth x < depth e → (simp x).Settles (Reduces x)) :
    (step simp e).Settles (Reduces e) := by
  have hlt : ∀ x, x.rank < e.rank → (simp x).Settles (Reduces x) := fun x hx =>
    h x (depth_lt_of_rank_lt hx)
  cases e with
  | const c => exact settles_pure ⟨Nat.le_refl _, trivial⟩
  | var x => exact settles_pure ⟨Nat.le_refl _, trivial⟩
  | other m k es => exact settles_throw _
  | add l r => exact sum_settles fun x hx => hlt x (Nat.lt_succ_of_le hx)
  | sub l r =>
    refine (hlt l (by simp only [rank]; omega)).bind fun l' hl =>
      (hlt r (by simp only [rank]; omega)).bind fun r' hr => ?_
    have hl := hl.1
    have hr := hr.1
    refine (hlt (.neg r') (by simp only [rank]; omega)).bind fun m hm => ?_
    have hm := hm.1
    simp only [rank] at hm
    refine (hlt (.add l' m) (by simp only [rank]; omega)).mono fun x hx => ⟨?_, hx.2⟩
    have hx := hx.1
    simp only [rank] at hx ⊢
    omega
  | mul l r =>
    have h2 := (Expr.mul l r).two_le_rank
    refine product_settles (n := (Expr.mul l r).rank - 1) (fun x hx => hlt x ?_) ?_ <;> omega
  | div n d =>
    refine (hlt n (by simp only [rank]; omega)).bind fun n' hn =>
      (hlt d (by simp only [rank]; omega)).bind fun d' hd => settles_ofExcept fun x hx => ?_
    have hx := quotient_reduces hn.2 hd.2 hx
    refine ⟨Nat.le_trans hx.1 ?_, hx.2⟩
    have hn := hn.1
    have hd := hd.1
    simp only [rank]
    omega
  | pow b p =>
    refine (hlt b (rank_base_lt_pow b p)).bind fun b' hb =>
      (hlt p (rank_exponent_lt_pow b p)).bind fun p' hp => ?_
    have hle := rank_pow_mono hb.1 hp.1
    have h2 := (Expr.pow b p).two_le_rank
    exact (power_settles (n := (Expr.pow b p).rank - 1) (fun x hx => hlt x (by omega)) hb.2 hp.2
      (by omega)).mono fun x hx => ⟨Nat.le_trans hx.1 hle, hx.2⟩
  | log b a =>
    refine (hlt b (by simp only [rank]; omega)).bind fun b' hb =>
      (hlt a (by simp only [rank]; omega)).bind fun a' ha => settles_pure ⟨?_, hb.2, ha.2⟩
    have hb := hb.1
    have ha := ha.1
    simp only [rank]
    omega
  | neg e =>
    have h2 := e.two_le_rank
    refine (hlt e (by simp only [rank]; omega)).bind fun e' he => ?_
    refine (opposite_settles (fun x hx => h x ?_) he.2).mono fun x hx =>
      ⟨Nat.le_trans hx.1 ?_, hx.2⟩
    · have he := he.1
      show depth x < 2 * (2 * e.rank) + 1
      omega
    · have he := he.1
      simp only [rank]
      omega

/-- A depth below the bound is enough. -/
theorem within_settles {n : Nat} {e : Expr} (h : depth e < n) :
    (within n e).Settles (Reduces e) := by
  induction n generalizing e with
  | zero => exact absurd h (Nat.not_lt_zero _)
  | succ n ih => exact step_settles fun x hx => ih (by omega)

end SymbolicAlgebra.Simplify
