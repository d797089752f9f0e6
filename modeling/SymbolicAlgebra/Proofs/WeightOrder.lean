import Mathlib.Algebra.Order.Field.Rat
import Mathlib.Data.Prod.Lex
import SymbolicAlgebra.Order

/-!
# The order of weights

A weight is never a value that is not a number, and all other values are in a linear order, by their
places (`BigFloat.lt_iff_place`). So the relation by which operands are sorted is total and
transitive on weights.
-/

namespace SymbolicAlgebra

namespace BigFloat

variable {a b c : BigFloat}

/-- Whether a value is not a number. -/
def isNaN : BigFloat → Bool
  | nan _ => true
  | _ => false

/-- The place of a value among all: a class of values by sign, the position of the leading bit, and
the value itself. -/
def place : BigFloat → Nat ×ₗ Int ×ₗ Rat
  | infinite true => toLex (0, toLex (0, 0))
  | finite .zero => toLex (2, toLex (0, 0))
  | finite (.ofOdd n k hn) =>
    if n < 0 then toLex (1, toLex (-topBit (.ofOdd n k hn), (Dyadic.ofOdd n k hn).toRat))
    else toLex (3, toLex (topBit (.ofOdd n k hn), (Dyadic.ofOdd n k hn).toRat))
  | infinite false => toLex (4, toLex (0, 0))
  | nan _ => toLex (0, toLex (0, 0))

lemma ltDyadic_iff_place {x y : Dyadic} : ltDyadic x y ↔ place (finite x) < place (finite y) := by
  cases x with
  | zero =>
    cases y with
    | zero => simp [ltDyadic, isNegative, place]
    | ofOdd n k hn =>
      by_cases h : n < 0 <;> simp [ltDyadic, isNegative, place, h, Prod.Lex.toLex_lt_toLex]
  | ofOdd m j hm =>
    cases y with
    | zero => by_cases h : m < 0 <;> simp [ltDyadic, isNegative, place, h, Prod.Lex.toLex_lt_toLex]
    | ofOdd n k hn =>
      have hlt := Dyadic.toRat_lt_toRat_iff (x := .ofOdd m j hm) (y := .ofOdd n k hn)
      by_cases h : m < 0 <;> by_cases h' : n < 0 <;>
        simp [ltDyadic, isNegative, place, h, h', Prod.Lex.toLex_lt_toLex, hlt]
      -- values of one sign: the leading bit decides, and the values themselves where it is one
      all_goals grind

lemma place_finite (x : Dyadic) :
    toLex (0, toLex (0, 0)) < place (finite x) ∧ place (finite x) < toLex (4, toLex (0, 0)) := by
  cases x with
  | zero => simp [place, Prod.Lex.toLex_lt_toLex]
  | ofOdd n k hn => by_cases h : n < 0 <;> simp [place, h, Prod.Lex.toLex_lt_toLex]

lemma lt_iff_place (ha : a.isNaN = false) (hb : b.isNaN = false) : a.lt b ↔ place a < place b := by
  cases a with
  | nan m => cases ha
  | finite x =>
    have hx := place_finite x
    cases b with
    | nan m => cases hb
    | finite y => exact ltDyadic_iff_place
    | infinite t =>
      cases t with
      | true => exact iff_of_false (by simp [lt]) (not_lt_of_gt hx.1)
      | false => exact iff_of_true rfl hx.2
  | infinite s =>
    cases b with
    | nan m => cases hb
    | finite y =>
      have hy := place_finite y
      cases s with
      | true => exact iff_of_true rfl hy.1
      | false => exact iff_of_false (by simp [lt]) (not_lt_of_gt hy.2)
    | infinite t => cases s <;> cases t <;> simp [lt, place, Prod.Lex.toLex_lt_toLex]

end BigFloat

variable {a b c : BigFloat}

lemma heavierOrEqual_iff_place (ha : a.isNaN = false) (hb : b.isNaN = false) :
    heavierOrEqual a b ↔ b.place ≤ a.place := by
  rw [heavierOrEqual, Bool.not_eq_true', ← Bool.not_eq_true, BigFloat.lt_iff_place ha hb, not_lt]

lemma heavierOrEqual_trans (ha : a.isNaN = false) (hb : b.isNaN = false) (hc : c.isNaN = false)
    (h : heavierOrEqual a b) (h' : heavierOrEqual b c) : heavierOrEqual a c := by
  rw [heavierOrEqual_iff_place ha hc]
  exact le_trans ((heavierOrEqual_iff_place hb hc).1 h') ((heavierOrEqual_iff_place ha hb).1 h)

lemma Expr.isNaN_weight {e : Expr} {w : BigFloat} (h : e.weight = .ok w) : w.isNaN = false := by
  obtain ⟨v, -, h⟩ := bind_eq_ok_iff.1 h
  split at h
  · obtain rfl := pure_eq_ok_iff.1 h
    rfl
  · next hv =>
    obtain rfl := pure_eq_ok_iff.1 h
    cases v with
    | nan m => exact absurd rfl (hv m)
    | _ => rfl

end SymbolicAlgebra
