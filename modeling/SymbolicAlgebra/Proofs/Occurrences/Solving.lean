import SymbolicAlgebra.Proofs.Occurrences
import SymbolicAlgebra.Proofs.Solving

/-!
# Occurrences of variables in solutions

To undo an operation moves its known part to the other side, so no occurrence of a variable is lost
or made (`Inverse.count_undo`). Along a whole plan the one occurrence of the unknown is used up, and
all others end in the solution (`count_replayFrom`); they come from the two sides of the equation
(`Equation.count_solution_le`).
-/

namespace SymbolicAlgebra

variable {x y : String}

lemma Inverse.count_undo {i : Inverse} {node r r' part : Expr}
    (h : i.undo? node r = some (r', part)) :
    r'.countOccurrences y + part.countOccurrences y =
      node.countOccurrences y + r.countOccurrences y := by
  unfold undo? at h
  split at h <;> cases h <;> simp <;> omega

/-- The steps of a plan use up one occurrence of the unknown, and keep all others. -/
lemma count_replayFrom {steps : List Inverse} {node r t : Expr}
    (h : replayFrom x steps node r = .ok t) :
    t.countOccurrences y + (Expr.var x).countOccurrences y =
      node.countOccurrences y + r.countOccurrences y := by
  induction steps generalizing node r with
  | nil =>
    unfold replayFrom at h
    split at h
    · next z =>
      split at h
      · next hzx =>
        obtain rfl := Except.ok.inj h
        rw [hzx, Nat.add_comm]
      · cases h
    · obtain ⟨_, -, h⟩ := bind_eq_ok_iff.1 h
      cases h
  | cons i steps ih =>
    unfold replayFrom at h
    split at h
    · next r' part hundo =>
      rw [ih h, Nat.add_comm]
      exact Inverse.count_undo hundo
    · obtain ⟨_, -, h⟩ := bind_eq_ok_iff.1 h
      cases h

/-- A variable that occurs after a replacement occurs in what is put in, or before it. -/
lemma occurs_of_replace {t e u : Expr} (h : replace x t e = .ok u) (hy : 0 < u.countOccurrences y) :
    0 < e.countOccurrences y ∨ 0 < t.countOccurrences y := by
  induction e generalizing u with
  | const c =>
    obtain rfl := Except.ok.inj h
    exact .inl hy
  | var z =>
    obtain rfl := Except.ok.inj h
    split at hy
    · exact .inr hy
    · exact .inl hy
  | neg e ih =>
    obtain ⟨e', he, h⟩ := bind_eq_ok_iff.1 h
    obtain rfl := pure_eq_ok_iff.1 h
    exact ih he hy
  | other m k es => cases h
  | _ l r ihl ihr =>
    obtain ⟨l', hl, h⟩ := bind_eq_ok_iff.1 h
    obtain ⟨r', hr, h⟩ := bind_eq_ok_iff.1 h
    obtain rfl := pure_eq_ok_iff.1 h
    simp only [Expr.countOccurrences_add, Expr.countOccurrences_sub, Expr.countOccurrences_mul,
      Expr.countOccurrences_div, Expr.countOccurrences_pow, Expr.countOccurrences_log,
      Nat.add_pos_iff_pos_or_pos] at hy ⊢
    have hleft := ihl hl
    have hright := ihr hr
    tauto

namespace Equation

variable {a : Equation} {d t : Expr}

lemma count_difference_le (h : a.difference = .ok d) :
    d.countOccurrences y ≤ a.countOccurrences y := by
  obtain ⟨lhs, hlhs, h⟩ := bind_eq_ok_iff.1 h
  obtain ⟨rhs, hrhs, h⟩ := bind_eq_ok_iff.1 h
  have hsimplified := countOccurrences_simplify_le (x := y) h
  rw [Expr.countOccurrences_add, Expr.countOccurrences_neg] at hsimplified
  exact hsimplified.trans
    (Nat.add_le_add (countOccurrences_simplify_le hlhs) (countOccurrences_simplify_le hrhs))

/-- The unsimplified solution has no more occurrences of a variable than the two sides. -/
lemma count_solution_le (h : a.solution x = .ok t) :
    t.countOccurrences y ≤ a.countOccurrences y := by
  obtain ⟨⟨d, note⟩, hd, h⟩ := bind_eq_ok_iff.1 h
  obtain ⟨steps, -, h⟩ := bind_eq_ok_iff.1 h
  have hreplay := count_replayFrom (y := y) h
  have hdiff := count_difference_le (y := y) (difference_of_normalize hd)
  rw [Expr.countOccurrences_const] at hreplay
  omega

end Equation

end SymbolicAlgebra
