import SymbolicAlgebra.Proofs.Occurrences.Solving

/-!
# Variables of results

A variable is free in an expression where it occurs (`Expr.mem_freeVariables`). So what
simplification and ordering do to the number of occurrences they do to the free variables, and a
solution has no other variables than its equation, the unknown itself not among them
(`occurrences_of_results`).
-/

namespace SymbolicAlgebra

variable {x y : String} {e r : Expr}

/-! ### Free variables -/

namespace Expr

lemma mem_insertName {names : List String} : y ∈ insertName x names ↔ y = x ∨ y ∈ names := by
  induction names with
  | nil => rw [insertName, List.mem_cons]
  | cons z names ih =>
    unfold insertName
    split
    · next hxz =>
      rw [hxz, List.mem_cons]
      tauto
    · split
      · rw [List.mem_cons]
      · rw [List.mem_cons, List.mem_cons, ih]
        tauto

lemma mem_foldr_insertName {names : List String} : y ∈ names.foldr insertName [] ↔ y ∈ names := by
  induction names with
  | nil => exact Iff.rfl
  | cons x names ih => rw [List.foldr_cons, mem_insertName, List.mem_cons, ih]

/-- The free variables are those that occur. -/
lemma mem_freeVariables : y ∈ e.freeVariables ↔ 0 < e.countOccurrences y :=
  mem_foldr_insertName.trans List.count_pos_iff.symm

/-- Where no variable occurs more often than before there is no new one. -/
lemma freeVariables_subset (h : ∀ y, r.countOccurrences y ≤ e.countOccurrences y) :
    r.freeVariables ⊆ e.freeVariables := by
  intro y hy
  exact mem_freeVariables.2 (Nat.lt_of_lt_of_le (mem_freeVariables.1 hy) (h y))

end Expr

/-! ### Solutions -/

namespace Equation

variable {a : Equation} {t : Expr}

/-- The only occurrence of the unknown is used up. -/
lemma count_unknown_of_solution (h : a.solution x = .ok t) : t.countOccurrences x = 0 := by
  obtain ⟨⟨d, note⟩, -, h⟩ := bind_eq_ok_iff.1 h
  obtain ⟨steps, hsteps, h⟩ := bind_eq_ok_iff.1 h
  have hreplay := count_replayFrom (y := x) h
  rw [count_of_plan hsteps, Expr.countOccurrences_var_self, Expr.countOccurrences_const] at hreplay
  omega

/-- A variable that occurs on no side of an equation does not occur in its solution. -/
lemma mem_freeVariables_of_count_le (h : ∀ y, r.countOccurrences y ≤ a.countOccurrences y)
    (hy : y ∈ r.freeVariables) : y ∈ a.lhs.freeVariables ∨ y ∈ a.rhs.freeVariables := by
  have hpos : 0 < a.lhs.countOccurrences y + a.rhs.countOccurrences y :=
    Nat.lt_of_lt_of_le (Expr.mem_freeVariables.1 hy) (h y)
  rw [Expr.mem_freeVariables, Expr.mem_freeVariables]
  exact Nat.add_pos_iff_pos_or_pos.1 hpos

end Equation

/-- Neither simplification nor the canonical form has more occurrences of a variable than the
expression, and so none of a new one. What an equation is solved to has no occurrence of the
unknown, no more of another variable than both sides together, and so only variables of the
sides. -/
theorem occurrences_of_results :
    (∀ e r, simplify e = .ok r ∨ canonical e = .ok r →
      (∀ y, r.countOccurrences y ≤ e.countOccurrences y) ∧ r.freeVariables ⊆ e.freeVariables) ∧
    ∀ (a : Equation) (x : String) (r : Expr), a.solve x = .ok r →
      r.countOccurrences x = 0 ∧ x ∉ r.freeVariables ∧
        (∀ y, r.countOccurrences y ≤ a.countOccurrences y) ∧
        ∀ y ∈ r.freeVariables, y ∈ a.lhs.freeVariables ∨ y ∈ a.rhs.freeVariables := by
  constructor
  · intro e r h
    have hcount : ∀ y, r.countOccurrences y ≤ e.countOccurrences y := by
      intro y
      rcases h with h | h
      · exact countOccurrences_simplify_le h
      · exact countOccurrences_canonical_le h
    exact ⟨hcount, Expr.freeVariables_subset hcount⟩
  · intro a x r h
    obtain ⟨t, ht, hr⟩ := bind_eq_ok_iff.1 h
    have hunknown : r.countOccurrences x = 0 := by
      have hle := countOccurrences_canonical_le (x := x) hr
      rwa [Equation.count_unknown_of_solution ht, Nat.le_zero] at hle
    have hcount : ∀ y, r.countOccurrences y ≤ a.countOccurrences y := fun y =>
      (countOccurrences_canonical_le hr).trans (Equation.count_solution_le ht)
    refine ⟨hunknown, ?_, hcount, fun y hy => Equation.mem_freeVariables_of_count_le hcount hy⟩
    intro hx
    rw [Expr.mem_freeVariables, hunknown] at hx
    cases hx

/-- The exponents of `x ^ y * x ^ y` are collected on one of its bases, and `2 * x + y = z` is
solved for `x` without it. -/
theorem occurrences_of_results_of_like_factors :
    let x : Expr := .var "x"
    let y : Expr := .var "y"
    let e : Expr := .mul (.pow x y) (.pow x y)
    let r : Expr := .pow x (.mul (.const 2) y)
    let a : Equation := ⟨.add (.mul (.const 2) x) y, .var "z"⟩
    simplify e = .ok r ∧ r.countOccurrences "x" ≤ e.countOccurrences "x" ∧
      ∃ t, a.solve "x" = .ok t ∧ "x" ∉ t.freeVariables ∧
        ∀ v ∈ t.freeVariables, v ∈ ["x", "y"] ∨ v ∈ ["z"] := by
  intro x y e r a
  have hr : simplify e = .ok r := by decide +kernel
  have hsolved : (a.solve "x").isOk = true := by decide +kernel
  obtain ⟨hsimplify, hsolve⟩ := occurrences_of_results
  refine ⟨hr, (hsimplify e r (.inl hr)).1 "x", ?_⟩
  match ht : a.solve "x" with
  | .error err =>
    rw [ht] at hsolved
    cases hsolved
  | .ok t =>
    obtain ⟨-, hx, -, hvariables⟩ := hsolve a "x" t ht
    exact ⟨t, rfl, hx, hvariables⟩

end SymbolicAlgebra
