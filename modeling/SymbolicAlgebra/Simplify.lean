import SymbolicAlgebra.Simplify.Extends
import SymbolicAlgebra.Simplify.Termination

/-!
# Simplification

`simplify e` is the outcome that the rules have for `e`: a depth that suffices is known beforehand
(`Simplify.depth`), and every depth that suffices gives the same outcome (`simplify_eq_iff`).
-/

namespace SymbolicAlgebra

namespace Simplify

/-- The known depth is enough. -/
theorem isSome_run_within (e : Expr) : (within (depth e + 1) e).run.isSome := by
  obtain ⟨out, hout, -⟩ := within_settles (Nat.lt_succ_self (depth e))
  simp [hout]

end Simplify

/-- The simplified form of an expression. -/
def simplify (e : Expr) : Except Error Expr :=
  (Simplify.within (Simplify.depth e + 1) e).run.get (Simplify.isSome_run_within e)

/-- The simplified form is the outcome of the rules at any depth that suffices. -/
theorem simplify_eq_iff {e : Expr} {out : Except Error Expr} :
    simplify e = out ↔ ∃ n, (Simplify.within n e).run = some out := by
  have hsome := Option.some_get (Simplify.isSome_run_within e)
  constructor
  · rintro rfl
    exact ⟨_, hsome.symm⟩
  · rintro ⟨n, hn⟩
    have hleft := Simplify.within_extends (Nat.le_max_left n (Simplify.depth e + 1)) e _ hn
    have hright :=
      Simplify.within_extends (Nat.le_max_right n (Simplify.depth e + 1)) e _ hsome.symm
    exact Option.some.inj (hright.symm.trans hleft)

/-- A simplified form has no greater rank, and is tidy. -/
theorem reduces_of_simplify {e r : Expr} (h : simplify e = .ok r) : Simplify.Reduces e r := by
  obtain ⟨out, hout, hr⟩ := Simplify.within_settles (Nat.lt_succ_self (Simplify.depth e))
  exact hr r (simplify_eq_iff.2 ⟨_, hout⟩ ▸ h)

end SymbolicAlgebra
