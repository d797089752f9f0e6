import SymbolicAlgebra.Proofs.Exactness.Simplification
import SymbolicAlgebra.Proofs.SubstitutionPaths

/-!
# Canonical forms and solutions of exact expressions

Order only moves operands, substitution puts nothing into whole exponents, and an arithmetic inverse
builds sums, differences, products, quotients and opposites. So all that comes of an exact
expression stays exact, and has its exponents written out (`outcomes_isExactWith`).
-/

namespace SymbolicAlgebra

open SymbolicAlgebra.Expr

variable {E : Expr → Prop} {e r t u : Expr} {x : String}

/-! ### Canonical forms -/

lemma canonical_isExactWith (he : e.IsExactWith IsWholeTree) (h : canonical e = .ok r) :
    r.IsExactWith IsWholeConstant := by
  obtain ⟨u, hu, horder⟩ := bind_eq_ok_iff.1 h
  exact (reordered_order horder).isExactWith_iff.1 (simplify_isExactWith he hu)

/-- No variable is replaced in exponents that are whole numbers. -/
lemma replace_isExactWith (ht : t.IsExactWith IsWholeTree) (he : e.IsExactWith IsWholeTree)
    (h : replace x t e = .ok u) : u.IsExactWith IsWholeTree := by
  induction e generalizing u with
  | const c =>
    obtain rfl := Except.ok.inj h
    exact he
  | var y =>
    obtain rfl := Except.ok.inj h
    split
    · exact ht
    · trivial
  | pow b p ihb _ =>
    obtain ⟨b', hb, hrest⟩ := bind_eq_ok_iff.1 h
    obtain ⟨p', hp, hu⟩ := bind_eq_ok_iff.1 hrest
    obtain rfl := replace_eq_self he.2.2.countOccurrences_eq_zero hp
    rw [← pure_eq_ok_iff.1 hu]
    exact ⟨ihb he.1 hb, he.2⟩
  | neg e ih =>
    obtain ⟨e', he', hu⟩ := bind_eq_ok_iff.1 h
    have hpart := ih he he'
    rw [← pure_eq_ok_iff.1 hu]
    exact hpart
  | other m k es => cases h
  | _ l r ihl ihr =>
    obtain ⟨l', hl, hrest⟩ := bind_eq_ok_iff.1 h
    obtain ⟨r', hr, hu⟩ := bind_eq_ok_iff.1 hrest
    rw [← pure_eq_ok_iff.1 hu]
    exact ⟨ihl he.1 hl, ihr he.2 hr⟩

lemma substitute_isExactWith (ht : t.IsExactWith IsWholeTree) (he : e.IsExactWith IsWholeTree)
    (h : substitute x t e = .ok r) : r.IsExactWith IsWholeConstant := by
  obtain ⟨u, hu, h⟩ := bind_eq_ok_iff.1 h
  exact canonical_isExactWith (replace_isExactWith ht he hu) h

/-! ### Solutions -/

/-- An arithmetic inverse builds a sum, a difference, a product, a quotient or an opposite. -/
lemma Inverse.isExactWith_of_undo {i : Inverse} {node part r' : Expr} (hi : i.isArithmetic)
    (h : i.undo? node r = some (r', part)) (hnode : node.IsExactWith E) (hr : r.IsExactWith E) :
    r'.IsExactWith E ∧ part.IsExactWith E := by
  unfold undo? at h
  split at h <;> cases h
  case h_13 => exact ⟨hr, hnode⟩
  case h_9 | h_10 | h_11 | h_12 => cases hi
  case h_4 | h_8 => exact ⟨⟨hnode.1, hr⟩, hnode.2⟩
  all_goals first | exact ⟨⟨hr, hnode.2⟩, hnode.1⟩ | exact ⟨⟨hr, hnode.1⟩, hnode.2⟩

lemma replayFrom_isExactWith {steps : List Inverse} {node : Expr}
    (hsteps : ∀ i ∈ steps, i.isArithmetic) (h : replayFrom x steps node r = .ok t)
    (hnode : node.IsExactWith E) (hr : r.IsExactWith E) : t.IsExactWith E := by
  induction steps generalizing node r with
  | nil =>
    unfold replayFrom at h
    split at h
    · split at h
      · rwa [← Except.ok.inj h]
      · cases h
    · obtain ⟨_, -, h⟩ := bind_eq_ok_iff.1 h
      cases h
  | cons i steps ih =>
    obtain ⟨hi, hsteps⟩ := List.forall_mem_cons.1 hsteps
    unfold replayFrom at h
    split at h
    · next r' part hundo =>
      obtain ⟨hr', hpart⟩ := Inverse.isExactWith_of_undo hi hundo hnode hr
      exact ih hsteps h hpart hr'
    · obtain ⟨_, -, h⟩ := bind_eq_ok_iff.1 h
      cases h

namespace Equation

variable {a : Equation} {d : Expr} {steps : List Inverse} {note : String}

lemma difference_isExactWith (hl : a.lhs.IsExactWith IsWholeTree)
    (hr : a.rhs.IsExactWith IsWholeTree) (h : a.difference = .ok d) :
    d.IsExactWith IsWholeConstant := by
  obtain ⟨l, hl', h⟩ := bind_eq_ok_iff.1 h
  obtain ⟨r, hr', h⟩ := bind_eq_ok_iff.1 h
  have hlhs := simplify_isExactWith hl hl'
  have hrhs := simplify_isExactWith hr hr'
  have hsum : (Expr.add l (.neg r)).IsExactWith IsWholeTree := ⟨hlhs.toTree, hrhs.toTree⟩
  exact simplify_isExactWith hsum h

lemma solve_isExactWith (hl : a.lhs.IsExactWith IsWholeTree) (hr : a.rhs.IsExactWith IsWholeTree)
    (hd : a.normalize x = .ok (d, note)) (hp : a.plan x d = .ok steps)
    (hsteps : ∀ i ∈ steps, i.isArithmetic) (h : a.solve x = .ok r) :
    r.IsExactWith IsWholeConstant := by
  obtain ⟨t, ht, h⟩ := bind_eq_ok_iff.1 h
  obtain ⟨_, hnormalize, ht⟩ := bind_eq_ok_iff.1 ht
  cases hd.symm.trans hnormalize
  obtain ⟨_, hplan, hreplay⟩ := bind_eq_ok_iff.1 ht
  cases hp.symm.trans hplan
  have hdiff := difference_isExactWith hl hr (difference_of_normalize hd)
  have hrev : ∀ i ∈ steps.reverse, i.isArithmetic := by simpa using hsteps
  exact canonical_isExactWith (replayFrom_isExactWith hrev hreplay hdiff.toTree rfl) h

end Equation

/-- Where the constants of an expression are exact and its exponents are whole numbers to be worked
out, its simplified form, its canonical form, what comes of putting another such expression in for a
variable, and what an equation of two such sides is solved to by arithmetic inverses have exact
constants only, and each of their exponents is a whole number, written out. -/
theorem outcomes_isExactWith (he : e.IsExactWith IsWholeTree) :
    (∀ r, simplify e = .ok r → r.IsExactWith IsWholeConstant) ∧
    (∀ r, canonical e = .ok r → r.IsExactWith IsWholeConstant) ∧
    (∀ x t r, t.IsExactWith IsWholeTree → substitute x t e = .ok r →
      r.IsExactWith IsWholeConstant) ∧
    ∀ (rhs : Expr) (x : String) (d : Expr) (note : String) (steps : List Inverse) (r : Expr),
      rhs.IsExactWith IsWholeTree → Equation.normalize x ⟨e, rhs⟩ = .ok (d, note) →
      Equation.plan x ⟨e, rhs⟩ d = .ok steps → (∀ i ∈ steps, i.isArithmetic) →
      Equation.solve x ⟨e, rhs⟩ = .ok r → r.IsExactWith IsWholeConstant := by
  refine ⟨?_, ?_, ?_, ?_⟩
  · exact fun r => simplify_isExactWith he
  · exact fun r => canonical_isExactWith he
  · exact fun x t r ht => substitute_isExactWith ht he
  · intro rhs x d note steps r hrhs hd hp hsteps h
    exact Equation.solve_isExactWith he hrhs hd hp hsteps h

/-- In `y ^ (2 - 1 * 3) + 2 * x` the exponent is worked out to `-1`; it stays where `x +
3` is put in for `y`, and where the equation with `1/2` is solved for `x`. -/
theorem outcomes_isExactWith_of_negative_exponent :
    let e : Expr := .add (.pow (.var "y") (.sub (.const 2) (.mul (.const 1) (.const 3))))
      (.mul (.const 2) (.var "x"))
    let t : Expr := .add (.var "x") (.const 3)
    let rhs : Expr := .const (.rational (1 / 2))
    let power : Expr := .pow (.var "y") (.const (-1))
    let d : Expr := .add (.const (.rational (-1 / 2))) (.add power (.mul (.const 2) (.var "x")))
    let steps : List Inverse := [.divideByLeft, .subtractLeft, .subtractLeft]
    let s : Expr := .add (.mul (.var "x") (.const 2)) (.pow t (.const (-1)))
    let r : Expr := .div (.add rhs (.neg power)) (.const 2)
    e.IsExactWith IsWholeTree ∧ t.IsExactWith IsWholeTree ∧ rhs.IsExactWith IsWholeTree ∧
      simplify e = .ok (.add power (.mul (.const 2) (.var "x"))) ∧ substitute "y" t e = .ok s ∧
      Equation.normalize "x" ⟨e, rhs⟩ = .ok (d,
        "Normalized ((y ^ (2 - (1 * 3))) + (2 * x)) = 1/2 to (-1/2 + ((y ^ -1) + (2 * x))) = 0") ∧
      Equation.plan "x" ⟨e, rhs⟩ d = .ok steps ∧ Equation.solve "x" ⟨e, rhs⟩ = .ok r ∧
      (Expr.add power (.mul (.const 2) (.var "x"))).IsExactWith IsWholeConstant ∧
      s.IsExactWith IsWholeConstant ∧ r.IsExactWith IsWholeConstant := by
  intro e t rhs power d steps s r
  have he : e.IsExactWith IsWholeTree := by
    refine ⟨⟨trivial, ⟨rfl, rfl, rfl⟩, ?_⟩, rfl, trivial⟩
    exact ⟨⟨rfl, rfl⟩, ⟨rfl, rfl⟩, rfl, rfl⟩
  have ht : t.IsExactWith IsWholeTree := ⟨trivial, rfl⟩
  have hrhs : rhs.IsExactWith IsWholeTree := rfl
  have hsimplify : simplify e = .ok (.add power (.mul (.const 2) (.var "x"))) := by decide +kernel
  have hsubstitute : substitute "y" t e = .ok s := by decide +kernel
  have hd : Equation.normalize "x" ⟨e, rhs⟩ = .ok (d,
      "Normalized ((y ^ (2 - (1 * 3))) + (2 * x)) = 1/2 to (-1/2 + ((y ^ -1) + (2 * x))) = 0") := by
    decide +kernel
  have hp : Equation.plan "x" ⟨e, rhs⟩ d = .ok steps := by decide +kernel
  have hsolve : Equation.solve "x" ⟨e, rhs⟩ = .ok r := by decide +kernel
  obtain ⟨hexact, -, hexactSubstitute, hexactSolve⟩ := outcomes_isExactWith he
  exact ⟨he, ht, hrhs, hsimplify, hsubstitute, hd, hp, hsolve, hexact _ hsimplify,
    hexactSubstitute _ _ _ ht hsubstitute,
    hexactSolve _ _ _ _ _ _ hrhs hd hp (by decide) hsolve⟩

end SymbolicAlgebra
