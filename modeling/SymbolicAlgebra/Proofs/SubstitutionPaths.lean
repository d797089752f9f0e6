import SymbolicAlgebra.Proofs.Affine.Solving
import SymbolicAlgebra.Proofs.Refusals.Order
import SymbolicAlgebra.Statement.Evaluate

/-!
# Two ways to substitute

An expression is made canonical before and after a variable is replaced in it, the sides of an
equation only after. Both ways give the value of the replaced expression, where that has one
(`Statement.substitute_value`): either what is put in has a value `w`, and the expression has its
value where the variable stands for `w`, or the variable does not occur, and then no canonical form
has it.
-/

namespace SymbolicAlgebra

variable {α β : Type} {ν : Valuation} {x : String} {t e u : Expr} {v : Rat}

/-! ### Computations that never divide by zero -/

/-- A computation that is not refused as a division by zero. -/
def NeverDivides (a : Except Error α) : Prop :=
  ∀ err, a = .error err → ¬err.IsDivisionByZero

lemma neverDivides_ok (a : α) : NeverDivides (.ok a) :=
  refusedOnly_ok a

lemma NeverDivides.bind {a : Except Error α} {f : α → Except Error β} (ha : NeverDivides a)
    (hf : ∀ b, a = .ok b → NeverDivides (f b)) : NeverDivides (a >>= f) :=
  RefusedOnly.bind ha hf

lemma admits_noDivision : Admits Simplify.NoDivision where
  limit _ he := he.not_isDivisionByZero
  unsupported _ _ := by
    simp [Simplify.NoDivision, Error.IsDivisionByZero, Error.report, Report.unsupported]

lemma neverDivides_orderWithin (c : Option Chain) (e : Expr) : NeverDivides (orderWithin c e) := by
  refine refusedOnly_orderWithin admits_noDivision (fun x _ => ?_) c
  unfold letterValue
  split
  · exact refusedOnly_ok _
  · exact refusedOnly_error (not_isDivisionByZero_fault _)

lemma neverDivides_replace (x : String) (t e : Expr) : NeverDivides (replace x t e) :=
  refusedOnly_replace admits_noDivision x t e

/-! ### Replacing a variable -/

/-- Where a variable does not occur, replacing it changes nothing. -/
lemma replace_eq_self (hx : e.countOccurrences x = 0) (h : replace x t e = .ok u) : u = e := by
  induction e generalizing u with
  | const c => exact (Except.ok.inj h).symm
  | var y =>
    have hxy : y ≠ x := by
      rintro rfl
      simp [Expr.countOccurrences, Expr.variableNames] at hx
    rw [replace, if_neg hxy] at h
    exact (Except.ok.inj h).symm
  | neg e ih =>
    obtain ⟨e', he, hr⟩ := bind_eq_ok_iff.1 h
    rw [Expr.countOccurrences_neg] at hx
    rw [← pure_eq_ok_iff.1 hr, ih hx he]
  | other m k es => cases h
  | _ l r ihl ihr =>
    obtain ⟨l', hl, hrest⟩ := bind_eq_ok_iff.1 h
    obtain ⟨r', hr, hu⟩ := bind_eq_ok_iff.1 hrest
    simp only [Expr.countOccurrences_add, Expr.countOccurrences_sub, Expr.countOccurrences_mul,
      Expr.countOccurrences_div, Expr.countOccurrences_pow, Expr.countOccurrences_log,
      Nat.add_eq_zero_iff] at hx
    rw [← pure_eq_ok_iff.1 hu, ihl hx.1 hl, ihr hx.2 hr]

/-- What is put in the place of a variable has a value, or the variable does not occur. -/
lemma exists_value_or_count_eq_zero (h : replace x t e = .ok u) (hv : u.value ν = some v) :
    (∃ w, t.value ν = some w) ∨ e.countOccurrences x = 0 := by
  induction e generalizing u v with
  | const c => exact .inr rfl
  | var y =>
    obtain rfl := Except.ok.inj h
    by_cases hxy : y = x
    · rw [if_pos hxy] at hv
      exact .inl ⟨v, hv⟩
    · exact .inr (by simp [Expr.countOccurrences, Expr.variableNames, hxy])
  | neg e ih =>
    obtain ⟨e', he, hr⟩ := bind_eq_ok_iff.1 h
    obtain rfl := pure_eq_ok_iff.1 hr
    obtain ⟨y, hy, -⟩ := Expr.value_neg_eq_some_iff.1 hv
    rw [Expr.countOccurrences_neg]
    exact ih he hy
  | other m k es => cases h
  | _ l r ihl ihr =>
    obtain ⟨l', hl, hrest⟩ := bind_eq_ok_iff.1 h
    obtain ⟨r', hr, hu⟩ := bind_eq_ok_iff.1 hrest
    obtain rfl := pure_eq_ok_iff.1 hu
    simp only [Expr.value_add_eq_some_iff, Expr.value_sub_eq_some_iff, Expr.value_mul_eq_some_iff,
      Expr.value_div_eq_some_iff, Expr.value_pow_eq_some_iff, Expr.value_log_eq_some_iff] at hv
    obtain ⟨y, z, hy, hz, -⟩ := hv
    simp only [Expr.countOccurrences_add, Expr.countOccurrences_sub, Expr.countOccurrences_mul,
      Expr.countOccurrences_div, Expr.countOccurrences_pow, Expr.countOccurrences_log,
      Nat.add_eq_zero_iff]
    rcases ihl hl hy with ht | hl0
    · exact .inl ht
    · rcases ihr hr hz with ht | hr0
      · exact .inl ht
      · exact .inr ⟨hl0, hr0⟩

/-! ### Values -/

/-- A computation that gives an expression with a value, and is refused for another reason than a
division by zero, if at all. -/
def GivesValue (ν : Valuation) (v : Rat) (a : Except Error Expr) : Prop :=
  NeverDivides a ∧ ∀ r, a = .ok r → r.value ν = some v

lemma givesValue_canonical (hv : e.value ν = some v) : GivesValue ν v (canonical e) := by
  constructor
  · have hsimplify : NeverDivides (simplify e) := fun err herr =>
      (simplify_ensures hv).2 err (congrArg some herr)
    exact hsimplify.bind fun _ _ => neverDivides_orderWithin none _
  · intro r hr
    exact Equation.value_of_canonical hr hv

lemma GivesValue.bind {a : Except Error α} {f : α → Except Error Expr} (ha : NeverDivides a)
    (hf : ∀ b, a = .ok b → GivesValue ν v (f b)) : GivesValue ν v (a >>= f) := by
  constructor
  · exact ha.bind fun b hb => (hf b hb).1
  · intro r hr
    obtain ⟨b, hb, hr⟩ := bind_eq_ok_iff.1 hr
    exact (hf b hb).2 r hr

lemma givesValue_substitute (h : ∀ u, replace x t e = .ok u → u.value ν = some v) :
    GivesValue ν v (substitute x t e) :=
  GivesValue.bind (neverDivides_replace x t e) fun u hu => givesValue_canonical (h u hu)

/-- The canonical form of an expression with a variable replaced has the value of the expression
with the variable replaced. -/
lemma value_replace_canonical {r r' : Expr} (hu : replace x t e = .ok u)
    (hv : u.value ν = some v) (hr : canonical e = .ok r) (hr' : replace x t r = .ok r') :
    r'.value ν = some v := by
  rcases exists_value_or_count_eq_zero hu hv with ⟨w, ht⟩ | hx
  · have he : e.value (ν.set x w) = some v := by rw [← value_replace hu ht, hv]
    rw [value_replace hr' ht]
    exact (givesValue_canonical he).2 r hr
  · obtain rfl := replace_eq_self hx hu
    have hrx : r.countOccurrences x = 0 :=
      Nat.eq_zero_of_le_zero (hx ▸ countOccurrences_canonical_le hr)
    rw [replace_eq_self hrx hr']
    exact (givesValue_canonical hv).2 r hr

/-- An expression is not refused as a division by zero where replacing the variable gives a
value. -/
lemma neverDivides_canonical_of_replace (hu : replace x t e = .ok u) (hv : u.value ν = some v) :
    NeverDivides (canonical e) := by
  rcases exists_value_or_count_eq_zero hu hv with ⟨w, ht⟩ | hx
  · have he : e.value (ν.set x w) = some v := by rw [← value_replace hu ht, hv]
    exact (givesValue_canonical he).1
  · obtain rfl := replace_eq_self hx hu
    exact (givesValue_canonical hv).1

lemma givesValue_substitute_canonical (hu : replace x t e = .ok u) (hv : u.value ν = some v) :
    GivesValue ν v (canonical e >>= substitute x t) :=
  GivesValue.bind (neverDivides_canonical_of_replace hu hv) fun _ hr =>
    givesValue_substitute fun _ hr' => value_replace_canonical hu hv hr hr'

namespace Statement

/-- The outcome of a substitution in an expression is the formula of its canonical form with the
variable replaced. -/
lemma evaluate_substitute_expr (x : String) (t e : Expr) :
    (Statement.mk (.expr e) (some (.substitute x t))).evaluate = (do
      return .formula ⟨← canonical e >>= SymbolicAlgebra.substitute x t⟩) := by
  simp only [evaluate, Body.substitute, Formula.ofExpr, Formula.substitute]
  cases canonical e with
  | error err => rfl
  | ok r =>
    dsimp only [bind, Except.bind, pure, Except.pure]
    cases SymbolicAlgebra.substitute x t r <;> rfl

/-- Whether a variable is replaced before or after an expression is made canonical, what comes out
has the value of the expression with the variable replaced, and a division by zero is not the reason
where nothing comes out. In an equation this holds of each side, whatever the other one is. -/
theorem substitute_value (hu : replace x t e = .ok u) (hv : u.value ν = some v) :
    let outcome := (Statement.mk (.expr e) (some (.substitute x t))).evaluate
    ((∀ err, outcome = .error err → ¬err.IsDivisionByZero) ∧
      ∀ out, outcome = .ok out → ∃ r, out = .formula ⟨r⟩ ∧ r.value ν = some v) ∧
    (∀ err, substitute x t e = .error err → ¬err.IsDivisionByZero) ∧
    (∀ r, substitute x t e = .ok r → r.value ν = some v) ∧
    ∀ f : Expr,
      (∀ a, Equation.substitute x t ⟨e, f⟩ = .ok a → a.lhs.value ν = some v) ∧
      (∀ a, Equation.substitute x t ⟨f, e⟩ = .ok a → a.rhs.value ν = some v) ∧
      ∀ err, err.IsDivisionByZero →
        (Equation.substitute x t ⟨e, f⟩ = .error err ∨
          Equation.substitute x t ⟨f, e⟩ = .error err) → substitute x t f = .error err := by
  have hcanonical := givesValue_substitute_canonical hu hv
  have hraw : GivesValue ν v (substitute x t e) :=
    givesValue_substitute fun u' hu' => by rwa [← Except.ok.inj (hu.symm.trans hu')]
  intro outcome
  refine ⟨⟨?_, ?_⟩, hraw.1, hraw.2, ?_⟩
  · intro err herr
    simp only [outcome, evaluate_substitute_expr] at herr
    exact (hcanonical.1.bind fun _ _ => neverDivides_ok _) err herr
  · intro out hout
    simp only [outcome, evaluate_substitute_expr] at hout
    obtain ⟨r, hr, hout⟩ := bind_eq_ok_iff.1 hout
    exact ⟨r, (pure_eq_ok_iff.1 hout).symm, hcanonical.2 r hr⟩
  · intro f
    refine ⟨?_, ?_, ?_⟩
    · intro a ha
      obtain ⟨lhs, hlhs, ha⟩ := bind_eq_ok_iff.1 ha
      obtain ⟨rhs, -, ha⟩ := bind_eq_ok_iff.1 ha
      obtain rfl := pure_eq_ok_iff.1 ha
      exact hraw.2 lhs hlhs
    · intro a ha
      obtain ⟨lhs, -, ha⟩ := bind_eq_ok_iff.1 ha
      obtain ⟨rhs, hrhs, ha⟩ := bind_eq_ok_iff.1 ha
      obtain rfl := pure_eq_ok_iff.1 ha
      exact hraw.2 rhs hrhs
    · rintro err hdiv (herr | herr)
      · rcases bind_eq_error_iff.1 herr with herr | ⟨_, -, herr⟩
        · exact absurd hdiv (hraw.1 err herr)
        · rcases bind_eq_error_iff.1 herr with herr | ⟨_, -, herr⟩
          · exact herr
          · cases herr
      · rcases bind_eq_error_iff.1 herr with herr | ⟨_, -, herr⟩
        · exact herr
        · rcases bind_eq_error_iff.1 herr with herr | ⟨_, -, herr⟩
          · exact absurd hdiv (hraw.1 err herr)
          · cases herr

/-- In `x ^ 2 * x ^ (-1)` the powers are collected before or after `y + 1` is put in for `x`. -/
theorem substitute_value_of_cancelled_powers :
    let e : Expr := .mul (.pow (.var "x") (.const 2)) (.pow (.var "x") (.const (-1)))
    let t : Expr := .add (.var "y") (.const 1)
    let u : Expr := .mul (.pow t (.const 2)) (.pow t (.const (-1)))
    let ν : Valuation := ⟨fun _ => 4, fun _ _ => none⟩
    replace "x" t e = .ok u ∧ u.value ν = some 5 ∧
      (∀ out, (Statement.mk (.expr e) (some (.substitute "x" t))).evaluate = .ok out →
        ∃ r, out = .formula ⟨r⟩ ∧ r.value ν = some 5) ∧
      SymbolicAlgebra.substitute "x" t e = .ok t ∧ t.value ν = some 5 := by
  intro e t u ν
  have hu : replace "x" t e = .ok u := by decide +kernel
  have hv : u.value ν = some 5 := by decide +kernel
  have hvalue := substitute_value hu hv
  have hraw : SymbolicAlgebra.substitute "x" t e = .ok t := by decide +kernel
  exact ⟨hu, hv, hvalue.1.2, hraw, hvalue.2.2.1 t hraw⟩

end Statement

end SymbolicAlgebra
