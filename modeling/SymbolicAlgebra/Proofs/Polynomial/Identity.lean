import SymbolicAlgebra.Proofs.DecidableExpr
import SymbolicAlgebra.Proofs.Polynomial.Sum

/-!
# Identity of polynomials

Expanded polynomials with the same values are simplified to expressions with the same
representative, and their difference is simplified to zero (`likeKey_simplify_same_iff`). For the
second part the operands of the simplified polynomials need representatives, which they have if the
polynomials have them: a sum of terms with representatives, or its opposite, is simplified to
another one (`exists_simplify_isKeyedSum`, `exists_simplify_neg`).
-/

namespace SymbolicAlgebra

open Simplify

variable {e k r t l m x : Expr} {es : List Expr} {q : Rat}
variable {p : (String →₀ Nat) × Rat} {ps : List ((String →₀ Nat) × Rat)}

/-! ### Terms with representatives -/

/-- A constant, or a term that has a representative. -/
def IsKeyedSummand (x : Expr) : Prop :=
  (∃ c, IsValue x c) ∨ ∃ p, IsTerm x p ∧ IsKeyed p.1

/-- An expression whose operands, as a sum, are constants and terms that have representatives. -/
def IsKeyedSum (e : Expr) : Prop :=
  ∀ x ∈ Chain.sum.operands e, IsKeyedSummand x

lemma IsKeyedSummand.isSummand (h : IsKeyedSummand x) : IsSummand x :=
  h.imp_right fun ⟨p, hp, _⟩ => ⟨p, hp⟩

lemma IsKeyedSummand.operands (h : IsKeyedSummand x) : Chain.sum.operands x = [x] := by
  rcases h with ⟨c, k, rfl, -⟩ | ⟨p, hp, -⟩
  · rfl
  · exact hp.isSplit.operands

lemma IsKeyedSummand.isKeyedSum (h : IsKeyedSummand x) : IsKeyedSum x := by
  rw [IsKeyedSum, h.operands, List.forall_mem_singleton]
  exact h

lemma isKeyedSum_add : IsKeyedSum (.add l m) ↔ IsKeyedSum l ∧ IsKeyedSum m := by
  rw [IsKeyedSum, Chain.operands_sum_add, List.forall_mem_append]
  rfl

lemma IsKeyedSum.isExpanded (h : IsKeyedSum e) : IsExpanded e :=
  isExpanded_of_operands fun x hx => (h x hx).isSummand.isMonomial

lemma hasKey_splitCoefficient (h : e.HasKey) : (splitCoefficient e).1.HasKey := by
  rw [splitCoefficient.eq_def]
  split
  · exact h.2.hasKey
  · exact h.1.hasKey
  · exact h
  · exact h

/-- A collected polynomial with a representative. -/
lemma IsCollected.isKeyedSum (h : IsCollected r q ps) (hk : r.likeKey = .ok k) : IsKeyedSum r := by
  have hexact : r.IsExact := h.isExpanded.isReadable.isExact
  have hkey : r.HasKey := (Expr.exists_likeKey_iff hexact).1 ⟨k, hk⟩
  intro x hx
  refine (h.operands x hx).imp_right fun ⟨p, hp⟩ => ⟨p, hp, ?_⟩
  exact ⟨_, hp.isSplit.term, hasKey_splitCoefficient (hkey.of_mem_operands hx)⟩

/-- Terms with the same exponents have representatives together. -/
lemma IsTerm.exists_likeKey (h : IsTerm t p) (hkey : IsKeyed p.1) :
    ∃ k, (splitCoefficient t).1.likeKey = .ok k := by
  obtain ⟨t', ht', hkey⟩ := hkey
  have hterm := h.isSplit.term
  rw [Expr.exists_likeKey_iff hterm.isMonomial.isReadable.isExact, hterm.alike ht' |>.hasKey_iff]
  exact hkey

/-! ### Sums -/

lemma exists_foldlM_add (hes : ∀ x ∈ es, IsKeyedSummand x) (s : CollectedSum) :
    ∃ s', es.foldlM CollectedSum.add s = .ok s' := by
  induction es generalizing s with
  | nil => exact ⟨s, rfl⟩
  | cons e es ih =>
    have hrest := ih fun x hx => hes x (.tail e hx)
    rcases hes e List.mem_cons_self with ⟨q, c, rfl, -⟩ | ⟨p, hp, hkey⟩
    · exact hrest { s with constant := s.constant + c }
    · obtain ⟨k, hk⟩ := hp.exists_likeKey hkey
      have hadd : s.add e = .ok { s with terms := termCollector.insert k e s.terms } := by
        rw [s.add_eq_add hp.isSplit.isConstant]
        exact bind_eq_ok_iff.2 ⟨_, bind_eq_ok_iff.2 ⟨k, hk, rfl⟩, rfl⟩
      rw [List.foldlM_cons, hadd]
      exact hrest _

/-- A sum of constants and of terms that have representatives. -/
lemma exists_sum_isKeyedSum (hes : ∀ x ∈ es, IsKeyedSummand x) :
    ∃ r, Rules.sum es = .ok r ∧ IsKeyedSum r := by
  obtain ⟨s, hs⟩ := exists_foldlM_add hes ⟨0, []⟩
  obtain ⟨r, hr, q, ps, hcollected, hkeyed⟩ :=
    exists_sum_isCollected (fun x hx => (hes x hx).isSummand) hs
  refine ⟨r, hr, fun x hx => (hcollected.mem_operands x hx).imp_right ?_⟩
  rintro ⟨p, hp, hterm⟩
  exact ⟨p, hterm, hkeyed p hp⟩

/-- A sum whose operands are simplified to such sums. -/
lemma exists_simplify_add
    (h : ∀ x ∈ Chain.sum.operands (.add l m), ∃ r, simplify x = .ok r ∧ IsKeyedSum r) :
    ∃ r, simplify (.add l m) = .ok r ∧ IsKeyedSum r := by
  obtain ⟨rs, hrs, hkeyed⟩ := exists_mapM_eq_ok h
  have hops : Rules.operands .sum (.add l m) = .ok (rs.flatMap Chain.sum.operands) := by
    rw [Rules.operands, hrs]
    rfl
  rw [simplify_add, hops]
  apply exists_sum_isKeyedSum
  intro x hx
  obtain ⟨r, hr, hx⟩ := List.mem_flatMap.1 hx
  exact hkeyed r hr x hx

lemma IsKeyedSummand.exists_simplify (h : IsKeyedSummand x) :
    ∃ r, simplify x = .ok r ∧ IsKeyedSummand r := by
  rcases h with ⟨q, c, rfl, hc⟩ | ⟨p, hp, hkey⟩
  · exact ⟨.const c, simplify_const c, .inl ⟨q, c, rfl, hc⟩⟩
  · obtain ⟨r, hr, hterm⟩ := exists_simplify_isTerm hp.isMonomial hp fun _ => rfl
    exact ⟨r, hr, .inr ⟨p, hterm, hkey⟩⟩

/-- A sum of terms with representatives is simplified to another one. -/
lemma exists_simplify_isKeyedSum (h : IsKeyedSum e) : ∃ r, simplify e = .ok r ∧ IsKeyedSum r := by
  have hparts : ∀ x ∈ Chain.sum.operands e, ∃ r, simplify x = .ok r ∧ IsKeyedSum r := by
    intro x hx
    obtain ⟨r, hr, hkeyed⟩ := (h x hx).exists_simplify
    exact ⟨r, hr, hkeyed.isKeyedSum⟩
  cases e using Chain.induct .sum with
  | leaf e hops => exact hparts e (by simp [hops])
  | node l m => exact exists_simplify_add hparts

/-! ### Opposites -/

/-- What has the values of the opposite of a term is a term with the same exponents. -/
lemma IsKeyedSummand.opposite (h : IsKeyedSummand x) (hr : IsSummand r)
    (heq : ∀ ν, r.value ν = (Expr.neg x).value ν) : IsKeyedSummand r := by
  rcases h with ⟨q, c, rfl, hc⟩ | ⟨p, hp, hkey⟩
  · obtain ⟨q', ps, hcollected⟩ := hr.isCollected
    refine .inl ⟨-q, hcollected.isValue fun ν => ?_⟩
    rw [heq, Expr.value_neg_eq_some_iff]
    exact ⟨q, hc, rfl⟩
  · obtain ⟨t, ht⟩ := hp.exists_scaled (neg_ne_zero.2 hp.coefficient_ne_zero)
    refine .inr ⟨_, hr.isTerm ht fun ν => ?_, hkey⟩
    rw [heq, ht.value_eq, Expr.value_neg_eq_some_iff]
    refine ⟨_, hp.value_eq ν, ?_⟩
    rw [MvPolynomial.eval_monomial, MvPolynomial.eval_monomial, neg_mul]

/-- The opposite of a sum of terms with representatives is simplified to another one. -/
lemma exists_simplify_neg (h : IsKeyedSum e) : ∃ r, simplify (.neg e) = .ok r ∧ IsKeyedSum r := by
  induction hn : e.rank using Nat.strong_induction_on generalizing e with
  | h n ih =>
    subst hn
    obtain ⟨u, hu, hkeyed⟩ := exists_simplify_isKeyedSum h
    have hrank : u.rank ≤ e.rank := (reduces_of_simplify hu).1
    cases u using Chain.induct .sum with
    | leaf u hops =>
      have hsummand : IsKeyedSummand u := hkeyed u (by simp [hops])
      obtain ⟨r, hr, hopposite⟩ := exists_opposite_isSummand hsummand.isSummand
      have hneg : simplify (.neg e) = .ok r := by
        rw [simplify_neg, hu]
        exact hr
      refine ⟨r, hneg, (hsummand.opposite hopposite fun ν => ?_).isKeyedSum⟩
      rw [(IsExpanded.neg h.isExpanded).value_eq_of_simplify hneg, Expr.value, Expr.value,
        h.isExpanded.value_eq_of_simplify hu]
    | node l m =>
      obtain ⟨hl, hm⟩ := isKeyedSum_add.1 hkeyed
      have hnode : (Chain.sum.node l m).rank = l.rank + m.rank + 1 := rfl
      rw [simplify_neg, hu]
      show ∃ r, simplify (.add (.neg l) (.neg m)) = .ok r ∧ IsKeyedSum r
      apply exists_simplify_add
      intro x hx
      rcases List.mem_pair.1 hx with rfl | rfl
      · exact ih l.rank (by omega) hl rfl
      · exact ih m.rank (by omega) hm rfl

/-! ### Identity -/

variable {e₁ e₂ r₁ r₂ k₁ k₂ : Expr}

/-- The difference of polynomials that have representatives is simplified. -/
lemma exists_simplify_sub (h₁ : IsExpanded e₁) (h₂ : IsExpanded e₂) (hr₁ : simplify e₁ = .ok r₁)
    (hr₂ : simplify e₂ = .ok r₂) (hk₁ : r₁.likeKey = .ok k₁) (hk₂ : r₂.likeKey = .ok k₂) :
    ∃ r, simplify (.sub e₁ e₂) = .ok r := by
  obtain ⟨_, _, hcollected₁⟩ := isCollected_of_simplify h₁ hr₁
  obtain ⟨_, _, hcollected₂⟩ := isCollected_of_simplify h₂ hr₂
  obtain ⟨n, hn, hkeyed⟩ := exists_simplify_neg (hcollected₂.isKeyedSum hk₂)
  obtain ⟨r, hr, -⟩ :=
    exists_simplify_isKeyedSum (isKeyedSum_add.2 ⟨hcollected₁.isKeyedSum hk₁, hkeyed⟩)
  refine ⟨r, ?_⟩
  rw [simplify_sub]
  exact bind_eq_ok_iff.2 ⟨r₁, hr₁, bind_eq_ok_iff.2 ⟨r₂, hr₂, bind_eq_ok_iff.2 ⟨n, hn, hr⟩⟩⟩

/-- The difference is simplified to zero just when the polynomials have the same values. -/
lemma simplify_sub_isZero_iff (h₁ : IsExpanded e₁) (h₂ : IsExpanded e₂)
    (hr : ∃ r, simplify (.sub e₁ e₂) = .ok r) :
    (∃ c, simplify (.sub e₁ e₂) = .ok (.const c) ∧ c.isZero) ↔ ∀ ν, e₁.value ν = e₂.value ν := by
  have hvalue (ν : Valuation) : ∃ x y, e₁.value ν = some x ∧ e₂.value ν = some y ∧
      (Expr.sub e₁ e₂).value ν = some (x - y) := by
    obtain ⟨x, hx⟩ := h₁.exists_value ν
    obtain ⟨y, hy⟩ := h₂.exists_value ν
    exact ⟨x, y, hx, hy, Expr.value_sub_eq_some_iff.2 ⟨x, y, hx, hy, rfl⟩⟩
  have hsub : IsExpanded (.sub e₁ e₂) := .sub h₁ h₂
  constructor
  · rintro ⟨c, hc, hzero⟩ ν
    obtain ⟨x, y, hx, hy, hxy⟩ := hvalue ν
    have hval : c.exactValue? = some (x - y) := (hsub.value_eq_of_simplify hc ν).trans hxy
    rw [hx, hy, sub_eq_zero.1 ((Number.isZero_iff hval).1 hzero)]
  · intro heq
    obtain ⟨r, hr⟩ := hr
    obtain ⟨q, ps, hcollected⟩ := isCollected_of_simplify hsub hr
    have hzero (ν : Valuation) : r.value ν = some 0 := by
      obtain ⟨x, y, hx, hy, hxy⟩ := hvalue ν
      have hsame := heq ν
      rw [hx, hy, Option.some_inj] at hsame
      rw [hsub.value_eq_of_simplify hr, hxy, hsame, sub_self]
    obtain ⟨c, rfl, hc⟩ := hcollected.isValue hzero
    exact ⟨c, hr, (Number.isZero_iff hc).2 rfl⟩

/-- Representatives of collected polynomials are the same just when the polynomials have the same
values. -/
lemma IsCollected.same_likeKey_iff {q₁ q₂ : Rat} {ps₁ ps₂ : List ((String →₀ Nat) × Rat)}
    (h₁ : IsCollected r₁ q₁ ps₁) (h₂ : IsCollected r₂ q₂ ps₂) (hk₁ : r₁.likeKey = .ok k₁)
    (hk₂ : r₂.likeKey = .ok k₂) : k₁.same k₂ ↔ ∀ ν, r₁.value ν = r₂.value ν := by
  constructor
  · intro h ν
    obtain ⟨x, hx⟩ := h₁.isExpanded.exists_value ν
    obtain ⟨y, hy⟩ := h₂.isExpanded.exists_value ν
    have hvalue₁ : k₁.value ν = some x := by rw [← (reordered_likeKey hk₁).value_eq ν, hx]
    have hvalue₂ : k₂.value ν = some y := by rw [← (reordered_likeKey hk₂).value_eq ν, hy]
    rw [hx, hy, Expr.value_eq_of_same h hvalue₁ hvalue₂]
  · intro h
    exact Expr.same_of_alike (h₁.alike h₂ h) h₁.isExpanded.isReadable
      h₂.isExpanded.isReadable hk₁ hk₂

/-- Simplification decides the identity of expanded polynomials: they have the same values just when
they are simplified to the same expression up to reordering, and just when their difference is
simplified to zero. -/
theorem likeKey_simplify_same_iff (h₁ : IsExpanded e₁) (h₂ : IsExpanded e₂)
    (hr₁ : simplify e₁ = .ok r₁) (hr₂ : simplify e₂ = .ok r₂) (hk₁ : r₁.likeKey = .ok k₁)
    (hk₂ : r₂.likeKey = .ok k₂) :
    (k₁.same k₂ ↔ ∀ ν, e₁.value ν = e₂.value ν) ∧
      ((∃ c, simplify (.sub e₁ e₂) = .ok (.const c) ∧ c.isZero) ↔
        ∀ ν, e₁.value ν = e₂.value ν) := by
  obtain ⟨q₁, ps₁, hcollected₁⟩ := isCollected_of_simplify h₁ hr₁
  obtain ⟨q₂, ps₂, hcollected₂⟩ := isCollected_of_simplify h₂ hr₂
  constructor
  · rw [hcollected₁.same_likeKey_iff hcollected₂ hk₁ hk₂]
    simp only [h₁.value_eq_of_simplify hr₁, h₂.value_eq_of_simplify hr₂]
  · exact simplify_sub_isZero_iff h₁ h₂ (exists_simplify_sub h₁ h₂ hr₁ hr₂ hk₁ hk₂)

/-- The polynomials `y ^ 2 - (-2 * x * y - x)` and `-(-1 * x) + (y ^ 2 + y * x * 2)`. -/
theorem likeKey_simplify_same_of_reordered :
    let x : Expr := .var "x"
    let y : Expr := .var "y"
    let square : Expr := .pow y (.const 2)
    let e₁ : Expr := .sub square (.sub (.mul (.mul (.const (.integer (-2))) x) y) x)
    let e₂ : Expr :=
      .add (.neg (.mul (.const (.integer (-1))) x)) (.add square (.mul (.mul y x) (.const 2)))
    let r₁ : Expr := .add square (.add (.mul (.const 2) (.mul x y)) x)
    let r₂ : Expr := .add x (.add square (.mul (.const 2) (.mul y x)))
    let k : Expr := .add (.mul (.const 2) (.mul x y)) (.add square x)
    IsExpanded e₁ ∧ IsExpanded e₂ ∧ simplify e₁ = .ok r₁ ∧ simplify e₂ = .ok r₂ ∧
      r₁.likeKey = .ok k ∧ r₂.likeKey = .ok k ∧ (∀ ν, e₁.value ν = e₂.value ν) ∧
        ∃ c, simplify (.sub e₁ e₂) = .ok (.const c) ∧ c.isZero := by
  intro x y square e₁ e₂ r₁ r₂ k
  have hx : IsMonomial x := .var (by decide)
  have hy : IsMonomial y := .var (by decide)
  have hsquare : IsExpanded square := .monomial (.pow (by decide) rfl)
  have h₁ : IsExpanded e₁ :=
    .sub hsquare (.sub (.monomial (.mul (.mul (.const rfl) hx) hy)) (.monomial hx))
  have h₂ : IsExpanded e₂ :=
    .add (.monomial (.neg (.mul (.const rfl) hx)))
      (.add hsquare (.monomial (.mul (.mul hy hx) (.const rfl))))
  have hr₁ : simplify e₁ = .ok r₁ := by decide +kernel
  have hr₂ : simplify e₂ = .ok r₂ := by decide +kernel
  have hk₁ : r₁.likeKey = .ok k := by decide +kernel
  have hk₂ : r₂.likeKey = .ok k := by decide +kernel
  obtain ⟨hkeys, hzero⟩ := likeKey_simplify_same_iff h₁ h₂ hr₁ hr₂ hk₁ hk₂
  have heq := hkeys.1 (by decide +kernel)
  exact ⟨h₁, h₂, hr₁, hr₂, hk₁, hk₂, heq, hzero.2 heq⟩

end SymbolicAlgebra
