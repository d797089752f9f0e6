import SymbolicAlgebra.Proofs.Affine.Simplification
import SymbolicAlgebra.Proofs.Solving

/-!
# Affine equations are solved

An equation of two affine sides with one place of the unknown is solved where the slopes of the
sides differ, and the solution makes both sides one number. Where they do not differ, the unknown is
lost in the difference of the sides, and the equation is refused for that (`Equation.solve_affine`).
Nothing else can go wrong but that a numeral is too long.
-/

namespace SymbolicAlgebra

variable {x : String} {e e' r t : Expr} {a b v : Rat} {c : Number} {H : Nat} {ν : Valuation}

/-! ### Substitution -/

/-- With an expression in the place of a variable, the value is that for the value of this
expression. -/
lemma value_replace (h : replace x t e = .ok e') (ht : t.value ν = some v) :
    e'.value ν = e.value (ν.set x v) := by
  induction e generalizing e' with
  | const c =>
    obtain rfl := Except.ok.inj h
    rfl
  | var y =>
    obtain rfl := Except.ok.inj h
    by_cases hxy : y = x
    · rw [if_pos hxy, ht, hxy, Expr.value_var_set]
    · rw [if_neg hxy]
      simp [Expr.value, Valuation.set, hxy]
  | other => cases h
  | neg e ih =>
    obtain ⟨u, hu, h⟩ := bind_eq_ok_iff.1 h
    obtain rfl := pure_eq_ok_iff.1 h
    rw [Expr.value, Expr.value, ih hu]
  | _ l r ihl ihr =>
    obtain ⟨l', hl, h⟩ := bind_eq_ok_iff.1 h
    obtain ⟨r', hr, h⟩ := bind_eq_ok_iff.1 h
    obtain rfl := pure_eq_ok_iff.1 h
    rw [Expr.value, Expr.value, ihl hl, ihr hr]
    try rfl

/-- An affine expression becomes an arithmetic one when a constant takes the place of the
variable. -/
lemma IsAffine.exists_replace (he : IsAffine x e a b) (hc : c.exactValue? = some v) :
    ∃ e', replace x (.const c) e = .ok e' ∧ e'.IsArithmetic := by
  induction he with
  | @const d q hd => exact ⟨.const d, rfl, Number.isExact_of_exactValue? hd⟩
  | var =>
    refine ⟨.const c, ?_, Number.isExact_of_exactValue? hc⟩
    rw [replace, if_pos rfl]
  | neg _ ih =>
    obtain ⟨u, hu, harith⟩ := ih
    exact ⟨.neg u, by rw [replace, hu]; rfl, harith⟩
  | add _ _ ihl ihr =>
    obtain ⟨l', hl, hla⟩ := ihl
    obtain ⟨r', hr, hra⟩ := ihr
    exact ⟨.add l' r', by rw [replace, hl, hr]; rfl, hla, hra⟩
  | sub _ _ ihl ihr =>
    obtain ⟨l', hl, hla⟩ := ihl
    obtain ⟨r', hr, hra⟩ := ihr
    exact ⟨.sub l' r', by rw [replace, hl, hr]; rfl, hla, hra⟩
  | mulLeft _ _ _ ihl ihr | mulRight _ _ _ ihl ihr =>
    obtain ⟨l', hl, hla⟩ := ihl
    obtain ⟨r', hr, hra⟩ := ihr
    exact ⟨.mul l' r', by rw [replace, hl, hr]; rfl, hla, hra⟩
  | div _ _ _ _ ihn ihd =>
    obtain ⟨n', hn, hna⟩ := ihn
    obtain ⟨d', hd, hda⟩ := ihd
    exact ⟨.div n' d', by rw [replace, hn, hd]; rfl, hna, hda⟩

/-- The canonical form of an arithmetic expression with a value is that value. -/
lemma exists_canonical_of_value (he : e.IsArithmetic) (hv : e.value ν = some v) :
    ∃ c, canonical e = .ok (.const c) ∧ c.exactValue? = some v := by
  obtain ⟨c, hc, hval⟩ := exists_simplify_of_value he hv
  refine ⟨c, ?_, hval⟩
  rw [canonical, hc]
  rfl

/-- An affine expression is computed where a constant takes the place of the variable. -/
lemma IsAffine.exists_substitute (he : IsAffine x e a b) (hc : c.exactValue? = some v) :
    ∃ m, substitute x (.const c) e = .ok (.const m) ∧ m.exactValue? = some (a * v + b) := by
  let ν : Valuation := ⟨fun _ => 0, fun _ _ => none⟩
  obtain ⟨e', he', harith⟩ := he.exists_replace hc
  have hv : e'.value ν = some (a * v + b) := by
    rw [value_replace he' hc, he.value_eq]
    simp [Valuation.set]
  obtain ⟨m, hm, hval⟩ := exists_canonical_of_value harith hv
  refine ⟨m, ?_, hval⟩
  rw [substitute, he']
  exact hm

/-! ### Plans -/

/-- A plan that frees the variable in a line, when the line equals an arithmetic expression. -/
def Frees (ν : Valuation) (x : String) (steps : List Inverse) (e : Expr) (a b : Rat) : Prop :=
  ∀ r v, r.IsArithmetic → r.value ν = some v → ∃ t, replayFrom x steps.reverse e r = .ok t ∧
    t.IsArithmetic ∧ t.value ν = some ((v - b) / a)

lemma Frees.snoc {i : Inverse} {steps : List Inverse} {a' b' : Rat} (h : Frees ν x steps e a b)
    (hi : ∀ r v, r.IsArithmetic → r.value ν = some v → ∃ r' w, i.undo? e' r = some (r', e) ∧
      r'.IsArithmetic ∧ r'.value ν = some w ∧ (w - b) / a = (v - b') / a') :
    Frees ν x (steps ++ [i]) e' a' b' := by
  intro r v hr hv
  obtain ⟨r', w, hundo, hr', hw, heq⟩ := hi r v hr hv
  obtain ⟨t, ht, harith, hval⟩ := h r' w hr' hw
  refine ⟨t, ?_, harith, hval.trans (congrArg some heq)⟩
  rw [List.reverse_append, List.reverse_singleton, List.singleton_append, replayFrom, hundo]
  exact ht

/-- The unknown in a line is found, and freed by the plan that leads to it. -/
lemma IsLine.exists_plan (he : IsLine x e a b) (ν : Valuation) :
    ∃ steps, planFor x e = .ok (some steps) ∧ Frees ν x steps e a b := by
  induction he with
  | var =>
    refine ⟨[], by rw [planFor, if_pos rfl], ?_⟩
    intro r v hr hv
    refine ⟨r, ?_, hr, by rw [hv, sub_zero, div_one]⟩
    rw [List.reverse_nil, replayFrom]
    exact if_pos rfl
  | @neg u a b hu ih =>
    obtain ⟨steps, hplan, hfrees⟩ := ih
    refine ⟨steps ++ [.negate], by rw [planFor, hplan]; rfl, hfrees.snoc ?_⟩
    intro r v hr hv
    refine ⟨.neg r, -v, rfl, hr, Expr.value_neg_eq_some_iff.2 ⟨v, hv, rfl⟩, ?_⟩
    rw [sub_neg_eq_add, div_neg, ← neg_div, neg_add, sub_eq_add_neg]
  | @add d u k a b hd hu ih =>
    obtain ⟨steps, hplan, hfrees⟩ := ih
    refine ⟨steps ++ [.subtractLeft], by rw [planFor, hplan]; rfl, hfrees.snoc ?_⟩
    intro r v hr hv
    refine ⟨.sub r (.const d), v - k, rfl, ⟨hr, Number.isExact_of_exactValue? hd⟩, ?_, ?_⟩
    · exact Expr.value_sub_eq_some_iff.2 ⟨v, k, hv, hd, rfl⟩
    · rw [sub_sub]
  | @mul d u k a b hd hk hu ih =>
    obtain ⟨steps, hplan, hfrees⟩ := ih
    have ha := hu.slope_ne_zero
    refine ⟨steps ++ [.divideByLeft], by rw [planFor, hplan]; rfl, hfrees.snoc ?_⟩
    intro r v hr hv
    refine ⟨.div r (.const d), v / k, rfl, ⟨hr, Number.isExact_of_exactValue? hd⟩, ?_, ?_⟩
    · exact Expr.value_div_eq_some_iff.2 ⟨v, k, hv, hd, Expr.divValue_eq_some_iff.2 ⟨hk, rfl⟩⟩
    · field_simp
  | @div d u k a b hd hk hu ih =>
    obtain ⟨steps, hplan, hfrees⟩ := ih
    have ha := hu.slope_ne_zero
    refine ⟨steps ++ [.multiplyByDenominator], by rw [planFor, hplan]; rfl, hfrees.snoc ?_⟩
    intro r v hr hv
    refine ⟨.mul r (.const d), v * k, rfl, ⟨hr, Number.isExact_of_exactValue? hd⟩, ?_, ?_⟩
    · exact Expr.value_mul_eq_some_iff.2 ⟨v, k, hv, hd, rfl⟩
    · field_simp

/-! ### Equations -/

namespace Equation

variable {q : Equation} {al bl ar br : Rat}

lemma refuseRepeated_of_le (h : e.countOccurrences x ≤ 1) : refuseRepeated x e = .ok () := by
  rw [refuseRepeated, if_neg (Nat.not_lt.2 h)]
  rfl

lemma renders_text (hl : q.lhs.IsExact) (hr : q.rhs.IsExact)
    (hH : q.lhs.height * q.rhs.height ≤ H) : Renders H q.text := by
  obtain ⟨hlH, hrH⟩ := Expr.heights_le hH
  refine (Expr.renders_text hl hlH).bind fun _ _ => ?_
  exact (Expr.renders_text hr hrH).bind fun _ _ => renders_ok _

/-- The difference of two affine sides. -/
lemma difference_affine (hl : IsAffine x q.lhs al bl) (hr : IsAffine x q.rhs ar br)
    (hone : q.countOccurrences x = 1) :
    Renders (2 * (q.lhs.height * q.rhs.height)) q.difference ∧ ∀ d, q.difference = .ok d →
      IsSimplified x (al - ar) (bl - br) d ∧ d.height ≤ 2 * (q.lhs.height * q.rhs.height) := by
  rw [countOccurrences] at hone
  obtain ⟨hlH, hrH⟩ := Expr.heights_le_of_two_mul (Nat.le_refl (2 * (q.lhs.height * q.rhs.height)))
  obtain ⟨hlrenders, hlok⟩ := simplify_affine hl (by omega)
  obtain ⟨hrrenders, hrok⟩ := simplify_affine hr (by omega)
  -- what the difference of the simplified sides is simplified to
  have hlast (l r : Expr) (hl' : simplify q.lhs = .ok l) (hr' : simplify q.rhs = .ok r) :
      Renders (2 * (q.lhs.height * q.rhs.height)) (simplify (.add l (.neg r))) ∧
        ∀ d, simplify (.add l (.neg r)) = .ok d → IsSimplified x (al - ar) (bl - br) d ∧
          d.height ≤ 2 * (q.lhs.height * q.rhs.height) := by
    obtain ⟨hls, hlle⟩ := hlok l hl'
    obtain ⟨hrs, hrle⟩ := hrok r hr'
    have haffine := (hls.isAffine.add hrs.isAffine.neg).congr (sub_eq_add_neg al ar).symm
      (sub_eq_add_neg bl br).symm
    have hheight : (Expr.add l (.neg r)).height ≤ 2 * (q.lhs.height * q.rhs.height) :=
      Nat.mul_le_mul_left 2 (Nat.mul_le_mul hlle hrle)
    have hlcount := hls.count_le hl
    have hrcount := hrs.count_le hr
    obtain ⟨hrenders, hok⟩ := simplify_affine haffine (by
      rw [Expr.countOccurrences_add, Expr.countOccurrences_neg]
      omega)
    exact ⟨hrenders.mono hheight, fun d hd => ⟨(hok d hd).1, (hok d hd).2.trans hheight⟩⟩
  constructor
  · refine (hlrenders.mono hlH).bind fun l hl' => (hrrenders.mono hrH).bind fun r hr' => ?_
    exact (hlast l r hl' hr').1
  · intro d hd
    obtain ⟨l, hl', hd⟩ := bind_eq_ok_iff.1 hd
    obtain ⟨r, hr', hd⟩ := bind_eq_ok_iff.1 hd
    exact (hlast l r hl' hr').2 d hd

/-- Two affine sides are brought to one, which is a constant or a line. -/
lemma normalize_affine (hl : IsAffine x q.lhs al bl) (hr : IsAffine x q.rhs ar br)
    (hone : q.countOccurrences x = 1) :
    Renders (2 * (q.lhs.height * q.rhs.height)) (q.normalize x) ∧
      ∀ d note, q.normalize x = .ok (d, note) →
        IsSimplified x (al - ar) (bl - br) d ∧ ∃ text, q.text = .ok text := by
  obtain ⟨hrenders, hok⟩ := difference_affine hl hr hone
  rw [countOccurrences] at hone
  have hnormalize : q.normalize x = (do
      let d ← q.difference
      return (d, ← q.normalizedNote d)) := by
    rw [normalize, refuseRepeated_of_le (by omega), refuseRepeated_of_le (by omega)]
    rfl
  rw [hnormalize]
  constructor
  · refine hrenders.bind fun d hd => ?_
    obtain ⟨hd, hdH⟩ := hok d hd
    have htext := renders_text hl.isExact hr.isExact
      (Nat.le_mul_of_pos_left (q.lhs.height * q.rhs.height) Nat.two_pos)
    refine Renders.bind ?_ fun _ _ => renders_ok _
    refine htext.bind fun _ _ => ?_
    exact (Expr.renders_text hd.isAffine.isExact hdH).bind fun _ _ => renders_ok _
  · intro d note h
    obtain ⟨d', hd, h⟩ := bind_eq_ok_iff.1 h
    obtain ⟨note', hnote, h⟩ := bind_eq_ok_iff.1 h
    cases pure_eq_ok_iff.1 h
    obtain ⟨text, htext, -⟩ := bind_eq_ok_iff.1 hnote
    exact ⟨(hok d hd).1, text, htext⟩

/-- A line is the plan's to solve. -/
lemma exists_solve_of_isLine {d : Expr} {note : String} (hd : IsLine x d a b)
    (hnormalize : q.normalize x = .ok (d, note)) :
    ∃ c, q.solve x = .ok (.const c) ∧ c.exactValue? = some (-b / a) := by
  obtain ⟨steps, hsteps, hfrees⟩ := hd.exists_plan ⟨fun _ => 0, fun _ _ => none⟩
  obtain ⟨t, ht, harith, hval⟩ := hfrees (.const 0) 0 rfl rfl
  have hplan : q.plan x d = .ok steps := by
    rw [plan, hd.count_eq_one, hsteps]
    rfl
  obtain ⟨c, hc, hcval⟩ := exists_canonical_of_value harith hval
  refine ⟨c, (solve_eq_canonical hnormalize hplan ht).trans hc, ?_⟩
  rw [hcval, zero_sub]

/-- An affine equation with one place of the unknown is solved if the slopes of its sides differ; to
put the solution in its place makes both sides equal constants, with the values that the sides have
there. Otherwise the unknown is lost. The only other refusal is for a numeral too long to be
written, and the constants of the equation must be long enough for that. -/
theorem solve_affine (hl : IsAffine x q.lhs al bl) (hr : IsAffine x q.rhs ar br)
    (hone : q.countOccurrences x = 1) :
    (q.solve x = .error (.fault .wrongValue) ∧
      numeralBound ≤ 2 * (q.lhs.height * q.rhs.height)) ∨
    (al ≠ ar ∧ ∃ c, q.solve x = .ok (.const c) ∧
      c.exactValue? = some ((br - bl) / (al - ar)) ∧
        ∃ m n, q.substitute x (.const c) = .ok ⟨.const m, .const n⟩ ∧ m == n ∧
          ∀ v, c.exactValue? = some v →
            m.exactValue? = some (al * v + bl) ∧ n.exactValue? = some (ar * v + br)) ∨
    (al = ar ∧ ∃ text, q.text = .ok text ∧ q.solve x = .error (.unknownAbsent x text) ∧
      (Error.unknownAbsent x text).report.category = .equationMismatch) := by
  obtain ⟨hrenders, hok⟩ := normalize_affine hl hr hone
  match hn : q.normalize x with
  | .error err =>
    obtain ⟨rfl, hH⟩ := hrenders err hn
    refine .inl ⟨?_, hH⟩
    rw [solve, solution, hn]
    rfl
  | .ok (d, note) =>
    right
    obtain ⟨⟨hslope, hd⟩ | hline, text, htext⟩ := hok d note hn
    · right
      refine ⟨sub_eq_zero.1 hslope, text, htext, ?_, rfl⟩
      have hplan : q.plan x d = .error (.unknownAbsent x text) := by
        rw [plan, (isAffine_of_isValue (x := x) hd).2, htext]
        rfl
      have hsolution : q.solution x = .error (.unknownAbsent x text) := by
        rw [solution, hn]
        show (do replay x (← q.plan x d) d) = _
        rw [hplan]
        rfl
      rw [solve, hsolution]
      rfl
    · left
      have hne := sub_ne_zero.1 hline.slope_ne_zero
      obtain ⟨c, hc, hcval⟩ := exists_solve_of_isLine hline hn
      rw [neg_sub] at hcval
      obtain ⟨m, hm, hmval⟩ := hl.exists_substitute hcval
      obtain ⟨n, hn, hnval⟩ := hr.exists_substitute hcval
      refine ⟨hne, c, hc, hcval, m, n, ?_, ?_, fun v hv => ?_⟩
      · rw [substitute, hm, hn]
        rfl
      · rw [Number.beq_iff hmval hnval]
        have hslope := hline.slope_ne_zero
        field_simp
        ring
      · obtain rfl := Option.some.inj (hcval.symm.trans hv)
        exact ⟨hmval, hnval⟩

/-- In `(x + 3) / 2 - 4 = 1/3` the slopes are `1/2` and `0`. -/
theorem solve_affine_of_quotient :
    let q : Equation :=
      ⟨.sub (.div (.add (.var "x") (.const 3)) (.const 2)) (.const 4), .const (.rational (1 / 3))⟩
    IsAffine "x" q.lhs (1 / 2) (-5 / 2) ∧ IsAffine "x" q.rhs 0 (1 / 3) ∧
      q.countOccurrences "x" = 1 ∧ ∃ c, q.solve "x" = .ok (.const c) ∧
        c.exactValue? = some (17 / 3) ∧
          ∃ m n, q.substitute "x" (.const c) = .ok ⟨.const m, .const n⟩ ∧ m == n ∧
            m.exactValue? = some (1 / 3) ∧ n.exactValue? = some (1 / 3) := by
  intro q
  have hl : IsAffine "x" q.lhs (1 / 2) (-5 / 2) := by
    refine ((IsAffine.div (.add .var (.const rfl)) (.const rfl) rfl ?_).sub
      (.const rfl)).congr ?_ ?_
    all_goals norm_num
  have hr : IsAffine "x" q.rhs 0 (1 / 3) := .const rfl
  have hone : q.countOccurrences "x" = 1 := by decide
  refine ⟨hl, hr, hone, ?_⟩
  rcases solve_affine hl hr hone with
    ⟨-, hlong⟩ | ⟨-, c, hc, hval, m, n, hsubst, heq, hvalues⟩ | ⟨heq, -⟩
  · exact absurd hlong (by decide +kernel)
  · have hval : c.exactValue? = some (17 / 3) := hval.trans (by norm_num)
    obtain ⟨hm, hn⟩ := hvalues _ hval
    exact ⟨c, hc, hval, m, n, hsubst, heq, hm.trans (by norm_num), hn.trans (by norm_num)⟩
  · norm_num at heq

end Equation

end SymbolicAlgebra
