import SymbolicAlgebra.Equation.Solve
import SymbolicAlgebra.Proofs.DecidableExpr
import SymbolicAlgebra.Proofs.Soundness

/-!
# Solutions are sound

An inverse that needs neither roots nor logarithms turns a value of the unknown part back into the
value of the whole operation (`Inverse.value_of_undo`). Along a plan of such inverses the value of
the isolated side leads back to the difference of the two sides, which then is zero: what `solve`
returns solves the equation (`solve_sound`).
-/

namespace SymbolicAlgebra

/-- The valuation with another value for one variable. -/
def Valuation.set (ν : Valuation) (x : String) (v : Rat) : Valuation where
  letter := Function.update ν.letter x v
  log := ν.log

namespace Expr

variable {ν : Valuation} {x : String} {e : Expr}

/-- A value does not depend on variables that do not occur. -/
lemma value_set (h : e.countOccurrences x = 0) (v : Rat) : e.value (ν.set x v) = e.value ν := by
  unfold countOccurrences at h
  induction e with
  | const c => rfl
  | var y =>
    have hxy : y ≠ x := by
      rintro rfl
      simp [variableNames] at h
    simp [value, Valuation.set, hxy]
  | other m k es _ => rfl
  | neg e ih =>
    rw [variableNames] at h
    rw [value, value, ih h]
  | _ l r ihl ihr =>
    rw [variableNames, List.count_append, Nat.add_eq_zero_iff] at h
    rw [value, value, ihl h.1, ihr h.2]
    try rfl

lemma value_var_set (v : Rat) : (var x).value (ν.set x v) = some v := by
  simp [value, Valuation.set]

end Expr

/-! ### Inverses -/

namespace Inverse

/-- Whether an inverse takes neither roots nor logarithms nor powers. -/
def isArithmetic : Inverse → Bool
  | raiseToReciprocal => false
  | takeLog => false
  | rootOfArgument => false
  | raiseBase => false
  | _ => true

variable {ν : Valuation} {x : String} {i : Inverse} {node r r' part : Expr}

lemma count_part_le (h : i.undo? node r = some (r', part)) :
    part.countOccurrences x ≤ node.countOccurrences x := by
  unfold undo? at h
  split at h <;> cases h <;> simp [Expr.countOccurrences, Expr.variableNames]

lemma exists_value_part {a : Rat} (h : i.undo? node r = some (r', part))
    (hnode : node.value ν = some a) : ∃ w, part.value ν = some w := by
  unfold undo? at h
  split at h <;> cases h <;> simp only [Expr.value, Option.map₂_eq_some_iff,
    Option.bind_eq_bind, Option.bind_eq_some_iff, Option.map_eq_some_iff] at hnode <;> tauto

/-- If the unknown part of a node has the value that the isolated side has after an inverse, then
the node has the value that the isolated side had before. -/
lemma value_of_undo {v w a : Rat} (hi : i.isArithmetic) (h : i.undo? node r = some (r', part))
    (hcount : node.countOccurrences x = part.countOccurrences x)
    (hnode : node.value (ν.set x v) = some a) (hpart : part.value (ν.set x v) = some w)
    (hr : r'.value ν = some w) : r.value ν = some a := by
  have hfree {e : Expr} {y z : Rat} (he : e.countOccurrences x = 0)
      (hy : e.value (ν.set x v) = some y) (hz : e.value ν = some z) : y = z := by
    rw [Expr.value_set he] at hy
    exact Option.some.inj (hy.symm.trans hz)
  unfold undo? at h
  simp only [Expr.countOccurrences] at hcount hfree
  split at h <;> simp only [Option.some.injEq, Prod.mk.injEq, reduceCtorEq] at h <;>
    obtain ⟨rfl, rfl⟩ := h
  all_goals rw [Expr.variableNames] at hcount
  all_goals try rw [List.count_append] at hcount
  case h_1 =>
    obtain ⟨y, z, hy, hz, rfl⟩ := Expr.value_add_eq_some_iff.1 hnode
    obtain ⟨ρ, z', hρ, hz', rfl⟩ := Expr.value_sub_eq_some_iff.1 hr
    obtain rfl := hfree (by omega) hz hz'
    obtain rfl := Option.some.inj (hy.symm.trans hpart)
    rw [hρ, sub_add_cancel]
  case h_2 =>
    obtain ⟨y, z, hy, hz, rfl⟩ := Expr.value_add_eq_some_iff.1 hnode
    obtain ⟨ρ, y', hρ, hy', rfl⟩ := Expr.value_sub_eq_some_iff.1 hr
    obtain rfl := hfree (by omega) hy hy'
    obtain rfl := Option.some.inj (hz.symm.trans hpart)
    rw [hρ, add_sub_cancel]
  case h_3 =>
    obtain ⟨y, z, hy, hz, rfl⟩ := Expr.value_sub_eq_some_iff.1 hnode
    obtain ⟨ρ, z', hρ, hz', rfl⟩ := Expr.value_add_eq_some_iff.1 hr
    obtain rfl := hfree (by omega) hz hz'
    obtain rfl := Option.some.inj (hy.symm.trans hpart)
    rw [hρ, add_sub_cancel_right]
  case h_4 =>
    obtain ⟨y, z, hy, hz, rfl⟩ := Expr.value_sub_eq_some_iff.1 hnode
    obtain ⟨y', ρ, hy', hρ, rfl⟩ := Expr.value_sub_eq_some_iff.1 hr
    obtain rfl := hfree (by omega) hy hy'
    obtain rfl := Option.some.inj (hz.symm.trans hpart)
    rw [hρ, sub_sub_cancel]
  case h_5 =>
    obtain ⟨y, z, hy, hz, rfl⟩ := Expr.value_mul_eq_some_iff.1 hnode
    obtain ⟨ρ, z', hρ, hz', hq⟩ := Expr.value_div_eq_some_iff.1 hr
    obtain ⟨hz0, rfl⟩ := Expr.divValue_eq_some_iff.1 hq
    obtain rfl := hfree (by omega) hz hz'
    obtain rfl := Option.some.inj (hy.symm.trans hpart)
    rw [hρ, div_mul_cancel₀ ρ hz0]
  case h_6 =>
    obtain ⟨y, z, hy, hz, rfl⟩ := Expr.value_mul_eq_some_iff.1 hnode
    obtain ⟨ρ, y', hρ, hy', hq⟩ := Expr.value_div_eq_some_iff.1 hr
    obtain ⟨hy0, rfl⟩ := Expr.divValue_eq_some_iff.1 hq
    obtain rfl := hfree (by omega) hy hy'
    obtain rfl := Option.some.inj (hz.symm.trans hpart)
    rw [hρ, mul_div_cancel₀ ρ hy0]
  case h_7 =>
    obtain ⟨y, z, hy, hz, hq⟩ := Expr.value_div_eq_some_iff.1 hnode
    obtain ⟨hz0, rfl⟩ := Expr.divValue_eq_some_iff.1 hq
    obtain ⟨ρ, z', hρ, hz', rfl⟩ := Expr.value_mul_eq_some_iff.1 hr
    obtain rfl := hfree (by omega) hz hz'
    obtain rfl := Option.some.inj (hy.symm.trans hpart)
    rw [hρ, mul_div_cancel_right₀ ρ hz0]
  case h_8 =>
    obtain ⟨y, z, hy, hz, hq⟩ := Expr.value_div_eq_some_iff.1 hnode
    obtain ⟨hz0, rfl⟩ := Expr.divValue_eq_some_iff.1 hq
    obtain ⟨y', ρ, hy', hρ, hq'⟩ := Expr.value_div_eq_some_iff.1 hr
    obtain ⟨hρ0, rfl⟩ := Expr.divValue_eq_some_iff.1 hq'
    obtain rfl := hfree (by omega) hy hy'
    obtain rfl := Option.some.inj (hz.symm.trans hpart)
    have hy0 : y ≠ 0 := (div_ne_zero_iff.1 hz0).1
    rw [hρ, div_div_cancel₀ hy0]
  case h_13 =>
    obtain ⟨y, hy, rfl⟩ := Expr.value_neg_eq_some_iff.1 hnode
    obtain ⟨ρ, hρ, rfl⟩ := Expr.value_neg_eq_some_iff.1 hr
    obtain rfl := Option.some.inj (hy.symm.trans hpart)
    rw [hρ, neg_neg]
  all_goals cases hi

end Inverse

/-! ### Plans -/

lemma count_pos_of_replayFrom {x : String} {steps : List Inverse} {node r t : Expr}
    (h : replayFrom x steps node r = .ok t) : 0 < node.countOccurrences x := by
  induction steps generalizing node r with
  | nil =>
    unfold replayFrom at h
    split at h
    · split at h
      · next hxy => simp [Expr.countOccurrences, Expr.variableNames, hxy]
      · cases h
    · obtain ⟨_, -, h⟩ := bind_eq_ok_iff.1 h
      cases h
  | cons i steps ih =>
    unfold replayFrom at h
    split at h
    · next hundo => exact lt_of_lt_of_le (ih h) (Inverse.count_part_le hundo)
    · obtain ⟨_, -, h⟩ := bind_eq_ok_iff.1 h
      cases h

/-- A plan carried out leads the value of the unknown back to the value of the whole expression. -/
lemma value_of_replayFrom {ν : Valuation} {x : String} {steps : List Inverse} {node r t : Expr}
    {v a : Rat} (hsteps : ∀ i ∈ steps, i.isArithmetic) (h : replayFrom x steps node r = .ok t)
    (hcount : node.countOccurrences x = 1) (hnode : node.value (ν.set x v) = some a)
    (ht : t.value ν = some v) : r.value ν = some a := by
  induction steps generalizing node r a with
  | nil =>
    unfold replayFrom at h
    split at h
    · split at h
      · next y hxy =>
        subst hxy
        rw [Expr.value_var_set] at hnode
        rw [Except.ok.inj h, ht, hnode]
      · cases h
    · obtain ⟨_, -, h⟩ := bind_eq_ok_iff.1 h
      cases h
  | cons i steps ih =>
    unfold replayFrom at h
    split at h
    · next r' part hundo =>
      have hpos := count_pos_of_replayFrom h
      have hle := Inverse.count_part_le (x := x) hundo
      obtain ⟨w, hw⟩ := Inverse.exists_value_part hundo hnode
      have hr := ih (fun j hj => hsteps j (by simp [hj])) h (by omega) hw
      exact Inverse.value_of_undo (hsteps i (by simp)) hundo (by omega) hnode hw hr
    · obtain ⟨_, -, h⟩ := bind_eq_ok_iff.1 h
      cases h

/-! ### Equations -/

namespace Equation

variable {ν : Valuation} {x : String} {a : Equation} {d t r : Expr} {steps : List Inverse}

lemma difference_of_normalize {note : String} (h : a.normalize x = .ok (d, note)) :
    a.difference = .ok d := by
  obtain ⟨_, -, h⟩ := bind_eq_ok_iff.1 h
  obtain ⟨_, -, h⟩ := bind_eq_ok_iff.1 h
  obtain ⟨d', hd, h⟩ := bind_eq_ok_iff.1 h
  obtain ⟨_, -, h⟩ := bind_eq_ok_iff.1 h
  cases pure_eq_ok_iff.1 h
  exact hd

/-- The unknown occurs once where there is a plan. -/
lemma count_of_plan (h : a.plan x d = .ok steps) : d.countOccurrences x = 1 := by
  simp only [plan] at h
  split at h
  · obtain ⟨_, -, h⟩ := bind_eq_ok_iff.1 h
    cases h
  · split at h
    · obtain ⟨_, -, h⟩ := bind_eq_ok_iff.1 h
      cases h
    · omega

/-- The simplified difference has the value of the difference. -/
lemma value_difference {l m : Rat} (h : a.difference = .ok d) (hl : a.lhs.value ν = some l)
    (hm : a.rhs.value ν = some m) : d.value ν = some (l - m) := by
  obtain ⟨lhs, hlhs, h⟩ := bind_eq_ok_iff.1 h
  obtain ⟨rhs, hrhs, h⟩ := bind_eq_ok_iff.1 h
  have hl' := (simplify_ensures hl).1 lhs (congrArg some hlhs)
  have hm' := (simplify_ensures hm).1 rhs (congrArg some hrhs)
  refine (simplify_ensures ?_).1 d (congrArg some h)
  rw [Expr.value_add_eq_some_iff]
  exact ⟨l, -m, hl', Expr.value_neg_eq_some_iff.2 ⟨m, hm', rfl⟩, (sub_eq_add_neg l m).symm⟩

lemma value_of_canonical {v : Rat} (h : SymbolicAlgebra.canonical t = .ok r)
    (ht : t.value ν = some v) : r.value ν = some v := by
  obtain ⟨u, hu, h⟩ := bind_eq_ok_iff.1 h
  rw [← (reordered_order h).value_eq ν]
  exact (simplify_ensures ht).1 u (congrArg some hu)

lemma solve_eq_canonical {note : String} (hd : a.normalize x = .ok (d, note))
    (hp : a.plan x d = .ok steps) (ht : replay x steps d = .ok t) :
    a.solve x = SymbolicAlgebra.canonical t := by
  have hsolution : a.solution x = .ok t := by
    rw [solution, bind_eq_ok_iff]
    exact ⟨(d, note), hd, bind_eq_ok_iff.2 ⟨steps, hp, ht⟩⟩
  rw [solve, hsolution]
  rfl

/-- What an equation is solved to by a plan without roots, logarithms and powers solves it. The
isolated side `t`, before it is made canonical, has some value `v` under a valuation of the other
variables; if both sides of the equation have values when the unknown is `v`, then these are equal,
and `v` is the value of the solution. -/
theorem solve_sound {note : String} {v l m : Rat} (hd : a.normalize x = .ok (d, note))
    (hp : a.plan x d = .ok steps) (hsteps : ∀ i ∈ steps, i.isArithmetic)
    (ht : replay x steps d = .ok t) (hr : a.solve x = .ok r) (hv : t.value ν = some v)
    (hl : a.lhs.value (ν.set x v) = some l) (hm : a.rhs.value (ν.set x v) = some m) :
    r.value ν = some v ∧ l = m := by
  constructor
  · rw [solve_eq_canonical hd hp ht] at hr
    exact value_of_canonical hr hv
  · have hdiff := value_difference (difference_of_normalize hd) hl hm
    have hrev : ∀ i ∈ steps.reverse, i.isArithmetic := by simpa using hsteps
    have hzero := value_of_replayFrom hrev ht (count_of_plan hp) hdiff hv
    exact sub_eq_zero.1 (Option.some.inj hzero).symm

/-- `-x + 5 = 2 * x` is solved by `5/3`. -/
theorem solve_sound_of_unknown_on_both_sides :
    let a : Equation := ⟨.add (.neg (.var "x")) (.const 5), .mul (.const 2) (.var "x")⟩
    let d : Expr := .add (.const 5) (.mul (.const (-3)) (.var "x"))
    let t : Expr := .div (.sub (.const 0) (.const 5)) (.const (-3))
    let r : Expr := .const (.rational (5 / 3))
    let ν : Valuation := ⟨fun _ => 0, fun _ _ => none⟩
    a.normalize "x" = .ok (d, "Normalized (-(x) + 5) = (2 * x) to (5 + (-3 * x)) = 0") ∧
      a.plan "x" d = .ok [.divideByLeft, .subtractLeft] ∧
      replay "x" [.divideByLeft, .subtractLeft] d = .ok t ∧ a.solve "x" = .ok r ∧
      t.value ν = some (5 / 3) ∧ a.lhs.value (ν.set "x" (5 / 3)) = some (10 / 3) ∧
      a.rhs.value (ν.set "x" (5 / 3)) = some (10 / 3) ∧
      r.value ν = some (5 / 3) ∧ (10 / 3 : Rat) = 10 / 3 := by
  intro a d t r ν
  have hd : a.normalize "x" =
      .ok (d, "Normalized (-(x) + 5) = (2 * x) to (5 + (-3 * x)) = 0") := by decide +kernel
  have hp : a.plan "x" d = .ok [.divideByLeft, .subtractLeft] := by decide +kernel
  have ht : replay "x" [.divideByLeft, .subtractLeft] d = .ok t := by decide +kernel
  have hr : a.solve "x" = .ok r := by decide +kernel
  have hv : t.value ν = some (5 / 3) := by decide +kernel
  have hl : a.lhs.value (ν.set "x" (5 / 3)) = some (10 / 3) := by decide +kernel
  have hm : a.rhs.value (ν.set "x" (5 / 3)) = some (10 / 3) := by decide +kernel
  exact ⟨hd, hp, ht, hr, hv, hl, hm, solve_sound hd hp (by decide) ht hr hv hl hm⟩

end Equation

end SymbolicAlgebra
