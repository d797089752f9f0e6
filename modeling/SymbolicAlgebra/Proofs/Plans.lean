import SymbolicAlgebra.Proofs.Refusals.Evaluation

/-!
# Plans lead to the unknown and back

The search for an unknown finds its leftmost place, and the plan is made of the inverses on the path
to it (`finds_planFor`). A plan list that is passed from node to node is only added to where the
unknown is found (`run_search`). Replayed from the outside, each inverse of the plan leads one node
down the same path (`exists_undoAll?`), so that a replay cannot fail, and an equation is never
refused because plan and replay disagree (`plan_leads_back`).
-/

namespace SymbolicAlgebra

variable {x : String} {e d l r u part : Expr} {n : Nat} {place : List Nat} {i j : Inverse}
  {steps : List Inverse}

/-! ### Places -/

namespace Expr

/-- The part of an expression at a place: each number of the place leads into one of the direct
parts. -/
def partAt? : Expr → List Nat → Option Expr
  | e, [] => some e
  | e, n :: place => do
    let part ← e.children[n]?
    part.partAt? place

/-- The leftmost place of a variable: no other one lies before it. -/
structure IsFirstPlace (x : String) (e : Expr) (place : List Nat) : Prop where
  occurs : e.partAt? place = some (.var x)
  first : ∀ place', e.partAt? place' = some (.var x) → ¬List.Lex (· < ·) place' place

lemma partAt?_cons_eq_some_iff :
    e.partAt? (n :: place) = some u ↔
      ∃ part, e.children[n]? = some part ∧ part.partAt? place = some u :=
  Option.bind_eq_some_iff

/-- The occurrences of a variable are those in the direct parts, unless the expression is a
variable. -/
lemma countAll_children (he : ∀ y, e ≠ var y) : countAll x e.children = e.countOccurrences x := by
  cases e with
  | var y => exact absurd rfl (he y)
  | other m k es => exact (count_variableNamesOfList es).symm
  | _ => simp [children]

lemma countOccurrences_child_le (h : e.children[n]? = some part) :
    part.countOccurrences x ≤ e.countOccurrences x := by
  have he : ∀ y, e ≠ var y := by
    rintro y rfl
    cases h
  rw [← countAll_children he]
  exact countOccurrences_le_countAll (List.mem_of_getElem? h)

lemma occurs_of_partAt? (h : e.partAt? place = some (.var x)) : 0 < e.countOccurrences x := by
  induction place generalizing e with
  | nil =>
    obtain rfl := Option.some.inj h
    rw [countOccurrences_var_self]
    exact Nat.one_pos
  | cons n place ih =>
    obtain ⟨part, hpart, hplace⟩ := partAt?_cons_eq_some_iff.1 h
    exact Nat.lt_of_lt_of_le (ih hplace) (countOccurrences_child_le hpart)

lemma isFirstPlace_var (x : String) : IsFirstPlace x (var x) [] := by
  refine ⟨rfl, ?_⟩
  rintro place - ⟨⟩

/-- A variable that does not occur in the parts on the left is first where it is first in its
part. -/
lemma IsFirstPlace.cons (h : IsFirstPlace x part place) (hpart : e.children[n]? = some part)
    (hleft : ∀ m < n, ∀ u, e.children[m]? = some u → u.countOccurrences x = 0) :
    IsFirstPlace x e (n :: place) := by
  refine ⟨partAt?_cons_eq_some_iff.2 ⟨part, hpart, h.occurs⟩, ?_⟩
  intro place' hplace' hlex
  cases hlex with
  | nil =>
    obtain rfl := Option.some.inj hplace'
    cases hpart
  | rel hlt =>
    obtain ⟨u, hu, hplace'⟩ := partAt?_cons_eq_some_iff.1 hplace'
    have hpos := occurs_of_partAt? hplace'
    rw [hleft _ hlt u hu] at hpos
    cases hpos
  | cons hlex =>
    obtain ⟨u, hu, hplace'⟩ := partAt?_cons_eq_some_iff.1 hplace'
    obtain rfl := Option.some.inj (hpart.symm.trans hu)
    exact h.first _ hplace' hlex

end Expr

open SymbolicAlgebra.Expr

/-! ### Inverses along a path -/

/-- The inverse that undoes a node whose direct part of a number is the unknown one. -/
def Inverse.into? : Expr → Nat → Option Inverse
  | .add _ _, 0 => some subtractRight
  | .add _ _, 1 => some subtractLeft
  | .sub _ _, 0 => some addRight
  | .sub _ _, 1 => some subtractFromLeft
  | .mul _ _, 0 => some divideByRight
  | .mul _ _, 1 => some divideByLeft
  | .div _ _, 0 => some multiplyByDenominator
  | .div _ _, 1 => some divideNumerator
  | .pow _ _, 0 => some raiseToReciprocal
  | .pow _ _, 1 => some takeLog
  | .log _ _, 0 => some rootOfArgument
  | .log _ _, 1 => some raiseBase
  | .neg _, 0 => some negate
  | _, _ => none

/-- The inverses of the nodes on the path to a place, the outermost first. -/
def inversesTo? : Expr → List Nat → Option (List Inverse)
  | _, [] => some []
  | e, n :: place => do
    let part ← e.children[n]?
    let i ← Inverse.into? e n
    return i :: (← inversesTo? part place)

lemma inversesTo?_cons_eq_some_iff :
    inversesTo? e (n :: place) = some steps ↔ ∃ part i rest, e.children[n]? = some part ∧
      Inverse.into? e n = some i ∧ inversesTo? part place = some rest ∧ steps = i :: rest := by
  simp only [inversesTo?, Option.bind_eq_bind, Option.bind_eq_some_iff, Option.pure_def,
    Option.some.injEq]
  constructor
  · rintro ⟨part, hpart, i, hi, rest, hrest, rfl⟩
    exact ⟨part, i, rest, hpart, hi, hrest, rfl⟩
  · rintro ⟨part, i, rest, hpart, hi, hrest, rfl⟩
    exact ⟨part, hpart, i, hi, rest, hrest, rfl⟩

/-- There is one inverse for each node of the path. -/
lemma length_inversesTo? (h : inversesTo? e place = some steps) : steps.length = place.length := by
  induction place generalizing e steps with
  | nil =>
    obtain rfl := Option.some.inj h
    rfl
  | cons n place ih =>
    obtain ⟨part, i, rest, -, -, hrest, rfl⟩ := inversesTo?_cons_eq_some_iff.1 h
    rw [List.length_cons, List.length_cons, ih hrest]

/-- A plan that leads from an expression to the leftmost place of a variable. -/
def IsPlan (x : String) (e : Expr) (plan : List Inverse) : Prop :=
  ∃ place, IsFirstPlace x e place ∧ inversesTo? e place = some plan.reverse

lemma IsPlan.append {plan : List Inverse} (h : IsPlan x part plan)
    (hpart : e.children[n]? = some part) (hi : Inverse.into? e n = some i)
    (hleft : ∀ m < n, ∀ u, e.children[m]? = some u → u.countOccurrences x = 0) :
    IsPlan x e (plan ++ [i]) := by
  obtain ⟨place, hplace, hsteps⟩ := h
  refine ⟨n :: place, hplace.cons hpart hleft, ?_⟩
  rw [List.reverse_append]
  exact inversesTo?_cons_eq_some_iff.2 ⟨part, i, plan.reverse, hpart, hi, hsteps, rfl⟩

/-! ### The search -/

/-- What a search for a variable comes to: a plan, or that there is no occurrence. Only what is not
of the closed set is refused. -/
def Finds (x : String) (e : Expr) : Except Error (Option (List Inverse)) → Prop
  | .ok (some plan) => IsPlan x e plan
  | .ok none => e.countOccurrences x = 0
  | .error _ => e.isClosed = false

/-- The search of two parts, the left one first. -/
lemma finds_planThrough {pl pr : Except Error (Option (List Inverse))} (he : e.children = [l, r])
    (hclosed : e.isClosed = (l.isClosed && r.isClosed)) (hi : Inverse.into? e 0 = some i)
    (hj : Inverse.into? e 1 = some j) (hl : Finds x l pl) (hr : Finds x r pr) :
    Finds x e (planThrough pl i pr j) := by
  have hne : ∀ y, e ≠ .var y := by
    rintro y rfl
    cases he
  have hcount := countAll_children (x := x) hne
  rw [he, countAll_cons, countAll_cons, countAll_nil] at hcount
  rcases pl with err | _ | plan
  · have hfalse : l.isClosed = false := hl
    exact hclosed.trans (by rw [hfalse, Bool.false_and])
  · have hleft : l.countOccurrences x = 0 := hl
    rcases pr with err | _ | plan
    · have hfalse : r.isClosed = false := hr
      exact hclosed.trans (by rw [hfalse, Bool.and_false])
    · have hright : r.countOccurrences x = 0 := hr
      exact hcount.symm.trans (by rw [hleft, hright])
    · refine IsPlan.append hr (n := 1) (by rw [he]; rfl) hj ?_
      intro m hm u hu
      obtain rfl : m = 0 := by omega
      rw [he] at hu
      obtain rfl := Option.some.inj hu
      exact hleft
  · refine IsPlan.append hl (n := 0) (by rw [he]; rfl) hi ?_
    intro m hm
    cases hm

/-- The search finds the path to the leftmost place of a variable if there is one. -/
theorem finds_planFor (x : String) (e : Expr) : Finds x e (planFor x e) := by
  induction e with
  | const c => exact (rfl : (const c).countOccurrences x = 0)
  | var y =>
    rw [planFor]
    split
    · next hyx =>
      subst hyx
      exact ⟨[], isFirstPlace_var y, rfl⟩
    · next hyx =>
      have hnone : (var y).countOccurrences x = 0 := by simp [countOccurrences, variableNames, hyx]
      exact hnone
  | neg e ih =>
    rw [planFor]
    rcases hplan : planFor x e with err | _ | plan
    · rw [hplan] at ih
      exact ih
    · rw [hplan] at ih
      exact ih
    · rw [hplan] at ih
      refine IsPlan.append ih (n := 0) rfl rfl ?_
      intro m hm
      cases hm
  | other m k es => exact (rfl : (Expr.other m k es).isClosed = false)
  | _ l r ihl ihr => exact finds_planThrough rfl rfl rfl rfl ihl ihr

/-- Where there is no occurrence the search finds nothing. -/
lemma planFor_eq_none (hd : d.isClosed = true) (hx : d.countOccurrences x = 0) :
    planFor x d = .ok none := by
  have hfinds := finds_planFor x d
  rcases hplan : planFor x d with err | _ | plan
  · rw [hplan] at hfinds
    cases hd.symm.trans hfinds
  · rfl
  · rw [hplan] at hfinds
    obtain ⟨place, hplace, -⟩ := hfinds
    have hpos := occurs_of_partAt? hplace.occurs
    rw [hx] at hpos
    cases hpos

/-- Where there is one it finds a plan. -/
lemma exists_planFor_eq (hd : d.isClosed = true) (hx : 0 < d.countOccurrences x) :
    ∃ plan, planFor x d = .ok (some plan) ∧ IsPlan x d plan := by
  have hfinds := finds_planFor x d
  rcases hplan : planFor x d with err | _ | plan
  · rw [hplan] at hfinds
    cases hd.symm.trans hfinds
  · rw [hplan] at hfinds
    have hnone : d.countOccurrences x = 0 := hfinds
    rw [hnone] at hx
    cases hx
  · rw [hplan] at hfinds
    exact ⟨plan, rfl, hfinds⟩

/-! ### A plan list that is passed from node to node -/

/-- A computation that may write on a list of inverses. -/
abbrev Planning := StateT (List Inverse) (Except Error)

/-- The search of two parts, the inverse that leads into the part where it ends being written
last. -/
def searchThrough (lhs : Planning Bool) (left : Inverse) (rhs : Planning Bool) (right : Inverse) :
    Planning Bool := do
  if ← lhs then
    modify (· ++ [left])
    return true
  if ← rhs then
    modify (· ++ [right])
    return true
  return false

/-- The search for a variable that writes its inverses on a list, and tells whether it found one. -/
def search (x : String) : Expr → Planning Bool
  | .var y => return y = x
  | .const _ => return false
  | .add l r => searchThrough (search x l) .subtractRight (search x r) .subtractLeft
  | .sub l r => searchThrough (search x l) .addRight (search x r) .subtractFromLeft
  | .mul l r => searchThrough (search x l) .divideByRight (search x r) .divideByLeft
  | .div n d => searchThrough (search x n) .multiplyByDenominator (search x d) .divideNumerator
  | .pow b p => searchThrough (search x b) .raiseToReciprocal (search x p) .takeLog
  | .log b a => searchThrough (search x b) .rootOfArgument (search x a) .raiseBase
  | .neg e => do
    if ← search x e then
      modify (· ++ [.negate])
      return true
    return false
  | .other _ kind _ => throw (.unsupported (lowerCase kind) .solving)

/-- What a search that found `plan`, or nothing, leaves of a list: it is only ever added to. -/
def written (before : List Inverse) : Option (List Inverse) → Bool × List Inverse
  | none => (false, before)
  | some plan => (true, before ++ plan)

lemma run_searchThrough {sl sr : Planning Bool} {pl pr : Except Error (Option (List Inverse))}
    (hl : ∀ before, sl.run before = pl.map (written before))
    (hr : ∀ before, sr.run before = pr.map (written before)) (i j : Inverse)
    (before : List Inverse) :
    (searchThrough sl i sr j).run before = (planThrough pl i pr j).map (written before) := by
  rw [searchThrough, StateT.run_bind, hl]
  rcases pl with err | _ | plan
  · rfl
  · have hright : (searchThrough (return false) i sr j).run before =
        (planThrough (.ok none) i pr j).map (written before) := by
      rw [searchThrough, pure_bind, if_neg Bool.false_ne_true, StateT.run_bind, hr]
      rcases pr with err | _ | plan
      · rfl
      · rfl
      · exact congrArg (fun after => Except.ok (true, after)) (List.append_assoc before plan [j])
    exact hright
  · exact congrArg (fun after => Except.ok (true, after)) (List.append_assoc before plan [i])

/-- The list ends with the plan where the variable is found, and is left as it was otherwise. -/
theorem run_search (x : String) (e : Expr) (before : List Inverse) :
    (search x e).run before = (planFor x e).map (written before) := by
  induction e generalizing before with
  | const c => rfl
  | var y =>
    rw [search, planFor, StateT.run_pure]
    split
    · next hyx => rw [decide_eq_true hyx, Except.map, written, List.append_nil]; rfl
    · next hyx => rw [decide_eq_false hyx]; rfl
  | neg e ih =>
    rw [search, planFor, StateT.run_bind, ih]
    rcases planFor x e with err | _ | plan
    · rfl
    · rfl
    · exact congrArg (fun after => Except.ok (true, after))
        (List.append_assoc before plan [.negate])
  | other m k es => rfl
  | _ l r ihl ihr => exact run_searchThrough ihl ihr _ _ before

/-! ### The replay -/

/-- What is left of `node = r` after some inverses, the outermost first: the part into which they
lead, and what it equals. -/
def undoAll? : (steps : List Inverse) → (node r : Expr) → Option (Expr × Expr)
  | [], node, r => some (r, node)
  | i :: steps, node, r => do
    let (r', part) ← i.undo? node r
    undoAll? steps part r'

/-- An inverse leads into the part whose unknown it frees. -/
lemma Inverse.exists_undo? (hi : Inverse.into? e n = some i) (hpart : e.children[n]? = some part)
    (r : Expr) : ∃ r', i.undo? e r = some (r', part) := by
  unfold into? at hi
  split at hi <;> cases hi <;> obtain rfl := Option.some.inj hpart <;> exact ⟨_, rfl⟩

/-- The inverses of the nodes on a path lead along it. -/
lemma exists_undoAll? (hsteps : inversesTo? e place = some steps) (r : Expr) :
    ∃ part r', e.partAt? place = some part ∧ undoAll? steps e r = some (r', part) := by
  induction place generalizing e steps r with
  | nil =>
    obtain rfl := Option.some.inj hsteps
    exact ⟨e, r, rfl, rfl⟩
  | cons n place ih =>
    obtain ⟨child, i, rest, hchild, hi, hrest, rfl⟩ := inversesTo?_cons_eq_some_iff.1 hsteps
    obtain ⟨s, hs⟩ := Inverse.exists_undo? hi hchild r
    obtain ⟨part, r', hpart, hr'⟩ := ih hrest s
    refine ⟨part, r', partAt?_cons_eq_some_iff.2 ⟨child, hchild, hpart⟩, ?_⟩
    rw [undoAll?, hs]
    exact hr'

/-- Every beginning of a path has the inverses of its nodes. -/
lemma inversesTo?_take (hsteps : inversesTo? e place = some steps) (n : Nat) :
    inversesTo? e (place.take n) = some (steps.take n) := by
  induction place generalizing e steps n with
  | nil =>
    obtain rfl := Option.some.inj hsteps
    rw [List.take_nil, List.take_nil]
    rfl
  | cons m place ih =>
    obtain ⟨part, i, rest, hpart, hi, hrest, rfl⟩ := inversesTo?_cons_eq_some_iff.1 hsteps
    cases n with
    | zero => rfl
    | succ n => exact inversesTo?_cons_eq_some_iff.2 ⟨part, i, _, hpart, hi, ih hrest n, rfl⟩

/-- A replay has a result when its inverses lead to the variable. -/
lemma replayFrom_eq (h : undoAll? steps e r = some (u, .var x)) :
    replayFrom x steps e r = .ok u := by
  induction steps generalizing e r with
  | nil =>
    obtain ⟨rfl, rfl⟩ := Prod.mk.inj (Option.some.inj h)
    exact if_pos rfl
  | cons i steps ih =>
    obtain ⟨⟨s, part⟩, hs, h⟩ := Option.bind_eq_some_iff.1 h
    rw [replayFrom, hs]
    exact ih h

/-! ### Solving -/

/-- A refusal that does not say that the plan and the expression disagree. -/
def Error.Consistent (err : Error) : Prop :=
  err.report.category ≠ .inconsistency

lemma consistent_fault (f : Fault) : (Error.fault f).Consistent := by
  cases f <;> simp [Error.Consistent, Error.report, Report.ofFault]

lemma admitsEquations_consistent : AdmitsEquations Error.Consistent where
  limit err herr := by
    rcases herr with rfl | rfl | rfl <;> exact consistent_fault _
  unsupported _ _ := by simp [Error.Consistent, Error.report, Report.unsupported]
  divisionByZero _ := by simp [Error.Consistent, Error.report, Report.plain]
  zeroToNegativePower _ := by simp [Error.Consistent, Error.report, Report.plain]
  notReal _ _ := by simp [Error.Consistent, Error.report, Report.plain]
  unknownAbsent _ _ := by simp [Error.Consistent, Error.report, Report.mismatch]
  unknownRepeated _ _ := by simp [Error.Consistent, Error.report, Report.plain]
  unknownRepeatedIn _ _ _ := by simp [Error.Consistent, Error.report, Report.plain]

/-- Whatever a variable is called, weighing it does not speak of a plan. -/
lemma hasLetters_consistent (e : Expr) : e.HasLetters Error.Consistent := by
  intro y _
  unfold letterValue
  split
  · exact refusedOnly_ok _
  · exact refusedOnly_error (consistent_fault _)

/-- The inverses of a plan lead to the variable. -/
lemma IsPlan.exists_undoAll? {plan : List Inverse} (h : IsPlan x d plan) :
    ∃ t, undoAll? plan.reverse d (.const 0) = some (t, .var x) := by
  obtain ⟨place, hplace, hsteps⟩ := h
  obtain ⟨part, t, hpart, hundo⟩ := SymbolicAlgebra.exists_undoAll? hsteps (.const 0)
  obtain rfl := Option.some.inj (hpart.symm.trans hplace.occurs)
  exact ⟨t, hundo⟩

namespace Equation

variable {a : Equation}

lemma planFor_of_plan (h : a.plan x d = .ok steps) : planFor x d = .ok (some steps) := by
  simp only [plan] at h
  split at h
  · obtain ⟨_, -, h⟩ := bind_eq_ok_iff.1 h
    cases h
  · split at h
    · obtain ⟨_, -, h⟩ := bind_eq_ok_iff.1 h
      cases h
    · obtain ⟨found, hfound, h⟩ := bind_eq_ok_iff.1 h
      cases found with
      | some plan => rw [hfound, pure_eq_ok_iff.1 h]
      | none =>
        obtain ⟨_, -, h⟩ := bind_eq_ok_iff.1 h
        cases h

/-- The plan for an equation can be replayed. -/
lemma exists_replay_of_plan (h : a.plan x d = .ok steps) : ∃ t, replay x steps d = .ok t := by
  have hfinds := finds_planFor x d
  rw [planFor_of_plan h] at hfinds
  obtain ⟨t, ht⟩ := IsPlan.exists_undoAll? hfinds
  exact ⟨t, replayFrom_eq ht⟩

/-- Whatever an equation is, it is not refused because plan and replay disagree. -/
theorem consistent_solve (a : Equation) : RefusedOnly Error.Consistent (a.solve x) := by
  have hQ := admitsEquations_consistent
  have hsolution : RefusedOnly Error.Consistent (a.solution x) := by
    refine (a.refusedOnly_normalize hQ).bind fun ⟨d, note⟩ _ => ?_
    have hplan : RefusedOnly Error.Consistent (a.plan x d) := by
      refine a.refusedOnly_plan hQ ?_
      intro hnone hpos
      have hfinds := finds_planFor x d
      rw [hnone] at hfinds
      exact absurd hfinds (Nat.ne_of_gt hpos)
    refine hplan.bind fun steps hsteps => ?_
    obtain ⟨t, ht⟩ := exists_replay_of_plan hsteps
    rw [ht]
    exact refusedOnly_ok t
  refine hsolution.bind fun t _ => (refusedOnly_simplify hQ.toAdmitsNumbers t).bind fun u _ => ?_
  exact refusedOnly_order hQ.toAdmits (hasLetters_consistent u)

end Equation

/-- Plan and replay agree. In an expression of the closed set, where a variable does not occur no
plan is found, and a plan list is left as it was. Where it occurs the plan list has at its end the
inverses on the path to the leftmost place of the variable, the innermost first; these inverses
come, step after step, to the nodes of that path and to the variable, and what they leave on the
other side is the result of a replay, in which a variable that occurred once does not occur. So no
equation is refused because plan and replay disagree. -/
theorem plan_leads_back (x : String) (d : Expr) (hd : d.isClosed = true) :
    (d.countOccurrences x = 0 →
      planFor x d = .ok none ∧ ∀ before, (search x d).run before = .ok (false, before)) ∧
    (0 < d.countOccurrences x → ∃ place steps t, IsFirstPlace x d place ∧
      inversesTo? d place = some steps ∧ steps.length = place.length ∧
      planFor x d = .ok (some steps.reverse) ∧
      (∀ before, (search x d).run before = .ok (true, before ++ steps.reverse)) ∧
      (∀ n, ∃ part r, d.partAt? (place.take n) = some part ∧
        undoAll? (steps.take n) d (.const 0) = some (r, part)) ∧
      undoAll? steps d (.const 0) = some (t, .var x) ∧ replay x steps.reverse d = .ok t ∧
      (d.countOccurrences x = 1 → t.countOccurrences x = 0)) ∧
    ∀ (a : Equation) (err : Error), a.solve x = .error err →
      err.report.category ≠ .inconsistency := by
  refine ⟨?_, ?_, fun a => a.consistent_solve⟩
  · intro hx
    have hplan := planFor_eq_none hd hx
    refine ⟨hplan, fun before => ?_⟩
    rw [run_search, hplan]
    rfl
  · intro hx
    obtain ⟨plan, hplan, hisPlan⟩ := exists_planFor_eq hd hx
    obtain ⟨t, hundo⟩ := hisPlan.exists_undoAll?
    obtain ⟨place, hplace, hsteps⟩ := hisPlan
    have ht : replay x plan d = .ok t := replayFrom_eq hundo
    rw [← plan.reverse_reverse] at hplan ht
    refine ⟨place, plan.reverse, t, hplace, hsteps, length_inversesTo? hsteps, hplan, ?_, ?_, hundo,
      ht, ?_⟩
    · intro before
      rw [run_search, hplan]
      rfl
    · intro n
      exact exists_undoAll? (inversesTo?_take hsteps n) (.const 0)
    · intro hone
      have hcount := count_replayFrom (y := x) ht
      rw [hone, countOccurrences_const, countOccurrences_var_self] at hcount
      omega

/-- In `(y - x ^ 2) * x` the plan leads to the first of the two places of `x`, and there is none for
`z`. -/
theorem plan_leads_back_of_two_places :
    let d : Expr := .mul (.sub (.var "y") (.pow (.var "x") (.const 2))) (.var "x")
    let steps : List Inverse := [.divideByRight, .subtractFromLeft, .raiseToReciprocal]
    d.isClosed = true ∧ d.countOccurrences "x" = 2 ∧ planFor "x" d = .ok (some steps.reverse) ∧
      (∃ place, place.length = 3 ∧ IsFirstPlace "x" d place ∧ inversesTo? d place = some steps) ∧
      (∃ t, undoAll? steps d (.const 0) = some (t, .var "x") ∧
        replay "x" steps.reverse d = .ok t) ∧ planFor "z" d = .ok none := by
  intro d steps
  have hd : d.isClosed = true := by decide
  have hcount : d.countOccurrences "x" = 2 := by decide
  have hplan : planFor "x" d = .ok (some steps.reverse) := by decide
  obtain ⟨place, steps', t, hplace, hsteps, hlength, hplan', -, -, hundo, ht, -⟩ :=
    (plan_leads_back "x" d hd).2.1 (by rw [hcount]; decide)
  obtain rfl : steps = steps' := by
    rw [hplan] at hplan'
    exact List.reverse_injective (Option.some.inj (Except.ok.inj hplan'))
  refine ⟨hd, hcount, hplan, ⟨place, hlength.symm, hplace, hsteps⟩, ⟨t, hundo, ht⟩, ?_⟩
  exact ((plan_leads_back "z" d hd).1 (by decide)).1

end SymbolicAlgebra
