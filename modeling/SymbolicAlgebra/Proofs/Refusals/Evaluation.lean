import SymbolicAlgebra.Proofs.Occurrences.Solving
import SymbolicAlgebra.Proofs.Refusals.Simplification
import SymbolicAlgebra.Statement.Evaluate

/-!
# Refusals of statements

What is written about an expression is refused for the length of a number only. A statement whose
variables can be weighed (`Statement.HasLetters`) is evaluated, or refused for a foreseen reason
(`Statement.foreseen_evaluate`): solving, replacing and ordering keep to the variables of the
statement, so that each expression that comes up on the way can be weighed as well.
-/

namespace SymbolicAlgebra

variable {x : String} {e l r t u : Expr}

/-! ### Texts -/

namespace Expr

lemma onlyLimits_textsOfList {es : List Expr}
    (h : ∀ e ∈ es, RefusedOnly Error.IsLimit e.text) :
    RefusedOnly Error.IsLimit (textsOfList es) := by
  induction es with
  | nil => exact refusedOnly_ok _
  | cons e es ih =>
    obtain ⟨he, hes⟩ := List.forall_mem_cons.1 h
    exact he.bind fun _ _ => (ih hes).bind fun _ _ => refusedOnly_ok _

lemma onlyLimits_text (e : Expr) : RefusedOnly Error.IsLimit e.text := by
  induction e with
  | const c => exact c.onlyLimits_text
  | var x => exact refusedOnly_ok _
  | neg e ih => exact ih.bind fun _ _ => refusedOnly_ok _
  | other m k es ih => exact (onlyLimits_textsOfList ih).bind fun _ _ => refusedOnly_ok _
  | _ l r ihl ihr => exact ihl.bind fun _ _ => ihr.bind fun _ _ => refusedOnly_ok _

lemma onlyLimits_describeList {es : List Expr}
    (h : ∀ e ∈ es, RefusedOnly Error.IsLimit e.describe) :
    RefusedOnly Error.IsLimit (describeList es) := by
  induction es with
  | nil => exact refusedOnly_ok _
  | cons e es ih =>
    obtain ⟨he, hes⟩ := List.forall_mem_cons.1 h
    exact he.bind fun _ _ => (ih hes).bind fun _ _ => refusedOnly_ok _

lemma onlyLimits_describe (e : Expr) : RefusedOnly Error.IsLimit e.describe := by
  induction e with
  | const c => exact c.onlyLimits_text.bind fun _ _ => refusedOnly_ok _
  | var x => exact refusedOnly_ok _
  | neg e ih => exact ih.bind fun _ _ => refusedOnly_ok _
  | other m k es ih => exact (onlyLimits_describeList ih).bind fun _ _ => refusedOnly_ok _
  | _ l r ihl ihr => exact ihl.bind fun _ _ => ihr.bind fun _ _ => refusedOnly_ok _

end Expr

lemma Equation.onlyLimits_text (a : Equation) : RefusedOnly Error.IsLimit a.text :=
  a.lhs.onlyLimits_text.bind fun _ _ => a.rhs.onlyLimits_text.bind fun _ _ => refusedOnly_ok _

lemma Outcome.onlyLimits_text (o : Outcome) : RefusedOnly Error.IsLimit o.text := by
  cases o with
  | formula a => exact a.expr.onlyLimits_text
  | equation a => exact a.onlyLimits_text

lemma Body.onlyLimits_describe (b : Body) : RefusedOnly Error.IsLimit b.describe := by
  cases b with
  | expr e => exact e.onlyLimits_describe
  | equation a =>
    exact a.lhs.onlyLimits_describe.bind fun _ _ => a.rhs.onlyLimits_describe.bind fun _ _ =>
      refusedOnly_ok _

lemma Directive.onlyLimits_describe (d : Directive) : RefusedOnly Error.IsLimit d.describe := by
  cases d with
  | solve x => exact refusedOnly_ok _
  | substitute x t => exact t.onlyLimits_describe.bind fun _ _ => refusedOnly_ok _

lemma Statement.onlyLimits_describe (s : Statement) : RefusedOnly Error.IsLimit s.describe := by
  refine s.body.onlyLimits_describe.bind fun _ _ => ?_
  dsimp only
  split
  · next d _ => exact d.onlyLimits_describe.bind fun _ _ => refusedOnly_ok _
  · exact refusedOnly_ok _

/-! ### Canonical forms -/

lemma foreseen_canonical (he : e.HasLetters Error.IsForeseen) :
    RefusedOnly Error.IsForeseen (canonical e) :=
  (foreseen_simplify e).bind fun _ hr => refusedOnly_order admits_isForeseen
    (he.mono fun _ => countOccurrences_simplify_le hr)

lemma foreseen_substitute (he : e.HasLetters Error.IsForeseen)
    (ht : t.HasLetters Error.IsForeseen) : RefusedOnly Error.IsForeseen (substitute x t e) := by
  refine (refusedOnly_replace admits_isForeseen x t e).bind fun u hu => foreseen_canonical ?_
  intro y hy
  rcases occurs_of_replace hu hy with hy | hy
  · exact he y hy
  · exact ht y hy

/-! ### Solving -/

/-- Refusals for how often the unknown of an equation occurs, and those of simplification among
them. -/
structure AdmitsEquations (Q : Error → Prop) : Prop extends AdmitsNumbers Q where
  unknownAbsent : ∀ x equation, Q (.unknownAbsent x equation)
  unknownRepeated : ∀ x side, Q (.unknownRepeated x side)
  unknownRepeatedIn : ∀ x count difference, Q (.unknownRepeatedIn x count difference)

lemma admitsEquations_isForeseen : AdmitsEquations Error.IsForeseen where
  toAdmitsNumbers := admitsNumbers_isForeseen
  unknownAbsent _ _ := .inl rfl
  unknownRepeated _ _ := .inl rfl
  unknownRepeatedIn _ _ _ := .inl rfl

lemma refusedOnly_planThrough {Q : Error → Prop} {a b : Except Error (Option (List Inverse))}
    (ha : RefusedOnly Q a) (hb : RefusedOnly Q b) (i j : Inverse) :
    RefusedOnly Q (planThrough a i b j) := by
  refine ha.bind fun plan _ => ?_
  cases plan with
  | some steps => exact refusedOnly_ok _
  | none => exact hb.bind fun _ _ => refusedOnly_ok _

/-- The search for a plan is refused for the kind of some part only. -/
lemma refusedOnly_planFor {Q : Error → Prop} (hQ : Admits Q) (x : String) (e : Expr) :
    RefusedOnly Q (planFor x e) := by
  induction e with
  | const c => exact refusedOnly_ok _
  | var y => exact refusedOnly_ok _
  | neg e ih => exact ih.bind fun _ _ => refusedOnly_ok _
  | other m k es => exact refusedOnly_error (hQ.unsupported _ _)
  | _ l r ihl ihr => exact refusedOnly_planThrough ihl ihr _ _

lemma foreseen_replayFrom (steps : List Inverse) (node r : Expr) :
    RefusedOnly Error.IsForeseen (replayFrom x steps node r) := by
  induction steps generalizing node r with
  | nil =>
    unfold replayFrom
    split
    · exact refusedOnly_ite (refusedOnly_ok _) (refusedOnly_error (.inl rfl))
    · exact (Expr.onlyLimits_text _).foreseen.bind fun _ _ => refusedOnly_error (.inl rfl)
  | cons i steps ih =>
    unfold replayFrom
    split
    · exact ih _ _
    · exact (Expr.onlyLimits_text _).foreseen.bind fun _ _ => refusedOnly_error (.inl rfl)

namespace Equation

variable (a : Equation) {Q : Error → Prop}

lemma refusedOnly_refuseRepeated (hQ : AdmitsEquations Q) (side : Expr) :
    RefusedOnly Q (refuseRepeated x side) := by
  refine refusedOnly_ite ?_ (refusedOnly_ok _)
  exact (side.onlyLimits_text.mono hQ.limit).bind fun _ _ =>
    refusedOnly_error (hQ.unknownRepeated _ _)

lemma refusedOnly_normalize (hQ : AdmitsEquations Q) : RefusedOnly Q (a.normalize x) := by
  have hsimplify := refusedOnly_simplify hQ.toAdmitsNumbers
  have hdifference : RefusedOnly Q a.difference :=
    (hsimplify _).bind fun _ _ => (hsimplify _).bind fun _ _ => hsimplify _
  have hnote (d : Expr) : RefusedOnly Q (a.normalizedNote d) :=
    (a.onlyLimits_text.mono hQ.limit).bind fun _ _ =>
      (d.onlyLimits_text.mono hQ.limit).bind fun _ _ => refusedOnly_ok _
  exact (refusedOnly_refuseRepeated hQ _).bind fun _ _ =>
    (refusedOnly_refuseRepeated hQ _).bind fun _ _ =>
      hdifference.bind fun d _ => (hnote d).bind fun _ _ => refusedOnly_ok _

/-- The plan is refused for how often the unknown occurs, or else as the search for it is. -/
lemma refusedOnly_plan (hQ : AdmitsEquations Q) {d : Expr}
    (hlost : planFor x d = .ok none → 0 < d.countOccurrences x → ∀ s, Q (.unknownLost x s)) :
    RefusedOnly Q (a.plan x d) := by
  unfold plan
  dsimp only
  split
  · exact (a.onlyLimits_text.mono hQ.limit).bind fun _ _ => refusedOnly_error (hQ.unknownAbsent _ _)
  · next hpos =>
    refine refusedOnly_ite ?_ ?_
    · exact (d.onlyLimits_text.mono hQ.limit).bind fun _ _ =>
        refusedOnly_error (hQ.unknownRepeatedIn _ _ _)
    · refine (refusedOnly_planFor hQ.toAdmits x d).bind fun steps hsteps => ?_
      cases steps with
      | some steps => exact refusedOnly_ok _
      | none =>
        exact (d.onlyLimits_text.mono hQ.limit).bind fun _ _ =>
          refusedOnly_error (hlost hsteps (Nat.pos_of_ne_zero hpos) _)

lemma foreseen_solution : RefusedOnly Error.IsForeseen (a.solution x) :=
  (a.refusedOnly_normalize admitsEquations_isForeseen).bind fun _ _ =>
    (a.refusedOnly_plan admitsEquations_isForeseen fun _ _ _ => .inl rfl).bind fun _ _ =>
      foreseen_replayFrom _ _ _

/-- An equation whose variables can be weighed, as far as `Q` goes. -/
def HasLetters (Q : Error → Prop) : Prop :=
  a.lhs.HasLetters Q ∧ a.rhs.HasLetters Q

variable {a}

lemma HasLetters.of_le (ha : a.HasLetters Q)
    (hle : ∀ y, t.countOccurrences y ≤ a.countOccurrences y) : t.HasLetters Q := by
  intro y hy
  have hpos : 0 < a.countOccurrences y := Nat.lt_of_lt_of_le hy (hle y)
  rcases Nat.add_pos_iff_pos_or_pos.1 hpos with hl | hr
  · exact ha.1 y hl
  · exact ha.2 y hr

/-- The solution of an equation has no other variables than the equation. -/
lemma foreseen_solve (ha : a.HasLetters Error.IsForeseen) :
    RefusedOnly Error.IsForeseen (a.solve x) :=
  a.foreseen_solution.bind fun _ ht => foreseen_canonical (ha.of_le fun _ => count_solution_le ht)

end Equation

/-! ### Statements -/

/-- A statement whose variables can be weighed, as far as `Q` goes. -/
structure Statement.HasLetters (Q : Error → Prop) (s : Statement) : Prop where
  body : s.body.toEquation.HasLetters Q
  replacement : ∀ x t, s.directive = some (.substitute x t) → t.HasLetters Q

namespace Body

variable {b : Body} (hb : b.toEquation.HasLetters Error.IsForeseen)

include hb

lemma foreseen_canonical : RefusedOnly Error.IsForeseen b.canonical := by
  obtain ⟨hl, hr⟩ := hb
  cases b with
  | expr e =>
    exact ((SymbolicAlgebra.foreseen_canonical hl).bind fun _ _ => refusedOnly_ok _).bind
      fun _ _ => refusedOnly_ok _
  | equation a =>
    exact ((SymbolicAlgebra.foreseen_canonical hl).bind fun _ _ =>
      (SymbolicAlgebra.foreseen_canonical hr).bind fun _ _ => refusedOnly_ok _).bind
        fun _ _ => refusedOnly_ok _

lemma foreseen_substitute (ht : t.HasLetters Error.IsForeseen) :
    RefusedOnly Error.IsForeseen (b.substitute x t) := by
  obtain ⟨hl, hr⟩ := hb
  cases b with
  | expr e =>
    have hformula : RefusedOnly Error.IsForeseen (Formula.ofExpr e) :=
      (SymbolicAlgebra.foreseen_canonical hl).bind fun _ _ => refusedOnly_ok _
    refine hformula.bind fun a ha => ?_
    obtain ⟨e', he', ha⟩ := bind_eq_ok_iff.1 ha
    obtain rfl := pure_eq_ok_iff.1 ha
    have he' : e'.HasLetters Error.IsForeseen :=
      Expr.HasLetters.mono hl fun _ => countOccurrences_canonical_le he'
    exact ((SymbolicAlgebra.foreseen_substitute he' ht).bind fun _ _ => refusedOnly_ok _).bind
      fun _ _ => refusedOnly_ok _
  | equation a =>
    exact ((SymbolicAlgebra.foreseen_substitute hl ht).bind fun _ _ =>
      (SymbolicAlgebra.foreseen_substitute hr ht).bind fun _ _ => refusedOnly_ok _).bind
        fun _ _ => refusedOnly_ok _

end Body

/-- A statement whose variables can be weighed has an outcome, or is refused for a reason that a
session reports, or for a number that is too long. -/
theorem Statement.foreseen_evaluate {s : Statement} (hs : s.HasLetters Error.IsForeseen) :
    RefusedOnly Error.IsForeseen s.evaluate := by
  unfold evaluate
  split
  · exact Body.foreseen_canonical hs.body
  · exact (Equation.foreseen_solve hs.body).bind fun _ _ => refusedOnly_ok _
  · next x t hdirective => exact Body.foreseen_substitute hs.body (hs.replacement x t hdirective)

end SymbolicAlgebra
