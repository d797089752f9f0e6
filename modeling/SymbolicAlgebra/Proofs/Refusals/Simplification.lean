import SymbolicAlgebra.Proofs.Refusals.Order
import SymbolicAlgebra.Proofs.Soundness.Product

/-!
# Refusals of simplification

The rules of simplification refuse an expression for a number that is too long, for an operation on
numbers that has no result, or for the kind of a node, and for no other reason
(`refusedOnly_simplify`). All of these are foreseen (`Error.IsForeseen`): a session reports the
refusal, or it is for a number that is too long (`foreseen_simplify`).
-/

namespace SymbolicAlgebra

/-- Refusals of the operations on numbers, those for long numbers and those for unsupported kinds
among them. -/
structure AdmitsNumbers (Q : Error → Prop) : Prop extends Admits Q where
  divisionByZero : ∀ dividend, Q (.divisionByZero dividend)
  zeroToNegativePower : ∀ exponent, Q (.zeroToNegativePower exponent)
  notReal : ∀ base exponent, Q (.notReal base exponent)

/-- A refusal that a session reports, or one for a number that is too long. -/
def Error.IsForeseen (e : Error) : Prop :=
  e.isReported ∨ e.IsLimit

lemma Error.IsLimit.isForeseen {e : Error} (h : e.IsLimit) : e.IsForeseen :=
  .inr h

lemma admitsNumbers_isForeseen : AdmitsNumbers Error.IsForeseen where
  limit _ h := h.isForeseen
  unsupported _ _ := .inl rfl
  divisionByZero _ := .inl rfl
  zeroToNegativePower _ := .inl rfl
  notReal _ _ := .inl rfl

lemma admits_isForeseen : Admits Error.IsForeseen :=
  admitsNumbers_isForeseen.toAdmits

lemma RefusedOnly.foreseen {α : Type} {x : Except Error α} (hx : RefusedOnly Error.IsLimit x) :
    RefusedOnly Error.IsForeseen x :=
  hx.mono fun _ h => h.isForeseen

variable {Q : Error → Prop}

/-! ### Numbers -/

namespace Number

variable (hQ : AdmitsNumbers Q) (a b : Number)

include hQ

lemma refusedOnly_div : RefusedOnly Q (a.div b) := by
  unfold Number.div
  refine refusedOnly_ite ?_ ?_
  · exact (a.onlyLimits_text.mono hQ.limit).bind fun _ _ => refusedOnly_error (hQ.divisionByZero _)
  · dsimp only
    split
    · exact refusedOnly_ok _
    · exact ((BigFloat.onlyLimits_refuseWideQuotient _ _ _).mono hQ.limit).bind fun _ _ =>
        refusedOnly_ok _

lemma refusedOnly_powFloat : RefusedOnly Q (a.powFloat b) := by
  unfold powFloat
  refine refusedOnly_ite ?_ ?_
  · exact (b.onlyLimits_text.mono hQ.limit).bind fun _ _ =>
      refusedOnly_error (hQ.zeroToNegativePower _)
  · refine ((BigFloat.onlyLimits_boundedPow _ _ _).mono hQ.limit).bind fun power _ => ?_
    cases power with
    | real x => exact refusedOnly_ok _
    | complex x =>
      exact (a.onlyLimits_text.mono hQ.limit).bind fun _ _ =>
        (b.onlyLimits_text.mono hQ.limit).bind fun _ _ => refusedOnly_error (hQ.notReal _ _)

lemma refusedOnly_powExact (q : Rat) (n : Int) : RefusedOnly Q (powExact q n) := by
  unfold powExact
  refine refusedOnly_ite ?_ (refusedOnly_ite (refusedOnly_ok _) (refusedOnly_ok _))
  exact ((onlyLimits_integerText n).mono hQ.limit).bind fun _ _ =>
    refusedOnly_error (hQ.zeroToNegativePower _)

lemma refusedOnly_pow : RefusedOnly Q (a.pow b) := by
  unfold pow
  split
  · exact refusedOnly_ite (refusedOnly_powExact hQ _ _) (refusedOnly_powFloat hQ a b)
  · exact refusedOnly_powFloat hQ a b

end Number

namespace Simplify

open Bounded

/-- A computation that is refused as `Q` says, if at all, whatever its result. -/
abbrev RefusesOnly {α : Type} (Q : Error → Prop) (x : Bounded α) : Prop :=
  x.Ensures (fun _ => True) Q

lemma refusesOnly_ofExcept {α : Type} {x : Except Error α} (hx : RefusedOnly Q x) :
    RefusesOnly Q (Bounded.ofExcept x) :=
  ensures_of_refusedOnly hx fun _ _ => trivial

section

variable {simp : Expr → Bounded Expr} (h : ∀ e, RefusesOnly Q (simp e))

include h

/-! ### Chains -/

lemma refusesOnly_operands (c : Chain) (e : Expr) : RefusesOnly Q (operands simp c e) := by
  induction e using c.induct with
  | node l r ihl ihr =>
    rw [operands_node]
    exact ihl.bind fun _ _ => ihr.bind fun _ _ => ensures_pure trivial
  | leaf e he =>
    rw [operands_leaf simp he]
    exact (h e).bind fun _ _ => ensures_pure trivial

lemma refusesOnly_gatherTerms (ts : List LikeTerms) (g : Gathered) :
    RefusesOnly Q (gatherTerms simp ts g) := by
  induction ts generalizing g with
  | nil => exact ensures_pure trivial
  | cons t ts ih =>
    unfold gatherTerms
    split
    · exact ih g
    · have hterm : RefusesOnly Q (t.toTerm simp) := by
        unfold LikeTerms.toTerm
        split
        · exact ensures_pure trivial
        · exact h _
      exact hterm.bind fun _ _ => ih _

variable (hQ : AdmitsNumbers Q)

include hQ

lemma refusesOnly_sum (l r : Expr) : RefusesOnly Q (sum simp l r) := by
  refine (refusesOnly_operands h .sum (.add l r)).bind fun es _ => ?_
  refine (refusesOnly_ofExcept (onlyLimits_foldlM.mono hQ.limit)).bind fun s _ => ?_
  exact (refusesOnly_gatherTerms h s.terms _).bind fun _ _ => ensures_pure trivial

lemma refusesOnly_gatherFactors (fs : List LikeFactors) (g : Gathered) :
    RefusesOnly Q (gatherFactors simp fs g) := by
  induction fs generalizing g with
  | nil => exact ensures_pure trivial
  | cons f fs ih =>
    have hfactor : RefusesOnly Q (f.toFactor simp) := by
      unfold LikeFactors.toFactor
      split
      · next p _ =>
        have hconstant := (onlyLimits_refuseLongConstant p).mono hQ.limit
        exact (refusesOnly_ofExcept hconstant).bind fun _ _ => ensures_pure trivial
      · exact h _
    exact hfactor.bind fun _ _ => ih _

lemma refusesOnly_product (l r : Expr) : RefusesOnly Q (product simp l r) := by
  refine (refusesOnly_operands h .product (.mul l r)).bind fun es _ => ?_
  refine (refusesOnly_ofExcept (onlyLimits_collectFactors.mono hQ.limit)).bind fun out _ => ?_
  cases out with
  | zero c => exact ensures_pure trivial
  | collected s =>
    refine (refusesOnly_gatherFactors h hQ s.factors _).bind fun g _ => ?_
    exact (refusesOnly_ofExcept (g.onlyLimits_refuseLong.mono hQ.limit)).bind fun _ _ =>
      ensures_pure trivial

/-! ### The other rules -/

omit h in
lemma refusedOnly_quotient (n d : Expr) : RefusedOnly Q (quotient n d) := by
  unfold quotient
  split
  · exact (Number.refusedOnly_div hQ _ _).bind fun _ _ => refusedOnly_ok _
  · exact refusedOnly_ok _

omit h in
lemma refusedOnly_constantPower (b p : Number) : RefusedOnly Q (constantPower b p) := by
  unfold constantPower
  split
  · exact refusedOnly_ok _
  · exact refusedOnly_ok _
  · next e _ he => exact refusedOnly_error (Number.refusedOnly_pow hQ b p e he)

lemma refusesOnly_powerOf (b p : Expr) : RefusesOnly Q (powerOf simp b p) := by
  unfold powerOf
  split
  · exact (h _).bind fun _ _ => h _
  · exact refusesOnly_ofExcept (refusedOnly_constantPower hQ _ _)
  · exact ensures_pure trivial

lemma refusesOnly_power (b p : Expr) : RefusesOnly Q (power simp b p) := by
  unfold power
  split
  · split
    · exact ensures_pure trivial
    · split
      · exact ensures_pure trivial
      · exact refusesOnly_powerOf h hQ _ _
  · exact refusesOnly_powerOf h hQ _ _

omit hQ in
lemma refusesOnly_opposite (e : Expr) : RefusesOnly Q (opposite simp e) := by
  unfold opposite
  split
  all_goals first | exact ensures_pure trivial | exact h _

/-- A simplifier that is refused as `Q` says makes one of the kind, one level up. -/
lemma refusesOnly_step (e : Expr) : RefusesOnly Q (step simp e) := by
  cases e with
  | const c => exact ensures_pure trivial
  | var x => exact ensures_pure trivial
  | add l r => exact refusesOnly_sum h hQ l r
  | mul l r => exact refusesOnly_product h hQ l r
  | sub l r => exact (h l).bind fun _ _ => (h r).bind fun _ _ => (h _).bind fun _ _ => h _
  | div n d =>
    exact (h n).bind fun _ _ => (h d).bind fun _ _ =>
      refusesOnly_ofExcept (refusedOnly_quotient hQ _ _)
  | pow b p => exact (h b).bind fun _ _ => (h p).bind fun _ _ => refusesOnly_power h hQ _ _
  | log b a => exact (h b).bind fun _ _ => (h a).bind fun _ _ => ensures_pure trivial
  | neg e => exact (h e).bind fun _ _ => refusesOnly_opposite h _
  | other m k es => exact ensures_throw (hQ.unsupported _ _)

end

lemma refusesOnly_within (hQ : AdmitsNumbers Q) (n : Nat) (e : Expr) :
    RefusesOnly Q (within n e) := by
  induction n generalizing e with
  | zero => exact ⟨fun _ h => (nomatch h), fun _ h => (nomatch h)⟩
  | succ n ih => exact refusesOnly_step ih hQ e

end Simplify

/-- Whatever an expression is, its simplification is refused for a long number, for an operation on
numbers or for an unsupported kind, if at all. -/
theorem refusedOnly_simplify (hQ : AdmitsNumbers Q) (e : Expr) : RefusedOnly Q (simplify e) := by
  obtain ⟨n, hn⟩ := simplify_eq_iff.1 (rfl : simplify e = simplify e)
  exact fun err herr => (Simplify.refusesOnly_within hQ n e).2 err (hn.trans (congrArg some herr))

/-- Whatever an expression is, its simplification is refused for a reason that a session reports, or
for a number that is too long, if at all. -/
theorem foreseen_simplify (e : Expr) : RefusedOnly Error.IsForeseen (simplify e) :=
  refusedOnly_simplify admitsNumbers_isForeseen e

end SymbolicAlgebra
