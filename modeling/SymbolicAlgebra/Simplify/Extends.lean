import SymbolicAlgebra.Simplify.Step

/-!
# More depth does not change an outcome

Every rule passes from one simplifier to another that extends it. So an outcome of `within n` is
that of `within m` for every greater `m`, and there is at most one outcome.
-/

namespace SymbolicAlgebra.Simplify

open Bounded

variable {simp simp' : Expr → Bounded Expr}

/-- A simplifier that has every outcome of another. -/
def AllExtend (simp simp' : Expr → Bounded Expr) : Prop :=
  ∀ x, Extends (simp x) (simp' x)

theorem operands_leaf_extends (h : AllExtend simp simp') (c : Chain) (e : Expr) :
    Extends (do return c.operands (← simp e)) (do return c.operands (← simp' e)) :=
  (h e).bind fun _ => .refl _

theorem operands_extends (h : AllExtend simp simp') (c : Chain) (e : Expr) :
    Extends (operands simp c e) (operands simp' c e) := by
  induction e with
  | add l r ihl ihr =>
    cases c with
    | sum => exact ihl.bind fun _ => ihr.bind fun _ => .refl _
    | product => exact operands_leaf_extends h .product _
  | mul l r ihl ihr =>
    cases c with
    | sum => exact operands_leaf_extends h .sum _
    | product => exact ihl.bind fun _ => ihr.bind fun _ => .refl _
  | _ => cases c <;> exact operands_leaf_extends h _ _

theorem toTerm_extends (h : AllExtend simp simp') (t : LikeTerms) :
    Extends (t.toTerm simp) (t.toTerm simp') := by
  unfold LikeTerms.toTerm
  split
  · exact .refl _
  · exact h _

theorem gatherTerms_extends (h : AllExtend simp simp') (ts : List LikeTerms) (g : Gathered) :
    Extends (gatherTerms simp ts g) (gatherTerms simp' ts g) := by
  induction ts generalizing g with
  | nil => exact .refl _
  | cons t ts ih =>
    unfold gatherTerms
    split
    · exact ih g
    · exact (toTerm_extends h t).bind fun r => ih _

theorem sum_extends (h : AllExtend simp simp') (l r : Expr) :
    Extends (sum simp l r) (sum simp' l r) :=
  (operands_extends h .sum (.add l r)).bind fun _ => (Extends.refl _).bind fun _ =>
    (gatherTerms_extends h _ _).bind fun _ => .refl _

theorem toFactor_extends (h : AllExtend simp simp') (f : LikeFactors) :
    Extends (f.toFactor simp) (f.toFactor simp') := by
  unfold LikeFactors.toFactor
  split
  · exact .refl _
  · exact h _

theorem gatherFactors_extends (h : AllExtend simp simp') (fs : List LikeFactors) (g : Gathered) :
    Extends (gatherFactors simp fs g) (gatherFactors simp' fs g) := by
  induction fs generalizing g with
  | nil => exact .refl _
  | cons f fs ih => exact (toFactor_extends h f).bind fun r => ih _

theorem product_extends (h : AllExtend simp simp') (l r : Expr) :
    Extends (product simp l r) (product simp' l r) :=
  (operands_extends h .product (.mul l r)).bind fun _ => (Extends.refl _).bind fun out => by
    cases out with
    | zero c => exact .refl _
    | collected s => exact (gatherFactors_extends h _ _).bind fun _ => .refl _

theorem powerOf_extends (h : AllExtend simp simp') (b p : Expr) :
    Extends (powerOf simp b p) (powerOf simp' b p) := by
  unfold powerOf
  split
  · exact (h _).bind fun _ => h _
  · exact .refl _
  · exact .refl _

theorem power_extends (h : AllExtend simp simp') (b p : Expr) :
    Extends (power simp b p) (power simp' b p) := by
  unfold power
  split
  · split
    · exact .refl _
    · split
      · exact .refl _
      · exact powerOf_extends h _ _
  · exact powerOf_extends h _ _

theorem opposite_extends (h : AllExtend simp simp') (e : Expr) :
    Extends (opposite simp e) (opposite simp' e) := by
  cases e with
  | add l r => exact h _
  | sub l r => exact h _
  | mul l r => exact h _
  | div n d => exact h _
  | _ => exact .refl _

/-- A step passes from a simplifier to one that extends it. -/
theorem step_extends (h : AllExtend simp simp') (e : Expr) :
    Extends (step simp e) (step simp' e) := by
  cases e with
  | add l r => exact sum_extends h l r
  | mul l r => exact product_extends h l r
  | sub l r => exact (h l).bind fun _ => (h r).bind fun _ => (h _).bind fun _ => h _
  | div n d => exact (h n).bind fun _ => (h d).bind fun _ => .refl _
  | pow b p => exact (h b).bind fun _ => (h p).bind fun _ => power_extends h _ _
  | log b a => exact (h b).bind fun _ => (h a).bind fun _ => .refl _
  | neg e => exact (h e).bind fun _ => opposite_extends h _
  | _ => exact .refl _

/-- More depth extends every outcome. -/
theorem within_extends {m n : Nat} (h : m ≤ n) : AllExtend (within m) (within n) := by
  induction m generalizing n with
  | zero => exact fun _ _ h => nomatch h
  | succ m ih =>
    cases n with
    | zero => exact absurd h (Nat.not_succ_le_zero m)
    | succ n => exact fun e => step_extends (ih (Nat.le_of_succ_le_succ h)) e

end SymbolicAlgebra.Simplify
