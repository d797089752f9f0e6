import Mathlib.Tactic.Common
import SymbolicAlgebra.Expr.Basic

/-!
# Equality of expressions can be decided

Literal equality, where constants must agree in their representations too, unlike in `Expr.same`.
-/

namespace SymbolicAlgebra.Expr

mutual

/-- Whether two expressions are literally equal. -/
def equal : Expr → Expr → Bool
  | const c, const d => c = d
  | var x, var y => x = y
  | add l r, add l' r' => equal l l' && equal r r'
  | sub l r, sub l' r' => equal l l' && equal r r'
  | mul l r, mul l' r' => equal l l' && equal r r'
  | div n d, div n' d' => equal n n' && equal d d'
  | pow b p, pow b' p' => equal b b' && equal p p'
  | log b a, log b' a' => equal b b' && equal a a'
  | neg e, neg e' => equal e e'
  | other m k es, other m' k' es' => m = m' && k = k' && equalLists es es'
  | _, _ => false

def equalLists : List Expr → List Expr → Bool
  | [], [] => true
  | e :: es, e' :: es' => equal e e' && equalLists es es'
  | _, _ => false

end

lemma equalLists_iff {es : List Expr} (es' : List Expr)
    (h : ∀ e ∈ es, ∀ e', e.equal e' ↔ e = e') : equalLists es es' ↔ es = es' := by
  induction es generalizing es' with
  | nil => cases es' <;> simp [equalLists]
  | cons e es ih =>
    cases es' with
    | nil => simp [equalLists]
    | cons e' es' =>
      have hes := ih es' fun x hx => h x (by simp [hx])
      simp [equalLists, h e (by simp) e', hes]

lemma equal_iff {e e' : Expr} : e.equal e' ↔ e = e' := by
  induction e generalizing e' with
  | const c => cases e' <;> simp [equal]
  | var x => cases e' <;> simp [equal]
  | neg e ih => cases e' <;> simp [equal, ih]
  | other m k es ih =>
    cases e' with
    | other m' k' es' =>
      have hes := equalLists_iff es' fun e he e' => ih e he
      simp [equal, hes, and_assoc]
    | _ => simp [equal]
  | _ l r ihl ihr => cases e' <;> simp [equal, ihl, ihr]

instance : DecidableEq Expr := fun _ _ => decidable_of_iff _ equal_iff

end SymbolicAlgebra.Expr
