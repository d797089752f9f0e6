import SymbolicAlgebra.Proofs.Occurrences

/-!
# Refusals of ordering and replacing

An expression is not ordered if its operands cannot be weighed: a number is too long, some part is
of a kind without weight, or a variable is none of the letters that stand for values. Replacing a
variable is refused for the kind of some part only.
-/

namespace SymbolicAlgebra

variable {α : Type} {Q : Error → Prop} {e l r t : Expr} {x : String}

/-- Refusals that count numbers that are too long, and unsupported kinds, among them. -/
structure Admits (Q : Error → Prop) : Prop where
  limit : ∀ e : Error, e.IsLimit → Q e
  unsupported : ∀ kind task, Q (.unsupported kind task)

/-- An expression all of whose variables can be weighed, as far as `Q` goes. -/
def Expr.HasLetters (Q : Error → Prop) (e : Expr) : Prop :=
  ∀ x, 0 < e.countOccurrences x → RefusedOnly Q (letterValue x)

lemma Expr.HasLetters.mono (h : e.HasLetters Q)
    (hle : ∀ x, l.countOccurrences x ≤ e.countOccurrences x) : l.HasLetters Q :=
  fun x hx => h x (Nat.lt_of_lt_of_le hx (hle x))

lemma hasLetters_node {c : Chain} (h : (c.node l r).HasLetters Q) :
    l.HasLetters Q ∧ r.HasLetters Q :=
  ⟨h.mono fun x => by simp, h.mono fun x => by simp⟩

/-! ### Weights -/

lemma refusedOnly_powerWeight (hQ : Admits Q) (b p : BigFloat) :
    RefusedOnly Q (powerWeight b p) := by
  refine ((BigFloat.onlyLimits_boundedPow _ b p).mono hQ.limit).bind fun power _ => ?_
  cases power <;> exact refusedOnly_ok _

lemma refusedOnly_valueAtLetters (hQ : Admits Q) (he : e.HasLetters Q) :
    RefusedOnly Q e.valueAtLetters := by
  induction e with
  | const c => exact refusedOnly_ok _
  | var x => exact he x (by simp [Expr.countOccurrences, Expr.variableNames])
  | add l r ihl ihr | sub l r ihl ihr | mul l r ihl ihr =>
    exact (ihl (he.mono fun x => by simp)).bind fun _ _ =>
      (ihr (he.mono fun x => by simp)).bind fun _ _ => refusedOnly_ok _
  | div n d ihn ihd =>
    refine (ihd (he.mono fun x => by simp)).bind fun den _ => ?_
    split
    · exact refusedOnly_ok _
    · exact (ihn (he.mono fun x => by simp)).bind fun _ _ => refusedOnly_ok _
  | pow b p ihb ihp =>
    exact (ihb (he.mono fun x => by simp)).bind fun _ _ =>
      (ihp (he.mono fun x => by simp)).bind fun _ _ => refusedOnly_powerWeight hQ _ _
  | log b a => exact refusedOnly_error (hQ.unsupported _ _)
  | neg e ih => exact (ih he).bind fun _ _ => refusedOnly_ok _
  | other m k es => exact refusedOnly_error (hQ.unsupported _ _)

lemma refusedOnly_weight (hQ : Admits Q) (he : e.HasLetters Q) : RefusedOnly Q e.weight := by
  refine (refusedOnly_valueAtLetters hQ he).bind fun w _ => ?_
  split <;> exact refusedOnly_ok _

/-! ### Order -/

lemma reordered_orderWithin {c : Option Chain} (h : orderWithin c e = .ok r) : e.Reordered r := by
  rw [orderWithin_eq] at h
  exact reordered_arrangeWithin (fun x x' hx => by simp at hx) h

lemma refusedOnly_arrange_weight {c : Chain} (hQ : Admits Q) (he : e.HasLetters Q) :
    RefusedOnly Q (c.arrange Expr.weight heavierOrEqual e) := by
  refine Expr.refusedOnly_arrange fun u hu => refusedOnly_weight hQ (he.mono fun x => ?_)
  rw [← c.countAll_operands e]
  exact countOccurrences_le_countAll hu

lemma refusedOnly_orderWithin (hQ : Admits Q) (he : e.HasLetters Q) (c : Option Chain) :
    RefusedOnly Q (orderWithin c e) := by
  induction e generalizing c with
  | const n => exact refusedOnly_ok _
  | var x => exact refusedOnly_ok _
  | add l r ihl ihr =>
    obtain ⟨hl, hr⟩ := hasLetters_node (c := .sum) he
    refine (ihl hl _).bind fun l' hl' => (ihr hr _).bind fun r' hr' => refusedOnly_ite
      (refusedOnly_ok _) (refusedOnly_arrange_weight hQ (he.mono fun x => ?_))
    simp [(reordered_orderWithin hl').countOccurrences_eq,
      (reordered_orderWithin hr').countOccurrences_eq]
  | mul l r ihl ihr =>
    obtain ⟨hl, hr⟩ := hasLetters_node (c := .product) he
    refine (ihl hl _).bind fun l' hl' => (ihr hr _).bind fun r' hr' => refusedOnly_ite
      (refusedOnly_ok _) (refusedOnly_arrange_weight hQ (he.mono fun x => ?_))
    simp [(reordered_orderWithin hl').countOccurrences_eq,
      (reordered_orderWithin hr').countOccurrences_eq]
  | neg e ih => exact (ih he _).bind fun _ _ => refusedOnly_ok _
  | other m k es => exact refusedOnly_error (hQ.unsupported _ _)
  | _ l r ihl ihr =>
    exact (ihl (he.mono fun x => by simp) _).bind fun _ _ =>
      (ihr (he.mono fun x => by simp) _).bind fun _ _ => refusedOnly_ok _

/-- An expression is ordered unless it cannot be weighed. -/
lemma refusedOnly_order (hQ : Admits Q) (he : e.HasLetters Q) : RefusedOnly Q (order e) :=
  refusedOnly_orderWithin hQ he none

/-! ### Replacing a variable -/

lemma refusedOnly_replace (hQ : Admits Q) (x : String) (t e : Expr) :
    RefusedOnly Q (replace x t e) := by
  induction e with
  | const c => exact refusedOnly_ok _
  | var y => exact refusedOnly_ok _
  | neg e ih => exact ih.bind fun _ _ => refusedOnly_ok _
  | other m k es => exact refusedOnly_error (hQ.unsupported _ _)
  | _ l r ihl ihr => exact ihl.bind fun _ _ => ihr.bind fun _ _ => refusedOnly_ok _

end SymbolicAlgebra
