import Mathlib.Data.List.Forall2
import SymbolicAlgebra.Expr.Chain
import SymbolicAlgebra.Proofs.BinaryValue
import SymbolicAlgebra.Weight

/-!
# Sameness of expressions

To be the same is symmetric and transitive, but not reflexive: a constant that is not a number need
not be the same as itself. A chain is the same as itself just when its operands are. Expressions
that are the same weigh the same.
-/

namespace SymbolicAlgebra

namespace Number

variable {a b c : Number}

lemma same_nan_iff {m n : Mark} {p q : Int} :
    (float (.nan m) p).same (float (.nan n) q) = m.agrees n := by
  simp [same, BEq.beq, eq, exactValue?, bigFloat, BigFloat.eq, BigFloat.sharesMark]

lemma same_symm (h : a.same b) : b.same a := by
  rcases same_cases h with ⟨x, ha, hb⟩ | ⟨s, p, q, rfl, rfl⟩ | ⟨m, p, q, rfl, rfl⟩
  · exact (same_iff_of_toRat? hb ha).2 rfl
  · simp [same, BEq.beq, eq, exactValue?, bigFloat, BigFloat.eq]
  · rw [same_nan_iff] at h ⊢
    exact h

lemma same_trans (h : a.same b) (h' : b.same c) : a.same c := by
  rcases same_cases h with ⟨x, ha, hb⟩ | ⟨s, p, q, rfl, rfl⟩ | ⟨m, p, q, rfl, rfl⟩ <;>
    rcases same_cases h' with ⟨y, hb', hc⟩ | ⟨t, p', q', hb', rfl⟩ | ⟨n, p', q', hb', rfl⟩
  · exact (same_iff_of_toRat? ha hc).2 (Option.some.inj (hb.symm.trans hb'))
  · simp [hb', toRat?] at hb
  · simp [hb', toRat?] at hb
  · cases hb'
  · cases hb'
    exact h
  · cases hb'
  · cases hb'
  · cases hb'
  · cases hb'
    exact h

end Number

namespace Expr

variable {e e' e'' x y : Expr} {c : Chain} {es : List Expr}

lemma same_symm (h : e.same e') : e'.same e := by
  induction e generalizing e' with
  | const a =>
    cases e' <;> simp only [same, Bool.false_eq_true] at h
    exact Number.same_symm h
  | var x =>
    cases e' <;> simp only [same, beq_iff_eq, Bool.false_eq_true] at h
    simp only [same, beq_iff_eq]
    exact h.symm
  | other m k es _ =>
    cases e' <;> simp only [same, Bool.false_eq_true] at h
    obtain rfl := Mark.eq_of_agrees h
    exact h
  | neg e ih =>
    cases e' <;> simp only [same, Bool.false_eq_true] at h
    exact ih h
  | _ l r ihl ihr =>
    cases e' <;> simp only [same, Bool.and_eq_true, Bool.false_eq_true] at h
    simp only [same, Bool.and_eq_true]
    exact ⟨ihl h.1, ihr h.2⟩

lemma same_trans (h : e.same e') (h' : e'.same e'') : e.same e'' := by
  induction e generalizing e' e'' with
  | const a =>
    cases e' <;> simp only [same, Bool.false_eq_true] at h
    cases e'' <;> simp only [same, Bool.false_eq_true] at h'
    exact Number.same_trans h h'
  | var x =>
    cases e' <;> simp only [same, Bool.false_eq_true] at h
    cases e'' <;> simp only [same, Bool.false_eq_true] at h'
    simp only [beq_iff_eq] at h h'
    simp [same, h, h']
  | other m k es _ =>
    cases e' <;> simp only [same, Bool.false_eq_true] at h
    cases e'' <;> simp only [same, Bool.false_eq_true] at h'
    obtain rfl := Mark.eq_of_agrees h
    exact h'
  | neg e ih =>
    cases e' <;> simp only [same, Bool.false_eq_true] at h
    cases e'' <;> simp only [same, Bool.false_eq_true] at h'
    exact ih h h'
  | _ l r ihl ihr =>
    cases e' <;> simp only [same, Bool.and_eq_true, Bool.false_eq_true] at h
    cases e'' <;> simp only [same, Bool.and_eq_true, Bool.false_eq_true] at h'
    simp only [same, Bool.and_eq_true]
    exact ⟨ihl h.1 h'.1, ihr h.2 h'.2⟩

lemma same_left (h : e.same e') : e.same e :=
  same_trans h (same_symm h)

/-! ### Chains -/

lemma same_node {l r l' r' : Expr} :
    (c.node l r).same (c.node l' r') = (l.same l' && r.same r') := by
  cases c <;> rfl

lemma same_link {es' : List Expr} (h : List.Forall₂ (fun x y => x.same y) es es')
    (he : e.same e') : (c.link e es).same (c.link e' es') := by
  induction h generalizing e e' with
  | nil => exact he
  | cons hx _ ih =>
    rw [Chain.link, Chain.link, same_node, Bool.and_eq_true]
    exact ⟨he, ih hx⟩

/-- Chains of operands that are the same are the same. -/
lemma same_build {es' : List Expr} (h : List.Forall₂ (fun x y => x.same y) es es') :
    (c.build es).same (c.build es') := by
  cases h with
  | nil => cases c <;> rfl
  | cons hx h => exact same_link h hx

lemma same_of_mem_of_link (h : (c.link e es).same (c.link e es)) : ∀ x ∈ e :: es, x.same x := by
  induction es generalizing e with
  | nil =>
    intro x hx
    rw [List.mem_singleton.1 hx]
    exact h
  | cons e' es ih =>
    rw [Chain.link, same_node, Bool.and_eq_true] at h
    intro x hx
    rcases List.mem_cons.1 hx with rfl | hx
    · exact h.1
    · exact ih h.2 x hx

/-- The operands of a chain that is the same as itself are so too. -/
lemma same_of_mem_of_build (h : (c.build es).same (c.build es)) (hx : x ∈ es) : x.same x := by
  cases es with
  | nil => cases hx
  | cons e es => exact same_of_mem_of_link h x hx

/-! ### Weights -/

lemma valueAtLetters_of_same {w : BigFloat} (h : e.same e') (hw : e.valueAtLetters = .ok w) :
    e'.valueAtLetters = .ok w := by
  induction e generalizing e' w with
  | const a =>
    cases e' <;> simp only [same, Bool.false_eq_true] at h
    rw [← hw]
    exact congrArg Except.ok (Number.toBigFloat_eq_of_same (by decide) h).symm
  | var x =>
    cases e' <;> simp only [same, Bool.false_eq_true] at h
    simp only [beq_iff_eq] at h
    rwa [← h]
  | other m k es _ => cases hw
  | log b a _ _ => cases hw
  | neg e ih =>
    cases e' <;> simp only [same, Bool.false_eq_true] at h
    obtain ⟨v, hv, hw⟩ := bind_eq_ok_iff.1 hw
    exact bind_eq_ok_iff.2 ⟨v, ih h hv, hw⟩
  | div n d ihn ihd =>
    cases e' <;> simp only [same, Bool.and_eq_true, Bool.false_eq_true] at h
    obtain ⟨v, hv, hw⟩ := bind_eq_ok_iff.1 hw
    refine bind_eq_ok_iff.2 ⟨v, ihd h.2 hv, ?_⟩
    split at hw
    · next hz => simpa [hz] using hw
    · next hz =>
      obtain ⟨u, hu, hw⟩ := bind_eq_ok_iff.1 hw
      simp only [hz, ihn h.1 hu]
      exact hw
  | _ l r ihl ihr =>
    cases e' <;> simp only [same, Bool.and_eq_true, Bool.false_eq_true] at h
    obtain ⟨u, hu, hw⟩ := bind_eq_ok_iff.1 hw
    obtain ⟨v, hv, hw⟩ := bind_eq_ok_iff.1 hw
    exact bind_eq_ok_iff.2 ⟨u, ihl h.1 hu, bind_eq_ok_iff.2 ⟨v, ihr h.2 hv, hw⟩⟩

/-- Expressions that are the same weigh the same. -/
lemma weight_of_same {w : BigFloat} (h : e.same e') (hw : e.weight = .ok w) :
    e'.weight = .ok w := by
  obtain ⟨v, hv, hw⟩ := bind_eq_ok_iff.1 hw
  exact bind_eq_ok_iff.2 ⟨v, valueAtLetters_of_same h hv, hw⟩

end Expr

end SymbolicAlgebra
