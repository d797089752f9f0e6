import SymbolicAlgebra.Proofs.Idempotence
import SymbolicAlgebra.Proofs.NumeralLength

/-!
# Terms without their coefficients

What is left of a term in normal form without its coefficient is in normal form and has no
coefficient of its own (`isTermBody_splitCoefficient`). It is made of unlike factors, so that a
product with an exact number is in normal form, or has become an opposite
(`IsTermBody.simplify_mul`).
-/

namespace SymbolicAlgebra.Simplify

open SymbolicAlgebra.Expr

variable {c : Number} {e k r t : Expr} {es : List Expr}

/-- What is left of a term in normal form without its coefficient. -/
structure IsTermBody (t : Expr) : Prop where
  normal : t.Normal
  notConstant : t.isConstant = false
  split : splitCoefficient t = (t, 1)

lemma isTermBody_of_takesSign (h : t.Normal) (ht : takesSign t) : IsTermBody t := by
  cases t with
  | var | pow | log => exact ⟨h, rfl, rfl⟩
  | _ => cases ht

lemma isTermBody_splitCoefficient (h : e.Normal) (hc : e.isConstant = false) :
    IsTermBody (splitCoefficient e).1 := by
  rcases splitCoefficient_of_normal h with hsplit | ⟨d, m, rfl⟩ | ⟨x, rfl⟩
  · rw [hsplit]
    exact ⟨h, hc, hsplit⟩
  · -- the other factors of a product with a number are neither numbers nor opposites
    obtain ⟨-, hm, -, hchain⟩ := h
    refine ⟨hm, ?_, ?_⟩
    · by_contra hconst
      obtain ⟨b, rfl⟩ := eq_const_of_isConstant (by simpa using hconst)
      exact absurd (hchain.tail (.const b) (by simp [Chain.operands])) (by simp [isConstant])
    · rcases splitCoefficient_of_normal hm with hsplit | ⟨b, m', rfl⟩ | ⟨x, rfl⟩
      · exact hsplit
      · exact absurd (hchain.tail (.const b) (by simp [Chain.operands])) (by simp [isConstant])
      · exact absurd (by simp [Chain.operands]) (hchain.unsigned x)
  · exact isTermBody_of_takesSign h.2 h.1

lemma areFactors_singleton (hn : e.NormalOperand .product) (hm : Chain.product.moves e = false)
    (hunlike : Unlike factorKey [e]) (hshort : refuseLongConstant (splitExponent e).2 = .ok ()) :
    AreFactors [e] where
  normal := List.forall_mem_singleton.2 hn
  moves := List.forall_mem_singleton.2 hm
  unlike := hunlike
  short := List.forall_mem_singleton.2 hshort

lemma areFactors_singleton_of_split (hn : e.NormalOperand .product)
    (hm : Chain.product.moves e = false) (hsplit : splitExponent e = (e, .const 1))
    (hk : e.likeKey = .ok k) : AreFactors [e] := by
  refine areFactors_singleton hn hm ⟨?_, List.pairwise_singleton _ _⟩ (by rw [hsplit]; rfl)
  rw [List.forall_mem_singleton, factorKey, hsplit]
  exact ⟨k, hk⟩

lemma areFactors_of_isNormalProduct (h : IsNormalProduct es)
    (hes : ∀ e ∈ es, e.NormalOperand .product) (hc : ∀ e ∈ es, e.isConstant = false) :
    AreFactors es := by
  refine ⟨hes, fun e he => not_moves_of_ne ?_ ?_, ?_, h.short⟩
  · rintro c rfl
    cases hc _ he
  · rintro x rfl
    exact h.unsigned x he
  · rw [← filter_of_not_isConstant hc]
    exact h.unlike

/-- A term without its coefficient is made of unlike factors. -/
lemma IsTermBody.areFactors (ht : IsTermBody t) (hk : t.likeKey = .ok k) :
    AreFactors (Chain.product.operands t) := by
  obtain ⟨hn, hconst, hsplit⟩ := ht
  cases t with
  | const c => cases hconst
  | sub l m => exact hn.elim
  | neg x => cases hsplit
  | other m k es => exact hn.elim
  | mul l m =>
    have hchain : IsNormalProduct (Chain.product.operands (.mul l m)) :=
      Normal.isNormalChain (c := .product) hn
    have hnot : ∀ e ∈ Chain.product.operands (.mul l m), e.isConstant = false := by
      obtain ⟨-, -, hops, htail⟩ := hn
      intro e he
      rw [Chain.operands_product_mul, hops] at he
      rcases List.mem_cons.1 he with rfl | he
      · by_contra hc
        obtain ⟨d, rfl⟩ := eq_const_of_isConstant (by simpa using hc)
        cases hsplit
      · exact htail.tail e he
    exact areFactors_of_isNormalProduct hchain (hn.operands .product).1 hnot
  | add l m => exact areFactors_singleton_of_split ⟨hn, rfl⟩ rfl rfl hk
  | div n d => exact areFactors_singleton_of_split ⟨hn, rfl⟩ rfl rfl hk
  | _ =>
    obtain ⟨hunlike, hshort⟩ := unlike_singleton_of_takesSign rfl hk
    exact areFactors_singleton ⟨hn, rfl⟩ rfl hunlike hshort

/-- A term with an exact coefficient is in normal form, or has a minus sign for the coefficient
minus one. -/
lemma IsTermBody.simplify_mul (ht : IsTermBody t) (hk : t.likeKey = .ok k) (hc : c.isExact)
    (hz : c.isZero = false) (hone : c.isOne = false) :
    c == .integer (-1) ∧ takesSign t ∧ simplify (.mul (.const c) t) = .ok (.neg t) ∨
      (Expr.mul (.const c) t).Normal := by
  have hn := ht.normal
  by_cases hsign : c == .integer (-1) ∧ takesSign t
  · obtain ⟨hneg, hsign⟩ := hsign
    obtain ⟨v, hv⟩ := Number.exists_exactValue?_of_isExact hc
    obtain rfl : v = -1 := (Number.beq_iff hv (y := -1) rfl).1 hneg
    exact .inl ⟨hneg, hsign, simplify_neg_one_mul hv hsign hn (simplify_of_normal hn) hk⟩
  · refine .inr ⟨trivial, hn, rfl, ?_⟩
    refine (ht.areFactors hk).isNormalProduct_const hz hone (Number.rounded_of_isExact hc)
      (Number.refuseLong_of_isExact hc) fun e heq hneg => ?_
    have hops := Chain.operands_of_length_eq_one (c := .product) (e := t) (by rw [heq]; rfl)
    obtain rfl : t = e := List.singleton_inj.1 (hops.symm.trans heq)
    by_contra htakes
    exact hsign ⟨hneg, by simpa using htakes⟩

end SymbolicAlgebra.Simplify
