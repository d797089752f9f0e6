import SymbolicAlgebra.Proofs.Calls.Results
import SymbolicAlgebra.Proofs.NormalForm.Terms
import SymbolicAlgebra.Proofs.Representative
import SymbolicAlgebra.Proofs.Tallies

/-!
# Sums of operands in any order

The operands of a sum have labels: what they are alike in without their coefficients, and these;
constants have a label of their own (`Simplify.sumLabel`). The terms that are collected are those
that the labels amount to. So sums of operands that amount to the same are alike, if the calls that
put the terms together again agree (`SumResult.alike`). A sum amounts to what its operands do,
unless one of its terms has become a sum that is not taken apart (`SumResult.amountAt_eq`).
-/

namespace SymbolicAlgebra

open SymbolicAlgebra.Expr Simplify

variable {S S' : Expr → Expr → Prop} {c : Chain} {e e' l l' r r' x : Expr} {es es' rs : List Expr}
variable {k : Number} {q : Rat} {t t' : LikeTerms} {us : List LikeTerms}

/-! ### Reduced forms -/

/-- A readable expression in normal form. -/
structure Expr.IsReducedForm (e : Expr) : Prop where
  normal : e.Normal
  readable : e.IsReadable

lemma Expr.isReadable_iff_operands (c : Chain) :
    e.IsReadable ↔ ∀ x ∈ c.operands e, x.IsReadable := by
  induction e using Chain.induct c with
  | leaf e hops => rw [hops, List.forall_mem_singleton]
  | node l r ihl ihr => rw [isReadable_node, Chain.operands_node, List.forall_mem_append, ihl, ihr]

lemma Expr.IsReducedForm.of_mem_operands (h : e.IsReducedForm) (hx : x ∈ c.operands e) :
    x.IsReducedForm :=
  ⟨((h.normal.operands c).1 x hx).1, (isReadable_iff_operands c).1 h.readable x hx⟩

/-- The results of calls are readable, and are alike for expressions that are alike. -/
structure Simplify.Agree (S S' : Expr → Expr → Prop) : Prop where
  left {x y} : S x y → y.IsReadable
  right {x y} : S' x y → y.IsReadable
  alike {x y x' y'} : S x y → S' x' y' → x.Alike x' → y.Alike y'

namespace Simplify

/-! ### Labels of terms -/

/-- The class of an operand of a sum without its coefficient, with the coefficient. Constants have
no class. -/
noncomputable def sumLabel : Expr → Option AlikeClass × Rat
  | .const a => (none, a.valueOrZero)
  | e => (some (splitCoefficient e).1.alikeClass, (splitCoefficient e).2.valueOrZero)

lemma sumLabel_of_not_isConstant (h : e.isConstant = false) :
    sumLabel e = (some (splitCoefficient e).1.alikeClass, (splitCoefficient e).2.valueOrZero) := by
  cases e <;> first | rfl | cases h

/-- The class of like terms, with their coefficient. -/
noncomputable def LikeTerms.label (t : LikeTerms) : Option AlikeClass × Rat :=
  (some t.term.alikeClass, t.coefficient.valueOrZero)

/-- A product with a number at its front is alike to such products only. -/
lemma exists_mul_const_of_alike {a : Number} (h : (Expr.mul (.const a) r).Alike e')
    (hn' : e'.Normal) :
    ∃ a' r', e' = .mul (.const a') r' ∧ a'.exactValue? = a.exactValue? ∧ r.Alike r' := by
  obtain ⟨l', r', rfl⟩ := h.eq_node (c := .product)
  obtain ⟨-, -, hops', hchain'⟩ := hn'
  have hlists := h.operands .product
  have hright : Chain.product.operands (.mul l' r') = l' :: Chain.product.operands r' := by
    rw [Chain.operands_product_mul, hops']
    rfl
  rw [show Chain.product.node l' r' = .mul l' r' from rfl, hright] at hlists
  obtain ⟨x, hx, hax⟩ := hlists.exists_of_mem (x := .const a) (by simp [Chain.operands])
  obtain ⟨a', rfl, ha'⟩ := hax.eq_const
  rcases List.mem_cons.1 hx with rfl | hx
  · exact ⟨a', r', rfl, ha', alike_of_operands (hlists.of_cons hax)⟩
  · exact absurd (hchain'.tail _ hx) (by simp [isConstant])

lemma sumLabel_mul_const {a : Number} (h : (Expr.mul (.const a) r).Alike e') (hn' : e'.Normal) :
    sumLabel (.mul (.const a) r) = sumLabel e' := by
  obtain ⟨a', r', rfl, ha, hr⟩ := exists_mul_const_of_alike h hn'
  simp only [sumLabel, splitCoefficient, Number.valueOrZero, ha, alikeClass_eq_iff.2 hr]

lemma sumLabel_neg (h : (Expr.neg x).Alike e') : sumLabel (.neg x) = sumLabel e' := by
  obtain ⟨x', rfl, hx⟩ := h.eq_neg
  simp only [sumLabel, splitCoefficient, alikeClass_eq_iff.2 hx]

/-- Operands in normal form that are alike have the same label. -/
lemma sumLabel_eq_of_alike (h : e.Alike e') (hn : e.Normal) (hn' : e'.Normal) :
    sumLabel e = sumLabel e' := by
  by_cases hc : e.isConstant
  · obtain ⟨a, rfl⟩ := eq_const_of_isConstant hc
    obtain ⟨a', rfl, ha⟩ := h.eq_const
    simp only [sumLabel, Number.valueOrZero, ha]
  rcases splitCoefficient_of_normal hn with hsplit | ⟨a, m, rfl⟩ | ⟨x, rfl⟩
  · rcases splitCoefficient_of_normal hn' with hsplit' | ⟨a, m, rfl⟩ | ⟨x, rfl⟩
    · have hc := Bool.eq_false_iff.2 hc
      rw [sumLabel_of_not_isConstant hc, sumLabel_of_not_isConstant (h.isConstant_eq ▸ hc),
        hsplit, hsplit', alikeClass_eq_iff.2 h]
    · exact (sumLabel_mul_const h.symm hn).symm
    · exact (sumLabel_neg h.symm).symm
  · exact sumLabel_mul_const h hn'
  · exact sumLabel_neg h

/-- Operands that are alike amount to the same. -/
lemma amountAt_sumLabel_of_alikeLists (h : AlikeLists es es') (hes : ∀ e ∈ es, e.IsReducedForm)
    (hes' : ∀ e ∈ es', e.IsReducedForm) (i : Option AlikeClass) :
    amountAt (es.map sumLabel) i = amountAt (es'.map sumLabel) i := by
  apply amountAt_of_perm
  apply h.map_perm
  intro e he e' he' halike
  exact sumLabel_eq_of_alike halike (hes e he).normal (hes' e' he').normal

/-! ### Collected terms -/

/-- Like terms with their key and an exact coefficient. -/
structure LikeTerms.IsKeyed (t : LikeTerms) : Prop where
  body : IsTermBody t.term
  readable : t.term.IsReadable
  key : t.term.likeKey = .ok t.key
  exact : t.coefficient.isExact

lemma isReadable_splitCoefficient (h : e.IsReadable) :
    (splitCoefficient e).1.IsReadable ∧ (splitCoefficient e).2.isExact := by
  unfold splitCoefficient
  split
  · exact ⟨h.2, h.1⟩
  · exact ⟨h.1, h.2⟩
  · exact ⟨h, rfl⟩
  · exact ⟨h, rfl⟩

lemma termCollector_tallies : termCollector.Tallies LikeTerms.IsKeyed
    (fun e => e.IsReducedForm ∧ e.isConstant = false) LikeTerms.label sumLabel where
  start {e k} he hk := by
    obtain ⟨⟨hn, hread⟩, hc⟩ := he
    obtain ⟨hread, hexact⟩ := isReadable_splitCoefficient hread
    have hvalue := Number.exactValue?_zero_add (Number.exactValue?_eq_valueOrZero hexact)
    refine ⟨⟨isTermBody_splitCoefficient hn hc, hread, hk, Number.isExact_of_exactValue? hvalue⟩,
      ?_⟩
    rw [sumLabel_of_not_isConstant hc, ← Number.valueOrZero_eq hvalue]
    rfl
  push {t e k} ht he _ _ := by
    obtain ⟨⟨hn, hread⟩, hc⟩ := he
    obtain ⟨-, hexact⟩ := isReadable_splitCoefficient hread
    have hvalue := Number.exactValue?_add (Number.exactValue?_eq_valueOrZero ht.exact)
      (Number.exactValue?_eq_valueOrZero hexact)
    refine ⟨⟨ht.body, ht.readable, ht.key, Number.isExact_of_exactValue? hvalue⟩, ?_⟩
    rw [sumLabel_of_not_isConstant hc]
    exact congrArg (Prod.mk _) (Number.valueOrZero_eq hvalue)
  key_iff {t e k} ht he hk := by
    obtain ⟨⟨hn, hread⟩, hc⟩ := he
    obtain ⟨hread, -⟩ := isReadable_splitCoefficient hread
    rw [sumLabel_of_not_isConstant hc]
    simp only [LikeTerms.label, Option.some_inj, alikeClass_eq_iff]
    exact same_likeKey_iff ht.readable hread ht.key hk

/-! ### Sums -/

/-- Constants and terms amount to something apart from each other. -/
lemma amountAt_filterMap_rest (es : List Expr) (i : Option AlikeClass) :
    amountAt ((es.filterMap Chain.sum.rest?).map sumLabel) i =
      if i = none then 0 else amountAt (es.map sumLabel) i := by
  induction es with
  | nil => simp [amountAt]
  | cons e es ih =>
    by_cases hc : e.isConstant
    · obtain ⟨a, rfl⟩ := eq_const_of_isConstant hc
      rw [List.filterMap_cons, Chain.rest?, ih, List.map_cons, amountAt_cons]
      cases i <;> simp [sumLabel]
    · have hc := Bool.eq_false_iff.2 hc
      have hm : Chain.sum.moves e = false := by cases e <;> first | rfl | cases hc
      rw [List.filterMap_cons, Chain.rest?_of_not_moves hm, List.map_cons, List.map_cons,
        amountAt_cons, ih, amountAt_cons, sumLabel_of_not_isConstant hc]
      cases i <;> simp

lemma foldl_shiftValue_eq_amountAt (es : List Expr) (q : Rat) :
    (es.map Chain.sum.shiftValue).foldl Chain.sum.op q = q + amountAt (es.map sumLabel) none := by
  induction es generalizing q with
  | nil => simp [amountAt]
  | cons e es ih =>
    rw [List.map_cons, List.map_cons, List.foldl_cons, ih, amountAt_cons, ← add_assoc]
    cases e <;> rfl

/-- The constant of a sum is what its constants amount to. -/
lemma exactValue?_sum_constant (hes : ∀ e ∈ es, e.IsReducedForm) :
    (es.foldl Chain.sum.shift 0).exactValue? = some (amountAt (es.map sumLabel) none) := by
  have hvalue := Chain.exactValue?_foldl_shift (c := .sum) (k := 0) (q := 0)
    (fun a ha => (hes _ ha).readable) rfl
  rw [hvalue, foldl_shiftValue_eq_amountAt, zero_add]

/-- What is known of the terms that are put together to a sum of operands: `us` are the terms that
were collected, and `rs` what they became. -/
structure AreSumTerms (S : Expr → Expr → Prop) (es : List Expr) (us : List LikeTerms)
    (rs : List Expr) : Prop where
  keyed : ∀ t ∈ us, t.IsKeyed
  labels : AreLabels (us.map LikeTerms.label)
  amountAt_eq (i : Option AlikeClass) :
    amountAt (us.map LikeTerms.label) i = if i = none then 0 else amountAt (es.map sumLabel) i
  results : List.Forall₂ (TermResult S) us rs

lemma SumResult.exists_terms (h : SumResult S es r) (hes : ∀ e ∈ es, e.IsReducedForm) :
    ∃ us rs, AreSumTerms S es us rs ∧
      r = (rs.foldl (Gathered.add (· + ·)) ⟨es.foldl Chain.sum.shift 0, []⟩).toSum := by
  obtain ⟨hts, hrs⟩ := h
  have hrest : ∀ e ∈ es.filterMap Chain.sum.rest?, e.IsReducedForm ∧ e.isConstant = false :=
    fun e he => ⟨hes e (mem_of_mem_rest_sum he), not_isConstant_of_mem_rest he⟩
  obtain ⟨hkeyed, hnodup, hamount⟩ := termCollector_tallies.collect (by simp) hrest (by simp) hts
  refine ⟨_, _, ⟨fun t ht => hkeyed t (List.mem_of_mem_filter ht), ⟨?_, ?_⟩, fun i => ?_, hrs⟩, rfl⟩
  · exact hnodup.sublist ((List.filter_sublist.map _).map _)
  · intro p hp
    obtain ⟨t, ht, rfl⟩ := List.mem_map.1 hp
    obtain ⟨ht, hz⟩ := List.mem_filter.1 ht
    have hvalue := Number.exactValue?_eq_valueOrZero (hkeyed t ht).exact
    intro hzero
    simp [(Number.isZero_iff hvalue).2 hzero] at hz
  · rw [amountAt_filter, hamount, amountAt_filterMap_rest]
    · exact zero_add _
    · intro t ht hz
      have hvalue := Number.exactValue?_eq_valueOrZero (hkeyed t ht).exact
      exact (Number.isZero_iff hvalue).1 (by simpa using hz)

lemma TermResult.isReadable (h : TermResult S t r) (ht : t.IsKeyed)
    (hS : ∀ {x y}, S x y → y.IsReadable) : r.IsReadable := by
  unfold TermResult at h
  split at h
  · rw [h]
    exact ht.readable
  · exact hS h

/-- Like terms with the same label become terms that are alike. -/
lemma TermResult.alike (hS : Agree S S') (h : TermResult S t r) (h' : TermResult S' t' r')
    (ht : t.IsKeyed) (ht' : t'.IsKeyed) (heq : t.label = t'.label) : r.Alike r' := by
  obtain ⟨hterm, hcoefficient⟩ := Prod.mk.inj heq
  have hterm := alikeClass_eq_iff.1 (Option.some.inj hterm)
  have hvalue := Number.exactValue?_eq_valueOrZero ht.exact
  have hvalue' := Number.exactValue?_eq_valueOrZero ht'.exact
  rw [← hcoefficient] at hvalue'
  have hone : t.coefficient.isOne = t'.coefficient.isOne := by
    rw [Bool.eq_iff_iff, Number.isOne_iff hvalue, Number.isOne_iff hvalue']
  unfold TermResult at h h'
  rw [← hone] at h'
  split at h
  · next hc =>
    rw [if_pos hc] at h'
    rwa [h, h']
  · next hc =>
    rw [if_neg hc] at h'
    exact hS.alike h h' (.node .product (.const hvalue hvalue') hterm)

namespace AreSumTerms

lemma labelled (h : AreSumTerms S es us rs) :
    List.Forall₂ (fun r l => ∃ t : LikeTerms, t.IsKeyed ∧ TermResult S t r ∧ t.label = l) rs
      (us.map LikeTerms.label) := by
  have hboth := (List.forall₂_and_left _ _).2 ⟨h.keyed, h.results⟩
  exact List.forall₂_map_right_iff.2 (hboth.flip.imp fun r t ht => ⟨t, ht.1, ht.2, rfl⟩)

lemma isReadable (h : AreSumTerms S es us rs) (hS : ∀ {x y}, S x y → y.IsReadable) :
    ∀ e ∈ rs, e.IsReadable :=
  forall_mem_of_forall₂ ((List.forall₂_and_left _ _).2 ⟨h.keyed, h.results⟩) fun _ _ ht =>
    ht.2.isReadable ht.1 hS

end AreSumTerms

/-- Sums of operands that amount to the same are alike. -/
theorem SumResult.alike (hS : Agree S S') (h : SumResult S es r) (h' : SumResult S' es' r')
    (hes : ∀ e ∈ es, e.IsReducedForm) (hes' : ∀ e ∈ es', e.IsReducedForm)
    (heq : ∀ i, amountAt (es.map sumLabel) i = amountAt (es'.map sumLabel) i) : r.Alike r' := by
  obtain ⟨us, rs, hus, rfl⟩ := h.exists_terms hes
  obtain ⟨us', rs', hus', rfl⟩ := h'.exists_terms hes'
  have hperm : (us.map LikeTerms.label).Perm (us'.map LikeTerms.label) := by
    apply hus.labels.perm hus'.labels
    intro i
    rw [hus.amountAt_eq, hus'.amountAt_eq, heq]
  have hlists : AlikeLists rs rs' := by
    apply alikeLists_of_perm hus.labelled hus'.labelled hperm
    rintro u u' l ⟨t, ht, hu, rfl⟩ ⟨t', ht', hu', hl⟩
    exact hu.alike hS hu' ht ht' hl.symm
  have hconstant := exactValue?_sum_constant hes
  rw [heq none] at hconstant
  obtain ⟨k, hk, hvalue⟩ := Chain.exists_foldl_add (c := .sum) []
    (fun a ha => hus.isReadable hS.left _ ha) hconstant
  obtain ⟨k', hk', hvalue'⟩ := Chain.exists_foldl_add (c := .sum) []
    (fun a ha => hus'.isReadable hS.right _ ha) (exactValue?_sum_constant hes')
  rw [← Chain.foldl_constantValue_eq hlists] at hvalue'
  show (Gathered.toSum (rs.foldl (Gathered.add Chain.sum.combine) _)).Alike
    (Gathered.toSum (rs'.foldl (Gathered.add Chain.sum.combine) _))
  rw [hk, hk', List.nil_append, List.nil_append]
  exact toSum_alike hvalue hvalue' (hlists.filter fun _ _ he => by rw [he.isConstant_eq])

/-! ### What sums amount to -/

/-- Like terms become a term with their label, if they do not become a sum. -/
lemma TermResult.sumLabel_eq (hS : ∀ {x y}, S x y → simplify x = .ok y) (h : TermResult S t r)
    (ht : t.IsKeyed) (hz : t.coefficient.valueOrZero ≠ 0)
    (hsum : t.coefficient.valueOrZero = 1 → Chain.sum.operands t.term = [t.term]) :
    Chain.sum.operands r = [r] ∧ r.isConstant = false ∧ sumLabel r = t.label := by
  have hvalue := Number.exactValue?_eq_valueOrZero ht.exact
  unfold TermResult at h
  split at h
  · next hone =>
    have hone := (Number.isOne_iff hvalue).1 hone
    subst h
    refine ⟨hsum hone, ht.body.notConstant, ?_⟩
    rw [sumLabel_of_not_isConstant ht.body.notConstant, ht.body.split, LikeTerms.label, hone]
    rfl
  · next hone =>
    have hz : t.coefficient.isZero = false := by
      rw [Bool.eq_false_iff, Ne, Number.isZero_iff hvalue]
      exact hz
    rcases ht.body.simplify_mul ht.key ht.exact hz (by simpa using hone) with ⟨hneg, -, hr⟩ | hn
    · obtain rfl := Except.ok.inj (hr.symm.trans (hS h))
      have hminus := (Number.beq_iff hvalue (y := -1) rfl).1 hneg
      refine ⟨rfl, rfl, ?_⟩
      rw [LikeTerms.label, hminus]
      rfl
    · obtain rfl := Except.ok.inj ((simplify_of_normal hn).symm.trans (hS h))
      exact ⟨rfl, rfl, rfl⟩

/-- A sum that was put together from a constant and terms amounts to them. -/
lemma amountAt_operands_toSum (hk : k.exactValue? = some q)
    (hrs : ∀ e ∈ rs, Chain.sum.operands e = [e] ∧ e.isConstant = false) (i : Option AlikeClass) :
    amountAt ((Chain.sum.operands (Gathered.toSum ⟨k, rs⟩)).map sumLabel) i =
      (if i = none then q else 0) + amountAt (rs.map sumLabel) i := by
  have hconst : sumLabel (.const k) = (none, q) := congrArg (Prod.mk _) (Number.valueOrZero_eq hk)
  have hleaf := Chain.flatMap_operands fun e he => (hrs e he).1
  cases rs with
  | nil =>
    show amountAt [sumLabel (.const k)] i = _
    rw [amountAt_cons, hconst]
    simp only [eq_comm]
    rfl
  | cons e rs =>
    rw [toSum_cons]
    split
    · next hz =>
      rw [Chain.operands_build _ (by simp), hleaf, (Number.isZero_iff hk).1 hz, ite_self, zero_add]
    · rw [Chain.operands_build _ (by simp), List.flatMap_cons, hleaf, List.map_append,
        amountAt_append]
      show amountAt [sumLabel (.const k)] i + _ = _
      rw [amountAt_cons, hconst]
      simp only [eq_comm, amountAt, List.map_nil, List.sum_nil, add_zero]

/-- A sum amounts to what its operands do, unless one of its terms has become a sum. -/
theorem SumResult.amountAt_eq (hS : ∀ {x y}, S x y → simplify x = .ok y) (h : SumResult S es r)
    (hes : ∀ e ∈ es, e.IsReducedForm)
    (hsum : ∀ x : Expr, x.Normal → amountAt (es.map sumLabel) (some x.alikeClass) = 1 →
      Chain.sum.operands x = [x]) (i : Option AlikeClass) :
    amountAt ((Chain.sum.operands r).map sumLabel) i = amountAt (es.map sumLabel) i := by
  obtain ⟨us, rs, hus, rfl⟩ := h.exists_terms hes
  have hbecome : List.Forall₂ (fun t u => (Chain.sum.operands u = [u] ∧ u.isConstant = false) ∧
      sumLabel u = t.label) us rs := by
    refine ((List.forall₂_and_left us rs).2 ⟨fun t (ht : t ∈ us) => ht, hus.results⟩).imp ?_
    rintro t u ⟨ht, hu⟩
    have hlabel := List.mem_map_of_mem (f := LikeTerms.label) ht
    have hamount := amountAt_of_mem hus.labels.nodup hlabel
    rw [hus.amountAt_eq, if_neg (by simp)] at hamount
    obtain ⟨hops, hc, hu⟩ := hu.sumLabel_eq hS (hus.keyed t ht) (hus.labels.ne_zero _ hlabel)
      fun hone => hsum t.term (hus.keyed t ht).body.normal (hamount.trans hone)
    exact ⟨⟨hops, hc⟩, hu⟩
  have hrs : ∀ e ∈ rs, Chain.sum.operands e = [e] ∧ e.isConstant = false :=
    forall_mem_of_forall₂ hbecome fun _ _ h => h.1
  have hmap : rs.map sumLabel = us.map LikeTerms.label := by
    rw [← List.forall₂_eq_eq_eq, List.forall₂_map_left_iff, List.forall₂_map_right_iff]
    exact hbecome.flip.imp fun _ _ h => h.2
  rw [Gathered.foldl_add _ fun e he => (hrs e he).2]
  show amountAt ((Chain.sum.operands (Gathered.toSum ⟨_, rs⟩)).map sumLabel) i = _
  rw [amountAt_operands_toSum (exactValue?_sum_constant hes) hrs, hmap, hus.amountAt_eq]
  cases i <;> simp

end Simplify

end SymbolicAlgebra
