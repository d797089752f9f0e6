import SymbolicAlgebra.Proofs.WritingOrder.Sum

/-!
# Products of operands in any order

The factors of a product have labels: the class of the base, with the classes of its exponents
(`Simplify.productLabel`). The factors that are collected are those that the labels amount to. So
products of operands that are alike are alike, if the calls that put the factors together again
agree (`ProductResult.alike`).
-/

namespace SymbolicAlgebra

open SymbolicAlgebra.Expr Simplify

variable {S S' : Expr → Expr → Prop} {e e' r r' x : Expr} {es es' rs : List Expr}
variable {k k' : Number} {q : Rat} {f f' : LikeFactors} {fs : List LikeFactors} {i : AlikeClass}

/-! ### What is collected of operands that are alike -/

lemma Expr.Alike.map_rest?_eq (h : e.Alike e') :
    (Chain.product.rest? e).map alikeClass = (Chain.product.rest? e').map alikeClass := by
  induction h with
  | refl e => rfl
  | symm _ ih => exact ih.symm
  | trans _ _ ih ih' => exact ih.trans ih'
  | const => rfl
  | neg he => exact congrArg some (alikeClass_eq_iff.2 he)
  | comm c l r => cases c <;> exact congrArg some (alikeClass_eq_iff.2 (.comm _ l r))
  | assoc c e₁ e₂ e₃ => cases c <;> exact congrArg some (alikeClass_eq_iff.2 (.assoc _ e₁ e₂ e₃))
  | node c hl hr => cases c <;> exact congrArg some (alikeClass_eq_iff.2 (.node _ hl hr))
  | sub hl hr => exact congrArg some (alikeClass_eq_iff.2 (.sub hl hr))
  | div hn hd => exact congrArg some (alikeClass_eq_iff.2 (.div hn hd))
  | pow hb hp => exact congrArg some (alikeClass_eq_iff.2 (.pow hb hp))
  | log hb ha => exact congrArg some (alikeClass_eq_iff.2 (.log hb ha))

lemma AlikeLists.filterMap_rest (h : AlikeLists es es') :
    AlikeLists (es.filterMap Chain.product.rest?) (es'.filterMap Chain.product.rest?) := by
  have hmap (es : List Expr) : (es.filterMap Chain.product.rest?).map alikeClass =
      (es.map fun e => (Chain.product.rest? e).map alikeClass).filterMap id := by
    rw [List.map_filterMap, List.filterMap_map]
    rfl
  rw [alikeLists_iff, hmap, hmap]
  exact (h.map_perm fun _ _ _ _ he => he.map_rest?_eq).filterMap id

namespace Simplify

/-! ### Labels of factors -/

/-- The class of the base of a factor, with that of its exponent. -/
def productLabel (e : Expr) : AlikeClass × Multiset AlikeClass :=
  ((splitExponent e).1.alikeClass, {(splitExponent e).2.alikeClass})

/-- The class of the base of like factors, with those of their exponents. -/
def LikeFactors.label (f : LikeFactors) : AlikeClass × Multiset AlikeClass :=
  (f.base.alikeClass, (f.exponents.map alikeClass : List AlikeClass))

lemma productLabel_of_split (h : splitExponent e = (e, .const 1)) :
    productLabel e = (e.alikeClass, {(Expr.const 1).alikeClass}) := by
  rw [productLabel, h]

/-- Factors that are alike have the same label. -/
lemma productLabel_eq_of_alike (h : e.Alike e') : productLabel e = productLabel e' := by
  by_cases hpow : ∃ b p, e = .pow b p
  · obtain ⟨b, p, rfl⟩ := hpow
    obtain ⟨b', p', rfl, hb, hp⟩ := h.eq_pow
    simp only [productLabel, splitExponent, alikeClass_eq_iff.2 hb, alikeClass_eq_iff.2 hp]
  · have hpow' : ¬∃ b p, e' = .pow b p := by
      rintro ⟨b, p, rfl⟩
      obtain ⟨b', p', rfl, -⟩ := h.symm.eq_pow
      exact hpow ⟨b', p', rfl⟩
    have hsplit {x : Expr} (hx : ¬∃ b p, x = .pow b p) : splitExponent x = (x, .const 1) := by
      cases x with
      | pow b p => exact absurd ⟨b, p, rfl⟩ hx
      | _ => rfl
    rw [productLabel_of_split (hsplit hpow), productLabel_of_split (hsplit hpow'),
      alikeClass_eq_iff.2 h]

/-! ### Collected factors -/

/-- Like factors with their key. -/
structure LikeFactors.IsKeyed (f : LikeFactors) : Prop where
  base : f.base.IsReadable
  key : f.base.likeKey = .ok f.key
  exponents : ∀ p ∈ f.exponents, p.IsReadable
  nonempty : f.exponents ≠ []

lemma isReadable_splitExponent (h : e.IsReadable) :
    (splitExponent e).1.IsReadable ∧ (splitExponent e).2.IsReadable := by
  unfold splitExponent
  split
  · exact h
  · exact ⟨h, rfl⟩

lemma factorCollector_tallies :
    factorCollector.Tallies LikeFactors.IsKeyed IsReadable LikeFactors.label productLabel where
  start {e k} he hk := by
    obtain ⟨hb, hp⟩ := isReadable_splitExponent he
    exact ⟨⟨hb, hk, List.forall_mem_singleton.2 hp, List.cons_ne_nil _ _⟩, rfl⟩
  push {f e k} hf he _ _ := by
    obtain ⟨-, hp⟩ := isReadable_splitExponent he
    refine ⟨⟨hf.base, hf.key, ?_, by simp [factorCollector]⟩, ?_⟩
    · exact List.forall_mem_append.2 ⟨hf.exponents, List.forall_mem_singleton.2 hp⟩
    · simp only [LikeFactors.label, productLabel, factorCollector, List.map_append,
        ← Multiset.coe_add]
      rfl
  key_iff {f e k} hf he hk := by
    simp only [LikeFactors.label, productLabel, alikeClass_eq_iff]
    exact same_likeKey_iff hf.base (isReadable_splitExponent he).1 hf.key hk

/-- What is known of the factors that are put together to a product of operands: `fs` are the
factors that were collected, and `rs` what they became. -/
structure AreProductFactors (S : Expr → Expr → Prop) (es : List Expr) (fs : List LikeFactors)
    (rs : List Expr) : Prop where
  keyed : ∀ f ∈ fs, f.IsKeyed
  labels : AreLabels (fs.map LikeFactors.label)
  amountAt_eq (i : AlikeClass) : amountAt (fs.map LikeFactors.label) i =
    amountAt ((es.filterMap Chain.product.rest?).map productLabel) i
  results : List.Forall₂ (FactorResult S) fs rs

lemma isReadable_of_mem_rest (hes : ∀ e ∈ es, e.IsReadable) :
    ∀ e ∈ es.filterMap Chain.product.rest?, e.IsReadable := by
  intro e he
  obtain ⟨x, hx, hrest⟩ := List.mem_filterMap.1 he
  have hread := hes x hx
  cases x with
  | const c => cases hrest
  | _ =>
    cases hrest
    exact hread

lemma areProductFactors (hes : ∀ e ∈ es, e.IsReadable)
    (hfs : factorCollector.collect (es.filterMap Chain.product.rest?) [] = .ok fs)
    (hrs : List.Forall₂ (FactorResult S) fs rs) : AreProductFactors S es fs rs := by
  obtain ⟨hkeyed, hnodup, hamount⟩ :=
    factorCollector_tallies.collect (by simp) (isReadable_of_mem_rest hes) (by simp) hfs
  refine ⟨hkeyed, ⟨hnodup, fun p hp => ?_⟩, fun i => ?_, hrs⟩
  · obtain ⟨f, hf, rfl⟩ := List.mem_map.1 hp
    simpa [LikeFactors.label] using (hkeyed f hf).nonempty
  · rw [hamount]
    exact zero_add _

lemma FactorResult.isReadable (h : FactorResult S f r) (hf : f.IsKeyed)
    (hS : ∀ {x y}, S x y → y.IsReadable) : r.IsReadable := by
  unfold FactorResult at h
  split at h
  · next p hp =>
    subst h
    split
    · exact hf.base
    · exact ⟨hf.base, hf.exponents p (by simp [hp])⟩
  · exact hS h

/-- An exponent is the number one if those that are alike to it are. -/
lemma beq_one_eq_of_alike (h : e.Alike e') (he : e.IsReadable) (he' : e'.IsReadable) :
    (e == .const 1) = (e' == .const 1) := by
  have hone (e : Expr) (he : e.IsReadable) : (e == .const 1) = true ↔ e.Alike (.const 1) := by
    refine ⟨alike_of_same he.isExact rfl, fun h => ?_⟩
    obtain ⟨a, rfl, ha⟩ := h.symm.eq_const
    exact (Number.same_iff ha (y := 1) rfl).2 rfl
  rw [Bool.eq_iff_iff, hone e he, hone e' he']
  exact ⟨h.symm.trans, h.trans⟩

/-- Like factors with the same label become factors that are alike. -/
lemma FactorResult.alike (hS : Agree S S') (h : FactorResult S f r) (h' : FactorResult S' f' r')
    (hf : f.IsKeyed) (hf' : f'.IsKeyed) (heq : f.label = f'.label) : r.Alike r' := by
  obtain ⟨hbase, hexponents⟩ := Prod.mk.inj heq
  have hbase := alikeClass_eq_iff.1 hbase
  have hexponents : AlikeLists f.exponents f'.exponents :=
    alikeLists_iff.2 (Multiset.coe_eq_coe.1 hexponents)
  have hlen := hexponents.length_eq
  unfold FactorResult at h h'
  split at h
  · next p hp =>
    rw [hp] at hlen hexponents
    obtain ⟨p', hp'⟩ := List.length_eq_one_iff.1 hlen.symm
    have hread := hf.exponents p (by simp [hp])
    have hread' := hf'.exponents p' (by simp [hp'])
    rw [hp'] at hexponents h'
    have hp := hexponents.alike_of_singleton
    have h' : r' = if p' == .const 1 then f'.base else .pow f'.base p' := h'
    rw [h, h', beq_one_eq_of_alike hp hread hread']
    split
    · exact hbase
    · exact .pow hbase hp
  · next hsingle =>
    split at h'
    · next p' hp' =>
      obtain ⟨p, hp⟩ := List.length_eq_one_iff.1 (hlen.trans (by rw [hp']; rfl))
      exact absurd hp (hsingle p)
    · exact hS.alike h h' (.pow hbase hexponents.build)

namespace AreProductFactors

lemma labelled (h : AreProductFactors S es fs rs) :
    List.Forall₂ (fun r l => ∃ f : LikeFactors, f.IsKeyed ∧ FactorResult S f r ∧ f.label = l) rs
      (fs.map LikeFactors.label) := by
  have hboth := (List.forall₂_and_left _ _).2 ⟨h.keyed, h.results⟩
  exact List.forall₂_map_right_iff.2 (hboth.flip.imp fun r f hf => ⟨f, hf.1, hf.2, rfl⟩)

lemma isReadable (h : AreProductFactors S es fs rs) (hS : ∀ {x y}, S x y → y.IsReadable) :
    ∀ e ∈ rs, e.IsReadable :=
  forall_mem_of_forall₂ ((List.forall₂_and_left _ _).2 ⟨h.keyed, h.results⟩) fun _ _ hf =>
    hf.2.isReadable hf.1 hS

/-- The factors of operands that are alike become factors that are alike. -/
lemma alikeLists {fs' : List LikeFactors} {rs' : List Expr} (h : AreProductFactors S es fs rs)
    (h' : AreProductFactors S' es' fs' rs') (hS : Agree S S') (halike : AlikeLists es es') :
    AlikeLists rs rs' := by
  have hperm : (fs.map LikeFactors.label).Perm (fs'.map LikeFactors.label) := by
    apply h.labels.perm h'.labels
    intro i
    rw [h.amountAt_eq, h'.amountAt_eq]
    exact amountAt_of_perm
      (halike.filterMap_rest.map_perm fun _ _ _ _ => productLabel_eq_of_alike) i
  apply alikeLists_of_perm h.labelled h'.labelled hperm
  rintro r r' l ⟨f, hf, hr, rfl⟩ ⟨f', hf', hr', hl⟩
  exact hr.alike hS hr' hf hf' hl.symm

end AreProductFactors

/-! ### Products -/

lemma exists_zero_of_alikeLists (h : AlikeLists es es') (hes : ∀ e ∈ es, e.IsReadable)
    (hmem : .const k ∈ es) (hz : k.isZero) : ∃ k', .const k' ∈ es' ∧ k'.isZero := by
  obtain ⟨x, hx, halike⟩ := h.exists_of_mem hmem
  obtain ⟨k', rfl, hk'⟩ := halike.eq_const
  have hvalue := Number.exactValue?_eq_valueOrZero (hes _ hmem)
  exact ⟨k', hx, (Number.isZero_iff (hk'.trans hvalue)).2 ((Number.isZero_iff hvalue).1 hz)⟩

/-- Products of operands that are alike are alike. -/
theorem ProductResult.alike (hS : Agree S S') (h : ProductResult S es r)
    (h' : ProductResult S' es' r')
    (hes : ∀ e ∈ es, e.IsReadable) (hes' : ∀ e ∈ es', e.IsReadable) (halike : AlikeLists es es') :
    r.Alike r' := by
  cases h with
  | zero hmem hz =>
    cases h' with
    | zero hmem' hz' =>
      have hvalue := Number.exactValue?_eq_valueOrZero (hes _ hmem)
      have hvalue' := Number.exactValue?_eq_valueOrZero (hes' _ hmem')
      rw [(Number.isZero_iff hvalue).1 hz] at hvalue
      rw [(Number.isZero_iff hvalue').1 hz'] at hvalue'
      exact .const hvalue hvalue'
    | collected hnone =>
      obtain ⟨k, hk, hz'⟩ := exists_zero_of_alikeLists halike hes hmem hz
      exact absurd hz' (by simp [hnone k hk])
  | collected hnone hfs hrs =>
    cases h' with
    | zero hmem' hz' =>
      obtain ⟨k, hk, hz⟩ := exists_zero_of_alikeLists halike.symm hes' hmem' hz'
      exact absurd hz (by simp [hnone k hk])
    | collected _ hfs' hrs' =>
      have hfactors := areProductFactors hes hfs hrs
      have hfactors' := areProductFactors hes' hfs' hrs'
      have hlists := hfactors.alikeLists hfactors' hS halike
      have hconstant :=
        Chain.exactValue?_foldl_shift (c := .product) (k := 1) (fun a ha => hes _ ha) rfl
      have hconstant' :=
        Chain.exactValue?_foldl_shift (c := .product) (k := 1) (fun a ha => hes' _ ha) rfl
      rw [← Chain.foldl_shiftValue_eq halike] at hconstant'
      obtain ⟨k, hk, hvalue⟩ := Chain.exists_foldl_add (c := .product) []
        (fun a ha => hfactors.isReadable hS.left _ ha) hconstant
      obtain ⟨k', hk', hvalue'⟩ := Chain.exists_foldl_add (c := .product) []
        (fun a ha => hfactors'.isReadable hS.right _ ha) hconstant'
      rw [← Chain.foldl_constantValue_eq hlists] at hvalue'
      show (Gathered.toProduct (List.foldl (Gathered.add Chain.product.combine) _ _)).Alike
        (Gathered.toProduct (List.foldl (Gathered.add Chain.product.combine) _ _))
      rw [hk, hk', List.nil_append, List.nil_append]
      exact toProduct_alike hvalue hvalue' (hlists.filter fun _ _ he => by rw [he.isConstant_eq])

end Simplify

end SymbolicAlgebra
