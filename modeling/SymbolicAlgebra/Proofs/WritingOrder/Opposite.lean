import SymbolicAlgebra.Proofs.WritingOrder.Steady

/-!
# Opposites of reduced forms

A minus sign before a product becomes a part of its number, or a number of its own if there is none
and all factors take signs (`simplify_neg_const_mul`, `simplify_neg_mul`). The opposite of a sum is
simplified by way of the opposites of its two parts; it amounts to what the opposites of its
operands do (`hasOpposites`), where each of these is one operand again. So the opposites of reduced
forms that are alike are alike (`OppositeResult.alike`).
-/

namespace SymbolicAlgebra.Simplify

open SymbolicAlgebra.Expr

variable {c : Number} {a b e l m r t u x y : Expr} {es ts us : List Expr} {n : Nat}

/-! ### Products -/

/-- A product of factors that have been collected alone. -/
lemma product_of_areFactors {fs : List Expr} {k : Number} (h : AreFactors fs)
    (hrest : es.filterMap Chain.product.rest? = fs) (hfold : es.foldl Chain.product.shift 1 = k)
    (hz : ∀ c, .const c ∈ es → c.isZero = false) (hk : k.isExact) :
    Rules.product es = .ok (Gathered.toProduct ⟨k, fs⟩) := by
  subst hrest hfold
  rw [product_of_unlike hz h.unlike
    (fun e he => isPlainFactor_of_normal (h.normal e he) (h.moves e he)) h.short,
    Gathered.refuseLong, Number.refuseLong_of_isExact hk, ite_self]
  rfl

/-- The operands of a product in normal form are its first factor and those of the rest. -/
lemma operands_of_normal_mul (h : (Expr.mul l r).Normal) :
    Chain.product.operands (.mul l r) = l :: Chain.product.operands r := by
  obtain ⟨-, -, hops, -⟩ := h
  rw [Chain.operands_product_mul, hops]
  rfl

lemma operands_of_normal (h : e.Normal) (c : Chain) : Rules.operands c e = .ok (c.operands e) :=
  operands_of_fixed fun x hx =>
    ⟨simplify_of_normal ((h.operands c).1 x hx).1, ((h.operands c).1 x hx).2⟩

/-- The factors of a product in normal form, without a number at its front. -/
lemma areFactors_tail (h : (Expr.mul l r).Normal) : AreFactors (Chain.product.operands r) := by
  obtain ⟨-, hr, -, hchain⟩ := h
  obtain ⟨x, xs, hxs⟩ := List.exists_cons_of_ne_nil (Chain.product.operands_ne_nil r)
  have htail := hchain.tail
  rw [hxs] at hchain htail ⊢
  exact areFactors_of_isNormalProduct hchain.of_cons (hxs ▸ (hr.operands .product).1) htail

/-- A product with the opposite of its first factor, if this is no number and all factors take
signs. -/
lemma simplify_neg_mul (h : (Expr.mul l r).Normal)
    (hsign : ∀ f ∈ Chain.product.operands (.mul l r), takesSign f) :
    simplify (.mul (.neg l) r) = .ok (.mul (.const (.integer (-1))) (.mul l r)) := by
  have hops := operands_of_normal_mul h
  have hconst : ∀ f ∈ Chain.product.operands (.mul l r), f.isConstant = false := by
    intro f hf
    have hf := hsign f hf
    cases f <;> first | rfl | cases hf
  have hfactors : AreFactors (Chain.product.operands (.mul l r)) :=
    areFactors_of_isNormalProduct (Normal.isNormalChain (c := .product) h)
      (h.operands .product).1 hconst
  have hneg : (Expr.neg l).Normal := ⟨hsign l (by simp [hops]), h.1⟩
  have hoperands :
      Rules.operands .product (.mul (.neg l) r) = .ok (.neg l :: Chain.product.operands r) := by
    show Rules.operands .product (Chain.product.node (.neg l) r) = _
    rw [Rules.operands_node, operands_of_normal hneg, operands_of_normal h.2.1]
    rfl
  have hmoves := (areFactors_tail h).moves
  have hrest : (Expr.neg l :: Chain.product.operands r).filterMap Chain.product.rest? =
      Chain.product.operands (.mul l r) := by
    rw [hops, List.filterMap_cons, Chain.filterMap_rest?_of_not_moves hmoves]
    rfl
  have hfold : (Expr.neg l :: Chain.product.operands r).foldl Chain.product.shift 1 =
      .integer (-1) := by
    rw [List.foldl_cons, Chain.foldl_shift_of_not_moves hmoves]
    rfl
  have hz : ∀ c, .const c ∈ Expr.neg l :: Chain.product.operands r → c.isZero = false := by
    intro c hc
    rcases List.mem_cons.1 hc with hc | hc
    · cases hc
    · cases hmoves _ hc
  rw [simplify_mul, hoperands]
  show Rules.product _ = _
  rw [product_of_areFactors hfactors hrest hfold hz rfl]
  -- there is a second factor, so the sign cannot stand before the only one
  have hbuild := (h.operands .product).2
  obtain ⟨x, xs, hxs⟩ := List.exists_cons_of_ne_nil (Chain.product.operands_ne_nil r)
  rw [hops, hxs] at hbuild ⊢
  rw [← hbuild]
  rfl

lemma toProduct_of_value_one {k : Number} (hk : k.exactValue? = some 1) (hne : es ≠ []) :
    Gathered.toProduct ⟨k, es⟩ = Chain.product.build es := by
  have hz : k.isZero = false := by
    rw [Bool.eq_false_iff, Ne, Number.isZero_iff hk]
    exact one_ne_zero
  have hminus : (k == .integer (-1)) = false := by
    rw [Bool.eq_false_iff, Ne, Number.beq_iff hk (y := -1) rfl]
    norm_num
  have hone : k.isOne := (Number.isOne_iff hk).2 rfl
  match es with
  | e :: es => simp [Gathered.toProduct, hz, hminus, hone]

/-- A product with the opposite of its number. -/
lemma simplify_neg_const_mul (h : (Expr.mul (.const c) r).Normal) (hc : c.isExact) :
    simplify (.mul (.neg (.const c)) r) =
      .ok (if c == .integer (-1) then r else .mul (.const (-c)) r) := by
  have hfactors := areFactors_tail h
  obtain ⟨-, hr, -, hchain⟩ := h
  obtain ⟨hz, hone, -, -⟩ := hchain.head c _ rfl
  obtain ⟨-, hbuild⟩ := hr.operands .product
  have hne := Chain.product.operands_ne_nil r
  have hvalue := Number.exactValue?_eq_valueOrZero hc
  have hvalue' := Number.exactValue?_neg hvalue
  have hexact' := Number.isExact_of_exactValue? hvalue'
  have hz' : (-c).isZero = false := by
    rw [Bool.eq_false_iff, Ne, Number.isZero_iff hvalue] at hz
    rw [Bool.eq_false_iff, Ne, Number.isZero_iff hvalue', neg_eq_zero]
    exact hz
  have hoperands : Rules.operands .product (.mul (.neg (.const c)) r) =
      .ok (.const (-c) :: Chain.product.operands r) := by
    show Rules.operands .product (Chain.product.node (.neg (.const c)) r) = _
    rw [Rules.operands_node, Rules.operands_leaf rfl, simplify_neg, simplify_const,
      operands_of_normal hr]
    rfl
  rw [simplify_mul, hoperands]
  show Rules.product (.const (-c) :: Chain.product.operands r) = _
  split
  · next hminus =>
    -- the number is one now, and is left out
    rw [(Number.beq_iff hvalue (y := -1) rfl).1 hminus, neg_neg] at hvalue'
    have hone' :
        ((.const (-c) :: Chain.product.operands r).foldl Chain.product.shift 1).exactValue? =
          some 1 := by
      rw [List.foldl_cons, Chain.foldl_shift_of_not_moves hfactors.moves]
      exact (Number.exactValue?_mul (a := 1) (x := 1) rfl hvalue').trans (by rw [one_mul])
    have hrest : (.const (-c) :: Chain.product.operands r).filterMap Chain.product.rest? =
        Chain.product.operands r := Chain.filterMap_rest?_of_not_moves hfactors.moves
    have hnone : ∀ d, .const d ∈ .const (-c) :: Chain.product.operands r → d.isZero = false := by
      intro d hd
      rcases List.mem_cons.1 hd with hd | hd
      · cases hd
        exact hz'
      · cases hfactors.moves _ hd
    rw [product_of_areFactors hfactors hrest rfl hnone (Number.isExact_of_exactValue? hone'),
      toProduct_of_value_one hone' hne, hbuild]
  · next hminus =>
    have hone' : (-c).isOne = false := by
      rw [Number.beq_iff hvalue (y := -1) rfl] at hminus
      rw [Bool.eq_false_iff, Ne, Number.isOne_iff hvalue', neg_eq_iff_eq_neg]
      exact hminus
    have hnormal : IsNormalProduct (.const (-c) :: Chain.product.operands r) := by
      refine hfactors.isNormalProduct_const hz' hone' (Number.rounded_of_isExact hexact')
        (Number.refuseLong_of_isExact hexact') fun e _ hneg => ?_
      -- the number was not one
      rw [Bool.eq_false_iff, Ne, Number.isOne_iff hvalue] at hone
      exact absurd (neg_inj.1 ((Number.beq_iff hvalue' (y := -1) rfl).1 hneg)) hone
    have hoperands : ∀ e ∈ .const (-c) :: Chain.product.operands r, e.NormalOperand .product :=
      List.forall_mem_cons.2 ⟨⟨trivial, rfl⟩, (hr.operands .product).1⟩
    have hlen : 2 ≤ (.const (-c) :: Chain.product.operands r).length := by
      have hpos := List.length_pos_iff.2 hne
      rw [List.length_cons]
      omega
    rw [product_of_normal hnormal hlen hoperands]
    obtain ⟨x, xs, hxs⟩ := List.exists_cons_of_ne_nil hne
    rw [hxs] at hbuild ⊢
    rw [← hbuild]
    rfl

/-! ### Labels of opposites -/

/-- Where an operand or its opposite has the class `i`, both have it, with opposite coefficients.
That of the operand is not minus one. -/
def AreOpposite (i : Option AlikeClass) (t u : Expr) : Prop :=
  (sumLabel t).1 = i ∨ (sumLabel u).1 = i →
    (sumLabel t).1 = (sumLabel u).1 ∧ (sumLabel u).2 = -(sumLabel t).2 ∧ (sumLabel t).2 ≠ -1

lemma operands_of_not_add (h : ∀ x y, e ≠ .add x y) : Chain.sum.operands e = [e] := by
  cases e <;> first | rfl | exact absurd rfl (h _ _)

lemma sumLabel_ne_of_not_add (h : ∀ x y, (splitCoefficient e).1 ≠ .add x y) (x y : Expr) :
    (sumLabel e).1 ≠ some (Expr.add x y).alikeClass := by
  by_cases hc : e.isConstant
  · obtain ⟨a, rfl⟩ := eq_const_of_isConstant hc
    exact Option.some_ne_none _ ∘ Eq.symm
  · rw [sumLabel_of_not_isConstant (by simpa using hc)]
    intro heq
    obtain ⟨x', y', heq⟩ := (alikeClass_eq_iff.1 (Option.some_inj.1 heq)).symm.eq_node (c := .sum)
    exact h x' y' heq

lemma not_add_of_isSumMultiple (h : isSumMultiple e = false) (x y : Expr) :
    (splitCoefficient e).1 ≠ .add x y := by
  intro heq
  rw [isSumMultiple, heq] at h
  cases h

lemma areOpposite_of_not_add (ht : ∀ x y, (splitCoefficient t).1 ≠ .add x y)
    (hu : ∀ x y, (splitCoefficient u).1 ≠ .add x y) (x y : Expr) :
    AreOpposite (some (Expr.add x y).alikeClass) t u :=
  fun h => (h.elim (sumLabel_ne_of_not_add ht x y) (sumLabel_ne_of_not_add hu x y)).elim

lemma not_add_of_takesSign (h : takesSign e) (x y : Expr) : e ≠ .add x y := by
  rintro rfl
  cases h

/-- A product that places its sign has only factors that take signs, if it has no number. -/
lemma takesSign_of_placesSign (hn : (Expr.mul l r).Normal) (hplaces : placesSign (.mul l r))
    (hc : l.isConstant = false) : ∀ f ∈ Chain.product.operands (.mul l r), takesSign f := by
  rw [placesSign, hc, Bool.false_and, Bool.false_or, List.all_eq_true] at hplaces
  intro f hf
  have hconst : f.isConstant = false := by
    rw [operands_of_normal_mul hn] at hf
    rcases List.mem_cons.1 hf with rfl | hf
    · exact hc
    · exact hn.2.2.2.tail f hf
  simpa [hconst] using hplaces f hf

/-- The opposite of a product. -/
lemma opposite_of_product (ht : (Expr.mul l r).IsReducedForm) (hplaces : placesSign (.mul l r))
    (h : simplify (.mul (.neg l) r) = .ok u) :
    Chain.sum.operands u = [u] ∧
      ∀ x y, AreOpposite (some (Expr.add x y).alikeClass) (.mul l r) u := by
  obtain ⟨hn, hread⟩ := ht
  by_cases hc : l.isConstant
  · obtain ⟨c, rfl⟩ := eq_const_of_isConstant hc
    rw [placesSign, Bool.or_eq_true, List.all_eq_true] at hplaces
    have hvalue := Number.exactValue?_eq_valueOrZero hread.1
    rw [simplify_neg_const_mul hn hread.1] at h
    obtain rfl := Except.ok.inj h
    split
    · next hminus =>
      -- without its number the product has only factors that take signs
      have hsame : (Expr.const c == .const (.integer (-1))) = true := by
        rw [Number.beq_iff hvalue (y := -1) rfl] at hminus
        exact (Number.same_iff hvalue (y := -1) rfl).2 hminus
      have hr : ∀ x y, r ≠ .add x y := by
        rintro x y rfl
        have hall :=
          (hplaces.resolve_left (by rw [hsame]; simp)) (.add x y) (by simp [Chain.operands])
        cases hall
      have hbody := isTermBody_splitCoefficient hn rfl
      refine ⟨operands_of_not_add hr, areOpposite_of_not_add hr ?_⟩
      have hsplit : splitCoefficient r = (r, 1) := hbody.split
      rw [hsplit]
      exact hr
    · next hminus =>
      have hneg := Number.valueOrZero_eq (Number.exactValue?_neg hvalue)
      refine ⟨rfl, fun x y _ => ⟨rfl, hneg, fun heq => hminus ?_⟩⟩
      exact (Number.beq_iff hvalue (y := -1) rfl).2 heq
  · have hsign := takesSign_of_placesSign hn hplaces (by simpa using hc)
    rw [simplify_neg_mul hn hsign] at h
    obtain rfl := Except.ok.inj h
    have hsplit : splitCoefficient (.mul l r) = (.mul l r, 1) := by
      rcases splitCoefficient_of_normal hn with hsplit | ⟨c, m, heq⟩ | ⟨x, heq⟩
      · exact hsplit
      · obtain ⟨rfl, -⟩ := Expr.mul.inj heq
        exact absurd rfl hc
      · cases heq
    exact ⟨rfl, areOpposite_of_not_add (by simp [hsplit]) (by simp [splitCoefficient])⟩

/-- The opposite of an operand of a sum is one again, if its sign has one place. -/
lemma opposite_of_placesSign {S : Expr → Expr → Prop} (hS : ∀ {x y}, S x y → simplify x = .ok y)
    (ht : t.IsReducedForm) (hops : Chain.sum.operands t = [t]) (hplaces : placesSign t)
    (h : OppositeResult S t u) :
    Chain.sum.operands u = [u] ∧ ∀ x y, AreOpposite (some (Expr.add x y).alikeClass) t u := by
  obtain ⟨hn, hread⟩ := ht
  cases h with
  | const c =>
    exact ⟨rfl, areOpposite_of_not_add (by simp [splitCoefficient]) (by simp [splitCoefficient])⟩
  | add => exact absurd hops (Chain.sum.operands_node_ne _ _ _)
  | sub => exact hn.elim
  | other => exact hn.elim
  | neg =>
    have hsign := not_add_of_takesSign hn.1
    refine ⟨operands_of_not_add hsign, areOpposite_of_not_add hsign ?_⟩
    rw [(isTermBody_of_takesSign hn.2 hn.1).split]
    exact hsign
  | sign hsign =>
    refine ⟨rfl, areOpposite_of_not_add ?_ (not_add_of_takesSign hsign)⟩
    rw [(isTermBody_of_takesSign hn hsign).split]
    exact not_add_of_takesSign hsign
  | @div n d _ h =>
    have h := hS h
    rw [simplify_div] at h
    obtain ⟨x, -, h⟩ := bind_eq_ok_iff.1 h
    obtain ⟨y, -, h⟩ := bind_eq_ok_iff.1 h
    have hu : ∀ x y, u ≠ .add x y ∧ (splitCoefficient u).1 ≠ .add x y := by
      unfold quotient at h
      split at h
      · obtain ⟨c, -, h⟩ := bind_eq_ok_iff.1 h
        obtain rfl := pure_eq_ok_iff.1 h
        simp [splitCoefficient]
      · obtain rfl := Except.ok.inj h
        simp [splitCoefficient]
    exact ⟨operands_of_not_add fun x y => (hu x y).1,
      areOpposite_of_not_add (by simp [splitCoefficient]) fun x y => (hu x y).2⟩
  | mul h => exact opposite_of_product ⟨hn, hread⟩ hplaces (hS h)

/-! ### Sums -/

lemma amountAt_opposites {i : Option AlikeClass} (h : List.Forall₂ (AreOpposite i) ts us) :
    amountAt (us.map sumLabel) i = -amountAt (ts.map sumLabel) i := by
  induction h with
  | nil => rfl
  | @cons t u ts us htu _ ih =>
    rw [List.map_cons, List.map_cons, amountAt_cons, amountAt_cons, ih, neg_add]
    by_cases ht : (sumLabel t).1 = i
    · obtain ⟨hkey, hvalue, -⟩ := htu (.inl ht)
      rw [if_pos ht, if_pos (hkey ▸ ht), hvalue]
    · have hu : ¬(sumLabel u).1 = i := fun hu => ht ((htu (.inr hu)).1.trans hu)
      rw [if_neg ht, if_neg hu, neg_zero]

/-- The terms of a reduced form are unlike each other. -/
lemma nodup_sumLabel (h : e.IsReducedForm) :
    ((((Chain.sum.operands e).filterMap Chain.sum.rest?).map sumLabel).map Prod.fst).Nodup := by
  have hread := (isReadable_iff_operands .sum).1 h.readable
  cases e using Chain.induct .sum with
  | leaf e hops =>
    rw [hops]
    cases e <;> first | exact List.nodup_nil | exact List.nodup_singleton _
  | node l r =>
    have hchain := Normal.isNormalChain (c := .sum) h.normal
    rw [Chain.filterMap_rest?_eq_filter (isConstant_of_moves hchain), List.map_map]
    refine List.pairwise_map.2 ((IsNormalSum.unlike hchain).distinct.imp_of_mem ?_)
    intro x y hx hy hdiff heq
    obtain ⟨hx', hcx⟩ := List.mem_filter.1 hx
    obtain ⟨hy', hcy⟩ := List.mem_filter.1 hy
    obtain ⟨k, hk⟩ := (IsNormalSum.unlike hchain).known x hx
    obtain ⟨k', hk'⟩ := (IsNormalSum.unlike hchain).known y hy
    simp only [Function.comp_apply, sumLabel_of_not_isConstant (e := x) (by simpa using hcx),
      sumLabel_of_not_isConstant (e := y) (by simpa using hcy), Option.some_inj,
      alikeClass_eq_iff] at heq
    have hsame := (same_likeKey_iff (isReadable_splitCoefficient (hread x hx')).1
      (isReadable_splitCoefficient (hread y hy')).1 hk hk').2 heq
    exact Bool.false_ne_true ((hdiff k k' hk hk').symm.trans hsame)

/-- What the terms of a reduced form amount to in one class is the coefficient of one of them, or
zero. -/
lemma amountAt_ne_neg_one {i : AlikeClass} (h : e.IsReducedForm)
    (hterms : ∀ t ∈ Chain.sum.operands e, (sumLabel t).1 = some i → (sumLabel t).2 ≠ -1) :
    amountAt ((Chain.sum.operands e).map sumLabel) (some i) ≠ -1 := by
  have hrest := amountAt_filterMap_rest (Chain.sum.operands e) (some i)
  rw [if_neg (by simp)] at hrest
  rw [← hrest]
  by_cases hmem :
    some i ∈ (((Chain.sum.operands e).filterMap Chain.sum.rest?).map sumLabel).map Prod.fst
  · obtain ⟨⟨j, q⟩, hq, rfl⟩ := List.mem_map.1 hmem
    rw [amountAt_of_mem (nodup_sumLabel h) hq]
    obtain ⟨t, ht, hlabel⟩ := List.mem_map.1 hq
    have hne := hterms t (mem_of_mem_rest_sum ht)
    rw [hlabel] at hne
    exact hne rfl
  · rw [amountAt_of_notMem hmem]
    norm_num

/-- The opposites of the operands of a reduced form. -/
structure AreOpposites (a : Expr) (n : Nat) (ts us : List Expr) : Prop where
  calls : List.Forall₂ (fun t u => SteadyCalls a n (.neg t) u) ts us
  opposite (x y : Expr) : List.Forall₂ (AreOpposite (some (Expr.add x y).alikeClass)) ts us

/-- A sum of opposites amounts to what the opposites of the operands do, since no term of it becomes
a sum. -/
lemma amountAt_sum_of_opposites (hx : x.IsReducedForm)
    (h : AreOpposites a n (Chain.sum.operands x) us) (hes : ∀ e ∈ es, e.IsReducedForm)
    (heq : ∀ i, amountAt (es.map sumLabel) i = amountAt (us.map sumLabel) i)
    (hr : SumResult (SteadyCalls a n) es r) (i : Option AlikeClass) :
    amountAt ((Chain.sum.operands r).map sumLabel) i = amountAt (us.map sumLabel) i := by
  rw [hr.amountAt_eq (fun h => h.simplified) hes, heq]
  intro y _ hone
  by_contra hops
  obtain ⟨l, m, rfl⟩ : ∃ l m, y = .add l m := by
    by_contra hadd
    exact hops (operands_of_not_add fun l m h => hadd ⟨l, m, h⟩)
  have hopposite := h.opposite l m
  rw [heq, amountAt_opposites hopposite, neg_eq_iff_eq_neg] at hone
  refine amountAt_ne_neg_one hx ?_ hone
  exact forall_mem_of_forall₂ hopposite.flip fun _ _ htu ht => (htu (.inl ht)).2.2

/-- The rule for the opposite of what is in normal form. -/
lemma SteadyCalls.opposite (h : SteadyCalls a n (.neg x) r) (hn : x.Normal) :
    OppositeResult (SteadyCalls a n) x r := by
  obtain ⟨x', hx', hopposite⟩ := h.yields.of_neg
  rwa [hx'.eq_of_normal hn] at hopposite

/-- The opposite of an operand of a sum is one operand again. -/
lemma SteadyCalls.opposite_of_operand (h : SteadyCalls a n (.neg t) u) (ht : t.IsReducedForm)
    (hops : Chain.sum.operands t = [t]) (hterm : HasOppositeTerm t) :
    Chain.sum.operands u = [u] ∧ ∀ x y, AreOpposite (some (Expr.add x y).alikeClass) t u := by
  rcases hterm with hplaces | ⟨hplain, hopposite⟩
  · exact opposite_of_placesSign (fun h => h.simplified) ht hops hplaces (h.opposite ht.normal)
  · have hu := not_add_of_isSumMultiple (hopposite u h.simplified)
    refine ⟨operands_of_not_add ?_, areOpposite_of_not_add (not_add_of_isSumMultiple hplain) hu⟩
    rintro x y rfl
    exact hu x y rfl

/-- The opposite of a sum is simplified by way of the opposites of its two parts. -/
lemma OppositeResult.of_add (h : OppositeResult (SteadyCalls a n) (.add l m) r) :
    ∃ y z, SteadyCalls a n (.neg l) y ∧ SteadyCalls a n (.neg m) z ∧
      SumResult (SteadyCalls a n) (Chain.sum.operands y ++ Chain.sum.operands z) r := by
  cases h with
  | sign hsign => cases hsign
  | add h =>
    obtain ⟨rs, hrs, hr⟩ := Yields.of_node (c := .sum) h.yields
    have hrs : List.Forall₂ (SteadyCalls a n) [.neg l, .neg m] rs := hrs
    match rs, hrs with
    | [y, z], .cons hy (.cons hz .nil) =>
      refine ⟨y, z, hy, hz, ?_⟩
      rw [List.flatMap_cons, List.flatMap_cons, List.flatMap_nil, List.append_nil] at hr
      exact hr

/-- Whether the opposite of an expression amounts to what the opposites of its operands do. -/
def HasOpposites (a : Expr) (n : Nat) (x : Expr) : Prop :=
  ∀ r, SteadyCalls a n (.neg x) r → ∃ us, AreOpposites a n (Chain.sum.operands x) us ∧
    ∀ i, amountAt ((Chain.sum.operands r).map sumLabel) i = amountAt (us.map sumLabel) i

/-- The opposite of a sum is a sum of operands that amount to the opposites of its own operands. -/
lemma exists_opposites_add (hl : HasOpposites a n l) (hm : HasOpposites a n m)
    (h : OppositeResult (SteadyCalls a n) (.add l m) r) :
    ∃ es us, SumResult (SteadyCalls a n) es r ∧ (∀ e ∈ es, e.IsReducedForm) ∧
      AreOpposites a n (Chain.sum.operands (.add l m)) us ∧
        ∀ i, amountAt (es.map sumLabel) i = amountAt (us.map sumLabel) i := by
  obtain ⟨y, z, hy, hz, hr⟩ := h.of_add
  obtain ⟨us, hus, hamount⟩ := hl y hy
  obtain ⟨us', hus', hamount'⟩ := hm z hz
  refine ⟨_, us ++ us', hr, List.forall_mem_append.2 ⟨?_, ?_⟩, ⟨?_, fun x y => ?_⟩, fun i => ?_⟩
  · exact fun e he => hy.isReducedForm.of_mem_operands he
  · exact fun e he => hz.isReducedForm.of_mem_operands he
  · exact List.rel_append hus.calls hus'.calls
  · exact List.rel_append (hus.opposite x y) (hus'.opposite x y)
  · rw [List.map_append, List.map_append, amountAt_append, amountAt_append, hamount, hamount']

/-- The opposite of a reduced form is simplified by way of the opposites of its operands, and
amounts to what these do, if each of them is a summand again. -/
lemma hasOpposites (hx : x.IsReducedForm)
    (hterms : ∀ t ∈ Chain.sum.operands x, Reaches a (.neg t) → HasOppositeTerm t) :
    HasOpposites a n x := by
  induction x using Chain.induct .sum with
  | leaf x hops =>
    intro r h
    obtain ⟨hr, hlabels⟩ := h.opposite_of_operand hx hops (hterms x (by simp [hops]) h.reached)
    rw [hops, hr]
    exact ⟨[r], ⟨.cons h .nil, fun x y => .cons (hlabels x y) .nil⟩, fun _ => rfl⟩
  | node l m ihl ihm =>
    intro r h
    rw [Chain.operands_node, List.forall_mem_append] at hterms
    have hl := ihl ⟨hx.normal.1, hx.readable.1⟩ hterms.1
    have hm := ihm ⟨hx.normal.2.1, hx.readable.2⟩ hterms.2
    obtain ⟨es, us, hr, hes, hus, hamount⟩ := exists_opposites_add hl hm (h.opposite hx.normal)
    exact ⟨us, hus, amountAt_sum_of_opposites hx hus hes hamount hr⟩

/-- What a sum has as its opposite comes from operands that amount to the opposites of its own. -/
lemma OppositeResult.exists_opposites (h : OppositeResult (SteadyCalls a n) (.add l m) r)
    (hx : (Expr.add l m).IsReducedForm) (hplaces : PlacesSigns a (.add l m)) :
    ∃ es us, SumResult (SteadyCalls a n) es r ∧ (∀ e ∈ es, e.IsReducedForm) ∧
      AreOpposites a n (Chain.sum.operands (.add l m)) us ∧
        ∀ i, amountAt (es.map sumLabel) i = amountAt (us.map sumLabel) i := by
  have hterms := hplaces.terms
  rw [Chain.operands_sum_add, List.forall_mem_append] at hterms
  refine exists_opposites_add ?_ ?_ h
  · exact hasOpposites ⟨hx.normal.1, hx.readable.1⟩ hterms.1
  · exact hasOpposites ⟨hx.normal.2.1, hx.readable.2⟩ hterms.2

/-! ### Opposites that are alike -/

/-- The results of calls for expressions that are alike. -/
lemma Agree.alikeLists {S S' : Expr → Expr → Prop} {es' rs rs' : List Expr} (hS : Agree S S')
    (h : AlikeLists es es') (hrs : List.Forall₂ S es rs) (hrs' : List.Forall₂ S' es' rs') :
    AlikeLists rs rs' := by
  have hlabels {S : Expr → Expr → Prop} {es rs : List Expr} (hrs : List.Forall₂ S es rs) :
      List.Forall₂ (fun r i => ∃ x, S x r ∧ x.alikeClass = i) rs (es.map alikeClass) :=
    List.forall₂_map_right_iff.2 (hrs.flip.imp fun r x hx => ⟨x, hx, rfl⟩)
  apply alikeLists_of_perm (hlabels hrs) (hlabels hrs') (alikeLists_iff.1 h)
  rintro r r' i ⟨x, hx, rfl⟩ ⟨x', hx', heq⟩
  exact hS.alike hx hx' (alikeClass_eq_iff.1 heq.symm)

variable {n' : Nat} {l' m' r' x' : Expr} {us' ts' : List Expr}

lemma AreOpposites.amountAt_eq (hS : Agree (SteadyCalls a n) (SteadyCalls b n'))
    (h : AreOpposites a n ts us)
    (h' : AreOpposites b n' ts' us') (halike : AlikeLists ts ts') (i : Option AlikeClass) :
    amountAt (us.map sumLabel) i = amountAt (us'.map sumLabel) i := by
  obtain ⟨ts'', hperm, hall⟩ := halike
  have hneg : AlikeLists (ts.map .neg) (ts'.map .neg) := ⟨ts''.map .neg, hperm.map _,
    List.forall₂_map_left_iff.2 (List.forall₂_map_right_iff.2 (hall.imp fun _ _ h => .neg h))⟩
  refine amountAt_sumLabel_of_alikeLists ?_ ?_ ?_ i
  · exact hS.alikeLists hneg (List.forall₂_map_left_iff.2 h.calls)
      (List.forall₂_map_left_iff.2 h'.calls)
  · exact forall_mem_of_forall₂ h.calls fun _ _ hu => hu.isReducedForm
  · exact forall_mem_of_forall₂ h'.calls fun _ _ hu => hu.isReducedForm

/-- The opposites of sums that are alike. -/
lemma OppositeResult.alike_add (hS : Agree (SteadyCalls a n) (SteadyCalls b n'))
    (halike : (Expr.add l m).Alike (.add l' m')) (hx : (Expr.add l m).IsReducedForm)
    (hx' : (Expr.add l' m').IsReducedForm)
    (hplaces : PlacesSigns a (.add l m)) (hplaces' : PlacesSigns b (.add l' m'))
    (h : OppositeResult (SteadyCalls a n) (.add l m) r)
    (h' : OppositeResult (SteadyCalls b n') (.add l' m') r') : r.Alike r' := by
  obtain ⟨es, us, hr, hes, hus, hamount⟩ := h.exists_opposites hx hplaces
  obtain ⟨es', us', hr', hes', hus', hamount'⟩ := h'.exists_opposites hx' hplaces'
  refine hr.alike hS hr' hes hes' fun i => ?_
  rw [hamount, hamount', hus.amountAt_eq hS hus' (halike.operands .sum)]

/-- The opposites of products that are alike. -/
lemma OppositeResult.alike_mul (hS : Agree (SteadyCalls a n) (SteadyCalls b n'))
    (halike : (Expr.mul l m).Alike (.mul l' m')) (hx : (Expr.mul l m).IsReducedForm)
    (hx' : (Expr.mul l' m').Normal) (hplaces : placesSign (.mul l m))
    (hplaces' : placesSign (.mul l' m'))
    (h : SteadyCalls a n (.mul (.neg l) m) r) (h' : SteadyCalls b n' (.mul (.neg l') m') r') :
    r.Alike r' := by
  by_cases hc : l.isConstant
  · obtain ⟨c, rfl⟩ := eq_const_of_isConstant hc
    obtain ⟨c', m'', heq, hc, hm⟩ := exists_mul_const_of_alike halike hx'
    obtain ⟨rfl, rfl⟩ := Expr.mul.inj heq
    have hvalue := Number.exactValue?_eq_valueOrZero hx.readable.1
    exact hS.alike h h' (.node .product (.neg (.const hvalue (hc.trans hvalue))) hm)
  · have hc' : l'.isConstant = false := by
      by_contra hc'
      obtain ⟨c', rfl⟩ := eq_const_of_isConstant (by simpa using hc')
      obtain ⟨c, m, heq, -⟩ := exists_mul_const_of_alike halike.symm hx.normal
      obtain ⟨rfl, -⟩ := Expr.mul.inj heq
      exact hc rfl
    have hr :=
      simplify_neg_mul hx.normal (takesSign_of_placesSign hx.normal hplaces (by simpa using hc))
    have hr' := simplify_neg_mul hx' (takesSign_of_placesSign hx' hplaces' hc')
    obtain rfl := Except.ok.inj (hr.symm.trans h.simplified)
    obtain rfl := Except.ok.inj (hr'.symm.trans h'.simplified)
    exact .node .product (.refl _) halike

/-- The opposites of reduced forms that are alike are alike. -/
theorem OppositeResult.alike (hS : Agree (SteadyCalls a n) (SteadyCalls b n')) (halike : x.Alike x')
    (hx : x.IsReducedForm) (hx' : x'.IsReducedForm)
    (hsigns : PlacesSigns a x ∧ PlacesSigns b x' ∨ List.Forall₂ Alike x.children x'.children)
    (h : OppositeResult (SteadyCalls a n) x r) (h' : OppositeResult (SteadyCalls b n') x' r') :
    r.Alike r' := by
  cases h with
  | const c =>
    obtain ⟨c', rfl, hc⟩ := halike.eq_const
    cases h' with
    | const =>
      have hvalue := Number.exactValue?_eq_valueOrZero hx.readable
      exact .const (Number.exactValue?_neg hvalue) (Number.exactValue?_neg (hc.trans hvalue))
    | sign hsign => cases hsign
  | @add l m _ h =>
    obtain ⟨l', m', rfl⟩ : ∃ l' m', x' = .add l' m' := halike.eq_node (c := .sum)
    cases h' with
    | add h' =>
      rcases hsigns with ⟨hplaces, hplaces'⟩ | hparts
      · exact alike_add hS halike hx hx' hplaces hplaces' (.add h) (.add h')
      · obtain ⟨hl, hm⟩ : l.Alike l' ∧ m.Alike m' := by simpa [children] using hparts
        exact hS.alike h h' (.node .sum (.neg hl) (.neg hm))
    | sign hsign => cases hsign
  | sub => exact hx.normal.elim
  | other => exact hx.normal.elim
  | neg u =>
    obtain ⟨u', rfl, hu⟩ := halike.eq_neg
    cases h' with
    | neg => exact hu
    | sign hsign => cases hsign
  | sign hsign =>
    rw [halike.takesSign_eq] at hsign
    cases h' with
    | sign => exact .neg halike
    | _ => cases hsign
  | div h =>
    obtain ⟨n', d', rfl, hn, hd⟩ := halike.eq_div
    cases h' with
    | div h' => exact hS.alike h h' (.div (.neg hn) hd)
    | sign hsign => cases hsign
  | @mul l m _ h =>
    obtain ⟨l', m', rfl⟩ : ∃ l' m', x' = .mul l' m' := halike.eq_node (c := .product)
    cases h' with
    | mul h' =>
      rcases hsigns with ⟨hplaces, hplaces'⟩ | hparts
      · exact alike_mul hS halike hx hx'.normal hplaces.sign hplaces'.sign h h'
      · obtain ⟨hl, hm⟩ : l.Alike l' ∧ m.Alike m' := by simpa [children] using hparts
        exact hS.alike h h' (.node .product (.neg hl) hm)
    | sign hsign => cases hsign

end SymbolicAlgebra.Simplify
