import SymbolicAlgebra.Proofs.NormalForm.FixedPoint

/-!
# Chains that keep their rank

No rule makes the rank of an expression greater. A chain whose rank stays what it was has lost
nothing: at most a number has come to its front, or a minus sign has become the factor minus one or
the reverse (`Kept`), and it is in normal form (`chain_kept`).
-/

namespace SymbolicAlgebra

open Simplify

/-! ### Sameness along a chain -/

namespace Expr

lemma exists_node_of_same {c : Chain} {l r e : Expr} (h : (c.node l r).same e) :
    ∃ l' r', e = c.node l' r' ∧ l.same l' ∧ r.same r' := by
  cases c <;> cases e <;> simp only [Chain.node, same, Bool.and_eq_true, Bool.false_eq_true] at h
  · exact ⟨_, _, rfl, h⟩
  · exact ⟨_, _, rfl, h⟩

lemma operands_of_same_of_leaf {c : Chain} {e e' : Expr} (h : e.same e') (he : c.operands e = [e]) :
    c.operands e' = [e'] := by
  cases c with
  | sum =>
    cases e' with
    | add l' r' =>
      cases e <;> simp only [same, Bool.false_eq_true] at h
      exact absurd he (Chain.sum.operands_node_ne _ _ _)
    | _ => rfl
  | product =>
    cases e' with
    | mul l' r' =>
      cases e <;> simp only [same, Bool.false_eq_true] at h
      exact absurd he (Chain.product.operands_node_ne _ _ _)
    | _ => rfl

/-- Chains that are the same have the same operands. -/
lemma operands_of_same {e e' : Expr} (h : e.same e') (c : Chain) :
    List.Forall₂ (fun x y => x.same y) (c.operands e) (c.operands e') := by
  induction e using Chain.induct c generalizing e' with
  | node l r ihl ihr =>
    obtain ⟨l', r', rfl, hl, hr⟩ := exists_node_of_same h
    rw [Chain.operands_node, Chain.operands_node]
    exact List.rel_append (ihl hl) (ihr hr)
  | leaf e he =>
    rw [he, operands_of_same_of_leaf h he]
    exact .cons h .nil

/-- Chains that are the same and have equal operands are equal. -/
lemma eq_of_same_of_operands {e e' : Expr} {c : Chain} (h : e.same e')
    (ho : c.operands e = c.operands e') : e = e' := by
  induction e using Chain.induct c generalizing e' with
  | node l r ihl ihr =>
    obtain ⟨l', r', rfl, hl, hr⟩ := exists_node_of_same h
    rw [Chain.operands_node, Chain.operands_node] at ho
    obtain ⟨hol, hor⟩ := List.append_inj ho (operands_of_same hl c).length_eq
    rw [ihl hl hol, ihr hr hor]
  | leaf e he =>
    rw [he, operands_of_same_of_leaf h he] at ho
    exact List.singleton_inj.1 ho

end Expr

namespace Simplify

variable {e r : Expr} {es : List Expr} {k : Number}

/-! ### The operands of chains in normal form -/

lemma filter_of_not_isConstant (h : ∀ e ∈ es, e.isConstant = false) :
    es.filter (!·.isConstant) = es := by
  simpa using h

lemma isNormalSum_of_unlike (hes : ∀ e ∈ es, e.isConstant = false) (h : Unlike termKey es) :
    IsNormalSum es where
  head c es' heq := by
    subst heq
    cases hes (.const c) (by simp)
  tail e he := hes e (List.mem_of_mem_tail he)
  unlike := by rwa [filter_of_not_isConstant hes]

lemma isNormalSum_const (hz : k.isZero = false) (hk : k.rounded = k)
    (hes : ∀ e ∈ es, e.isConstant = false) (h : Unlike termKey es) :
    IsNormalSum (.const k :: es) where
  head c es' heq := by
    cases heq
    exact ⟨hz, hk⟩
  tail e he := hes e he
  unlike := by
    rw [List.filter_cons_of_neg (by simp [Expr.isConstant]), filter_of_not_isConstant hes]
    exact h

/-- What is known of factors that have been collected alone. -/
structure AreFactors (es : List Expr) : Prop where
  normal : ∀ e ∈ es, e.NormalOperand .product
  moves : ∀ e ∈ es, Chain.product.moves e = false
  unlike : Unlike factorKey es
  short : ∀ e ∈ es, refuseLongConstant (splitExponent e).2 = .ok ()

lemma not_isConstant_of_not_moves {c : Chain} (h : c.moves e = false) : e.isConstant = false := by
  cases e with
  | const d => cases c <;> cases h
  | _ => rfl

lemma AreFactors.isNormalProduct (h : AreFactors es) : IsNormalProduct es where
  head c es' heq := by
    subst heq
    cases h.moves (.const c) (by simp)
  sign c e heq := by
    subst heq
    cases h.moves (.const c) (by simp)
  tail e he := not_isConstant_of_not_moves (h.moves e (List.mem_of_mem_tail he))
  unlike := by
    rw [filter_of_not_isConstant fun e he => not_isConstant_of_not_moves (h.moves e he)]
    exact h.unlike
  unsigned e he := by cases h.moves (.neg e) he
  short := h.short

lemma AreFactors.isNormalProduct_const (h : AreFactors es) (hz : k.isZero = false)
    (hone : k.isOne = false) (hk : k.rounded = k) (hlong : k.refuseLong = .ok ())
    (hsign : ∀ e, es = [e] → k == .integer (-1) → takesSign e = false) :
    IsNormalProduct (.const k :: es) where
  head c es' heq := by
    cases heq
    exact ⟨hz, hone, hk, hlong⟩
  sign c e heq := by
    cases heq
    exact hsign e rfl
  tail e he := not_isConstant_of_not_moves (h.moves e he)
  unlike := by
    rw [List.filter_cons_of_neg (by simp [Expr.isConstant]),
      filter_of_not_isConstant fun e he => not_isConstant_of_not_moves (h.moves e he)]
    exact h.unlike
  unsigned e he := by
    rcases List.mem_cons.1 he with he | he
    · cases he
    · cases h.moves (.neg e) he
  short e he := by
    rcases List.mem_cons.1 he with rfl | he
    · rfl
    · exact h.short e he

/-- What a chain of the operands `es` is when it has kept its rank: the chain of the same operands,
of these with a number at the front, of more operands, or an opposite. -/
inductive Kept (c : Chain) (es : List Expr) : Expr → Prop where
  | same : Kept c es (c.build es)
  | front {pre post : List Expr} {d : Number} (heq : es = pre ++ .const d :: post)
    (hpre : ∀ e ∈ pre, c.moves e = false) : Kept c es (c.build (.const d.rounded :: (pre ++ post)))
  | longer {r : Expr} (h : es.length < (c.operands r).length) : Kept c es r
  | sign (e : Expr) : Kept c es (.neg e)

/-- Operands are left without one of at least two. -/
lemma append_ne_nil_of_two_le {pre post : List Expr} (h : 2 ≤ (pre ++ e :: post).length) :
    pre ++ post ≠ [] := by
  intro hnil
  obtain ⟨rfl, rfl⟩ := List.append_eq_nil_iff.1 hnil
  simp at h

/-! ### Sums -/

lemma mem_of_mem_rest_sum (h : e ∈ es.filterMap Chain.sum.rest?) : e ∈ es := by
  obtain ⟨x, hx, hrest⟩ := List.mem_filterMap.1 h
  cases x with
  | const c => cases hrest
  | _ => cases hrest; exact hx

lemma size_mul_length_le_total (c : Chain) (hlen : 2 ≤ es.length) : c.movesSize 2 ≤ c.total es := by
  match es with
  | e :: e' :: es =>
    have he := e.two_le_rank
    have he' := e'.two_le_rank
    have hes := c.neutral_le_total es
    cases c with
    | sum =>
      simp only [Chain.movesSize, Chain.total, Chain.join, Chain.size]
      omega
    | product =>
      have h := Nat.mul_le_mul he (Nat.mul_le_mul he' hes)
      exact h

lemma sum_kept (h : Rules.sum es = .ok r) (hes : ∀ e ∈ es, e.NormalOperand .sum)
    (hlen : 2 ≤ es.length) (hsize : Chain.sum.size r = Chain.sum.total es) :
    r.Normal ∧ Kept .sum es r := by
  have htotal : 6 ≤ Chain.sum.total es := size_mul_length_le_total .sum hlen
  obtain ⟨k, ts, g, hone, hstarted, hunlike, hg, rfl⟩ :=
    (sum_exact_of_size_eq h (by omega)).2 hsize
  have hterms : ∀ e ∈ es.filterMap Chain.sum.rest?, ∀ k, termKey e = .ok k →
      (termCollector.start k e).coefficient.isZero = false ∧
        Rules.toTerm (termCollector.start k e) = .ok e := by
    intro e he k hk
    have hn := (hes e (mem_of_mem_rest_sum he)).1
    refine toTerm_start hn (simplify_of_normal hn) ?_ hk
    rintro x rfl
    exact simplify_of_normal hn.2
  have hconst := fun e (he : e ∈ es.filterMap Chain.sum.rest?) => not_isConstant_of_mem_rest he
  rw [gatherTerms_of_started hstarted hconst hterms] at hg
  obtain rfl := Except.ok.inj hg
  generalize es.filterMap Chain.sum.rest? = rest at *
  cases hone with
  | none hm =>
    have hne : es ≠ [] := List.ne_nil_of_length_pos (by omega)
    rw [show Chain.sum.unitConstant = 0 from rfl, toSum_zero hne]
    exact ⟨Expr.normal_build hes (isNormalSum_of_unlike hconst hunlike) hne, .same⟩
  | @one pre post e he hm hk =>
    cases e with
    | const d =>
      have hshift : Chain.sum.shift Chain.sum.unitConstant (.const d) = d.rounded :=
        Number.zero_add_eq d
      have hz : d.rounded.isZero = false := by
        rw [hshift] at hk
        by_contra hz
        exact hk (if_pos (by simpa using hz))
      have hrest : pre ++ (Chain.sum.rest? (.const d)).toList ++ post = pre ++ post := by
        simp [Chain.rest?]
      rw [hrest] at hconst hunlike ⊢
      have hne : pre ++ post ≠ [] := append_ne_nil_of_two_le hlen
      rw [hshift, toSum_const hz hne]
      refine ⟨Expr.normal_build ?_
        (isNormalSum_const hz d.rounded_rounded hconst hunlike) (by simp),
        .front rfl fun e he => hm e (by simp [he])⟩
      intro x hx
      rcases List.mem_cons.1 hx with rfl | hx
      · exact ⟨trivial, rfl⟩
      · exact hes x (by simpa using (List.mem_append.1 hx).imp_right .inr)
    | _ => cases he

/-! ### Products -/

lemma IsPlainFactor.isFactor (h : IsPlainFactor e) : IsFactor e := by
  rcases h with ⟨b, p, rfl, -⟩ | h
  · exact .inl ⟨b, p, rfl⟩
  · exact .inr h

/-- What is collected of normal operands is normal, and neither a number nor an opposite. -/
lemma normalOperand_of_mem_rest (hes : ∀ e ∈ es, e.NormalOperand .product)
    (h : e ∈ es.filterMap Chain.product.rest?) :
    e.NormalOperand .product ∧ Chain.product.moves e = false := by
  obtain ⟨x, hx, hrest⟩ := List.mem_filterMap.1 h
  have hn := hes x hx
  cases x with
  | const c => cases hrest
  | neg y =>
    obtain rfl := Option.some.inj hrest
    obtain ⟨hm, -, hops⟩ := spec_of_takesSign hn.1.1
    exact ⟨⟨hn.1.2, hops⟩, hm⟩
  | _ =>
    cases hrest
    exact ⟨hn, rfl⟩

lemma short_of_started {fs : List LikeFactors} {es' : List Expr} (h : factorCollector.Started fs es)
    (hplain : ∀ e ∈ es, IsPlainFactor e) (hmap : fs.mapM Rules.toFactor = .ok es') :
    ∀ e ∈ es, refuseLongConstant (splitExponent e).2 = .ok () := by
  induction h generalizing es' with
  | nil => simp
  | @cons f e fs es hf _ ih =>
    obtain ⟨k, -, rfl⟩ := hf
    rw [List.mapM_cons, toFactor_start (hplain e (by simp))] at hmap
    obtain ⟨x, hx, hmap⟩ := bind_eq_ok_iff.1 hmap
    obtain ⟨_, hshort, -⟩ := bind_eq_ok_iff.1 hx
    obtain ⟨xs, hxs, -⟩ := bind_eq_ok_iff.1 hmap
    intro y hy
    rcases List.mem_cons.1 hy with rfl | hy
    · exact hshort
    · exact ih (fun y hy => hplain y (by simp [hy])) hxs y hy

/-- A constant with factors is their product, or the sign of the only one. -/
lemma AreFactors.toProduct_eq (h : AreFactors es) (hne : es ≠ []) (hz : k.isZero = false)
    (hone : k.isOne = false) (hk : k.rounded = k) (hlong : Gathered.refuseLong ⟨k, es⟩ = .ok ()) :
    (∃ e, es = [e] ∧ takesSign e ∧ Gathered.toProduct ⟨k, es⟩ = .neg e) ∨
      IsNormalProduct (.const k :: es) ∧
        Gathered.toProduct ⟨k, es⟩ = Chain.product.build (.const k :: es) := by
  have hlong : k.refuseLong = .ok () := by
    rwa [Gathered.refuseLong, if_neg (by simpa using hne)] at hlong
  by_cases hsign : ∃ e, es = [e] ∧ k == .integer (-1) ∧ takesSign e
  · obtain ⟨e, rfl, hneg, hsign⟩ := hsign
    exact .inl ⟨e, rfl, hsign, by simp [Gathered.toProduct, hz, hneg, hsign]⟩
  · have hnormal := h.isNormalProduct_const hz hone hk hlong fun e heq hneg => by
      by_contra hs
      exact hsign ⟨e, heq, hneg, by simpa using hs⟩
    exact .inr ⟨hnormal, toProduct_const hnormal hne⟩

lemma AreFactors.normal_build (h : AreFactors es) (hn : IsNormalProduct (.const k :: es)) :
    (Chain.product.build (.const k :: es)).Normal := by
  refine Expr.normal_build ?_ hn (by simp)
  intro e he
  rcases List.mem_cons.1 he with rfl | he
  · exact ⟨trivial, rfl⟩
  · exact h.normal e he

lemma product_kept (h : Rules.product es = .ok r) (hes : ∀ e ∈ es, e.NormalOperand .product)
    (hlen : 2 ≤ es.length) (hsize : Chain.product.size r = Chain.product.total es) :
    r.Normal ∧ Kept .product es r := by
  have htotal : 4 ≤ Chain.product.total es := size_mul_length_le_total .product hlen
  have hrest :=
    fun e (he : e ∈ es.filterMap Chain.product.rest?) => normalOperand_of_mem_rest hes he
  have hplain := fun e he => isPlainFactor_of_normal (hrest e he).1 (hrest e he).2
  obtain ⟨k, fs, g, hone, hstarted, hunlike, hg, hlong, rfl⟩ :=
    (product_exact_of_size_eq h (fun e he => (hplain e he).isFactor) (by omega)).2 hsize
  obtain ⟨es', hmap, -⟩ := bind_eq_ok_iff.1 hg
  have hfactors : AreFactors (es.filterMap Chain.product.rest?) :=
    ⟨fun e he => (hrest e he).1, fun e he => (hrest e he).2, hunlike,
      short_of_started hstarted hplain hmap⟩
  rw [gatherFactors_of_started hstarted hplain hfactors.short] at hg
  obtain rfl := Except.ok.inj hg
  generalize es.filterMap Chain.product.rest? = rest at hone hfactors hlong hsize
  have hz : k.isZero = false := by
    by_contra hz
    have hconst : Gathered.toProduct ⟨k, rest⟩ = .const k := if_pos (by simpa using hz)
    rw [hconst] at hsize
    have htwo : Chain.product.size (.const k) = 2 := rfl
    omega
  cases hone with
  | none hm =>
    have hne : es ≠ [] := List.ne_nil_of_length_pos (by omega)
    rw [show Chain.product.unitConstant = 1 from rfl, toProduct_one hne]
    exact ⟨Expr.normal_build hes hfactors.isNormalProduct hne, .same⟩
  | @one pre post e he hm hk =>
    have hone : (Chain.product.shift Chain.product.unitConstant e).isOne = false := by
      by_contra hone
      exact hk (if_pos (by simpa using hone))
    cases e with
    | const d =>
      have hshift : Chain.product.shift Chain.product.unitConstant (.const d) = d.rounded :=
        Number.one_mul_eq d
      have hops : pre ++ (Chain.product.rest? (.const d)).toList ++ post = pre ++ post := by
        simp [Chain.rest?]
      rw [hshift] at hone hz hlong
      rw [hops] at hfactors hlong
      rw [hshift, hops]
      have hne : pre ++ post ≠ [] := append_ne_nil_of_two_le hlen
      rcases hfactors.toProduct_eq hne hz hone d.rounded_rounded hlong with
        ⟨x, heq, hsign, hr⟩ | ⟨hnormal, hr⟩ <;> rw [hr]
      · exact ⟨⟨hsign, (hfactors.normal x (by simp [heq])).1⟩, .sign x⟩
      · exact ⟨hfactors.normal_build hnormal, .front rfl fun e he => hm e (by simp [he])⟩
    | neg x =>
      have hops : pre ++ (Chain.product.rest? (.neg x)).toList ++ post = pre ++ x :: post := by
        simp [Chain.rest?]
      rw [hops] at hfactors hlong
      rw [hops]
      rcases hfactors.toProduct_eq (by simp) hz hone rfl hlong with ⟨y, heq, -, -⟩ | ⟨hnormal, hr⟩
      · have hlen' := congrArg List.length heq
        simp only [List.length_append, List.length_cons, List.length_nil] at hlen hlen'
        omega
      · rw [hr]
        refine ⟨hfactors.normal_build hnormal, .longer ?_⟩
        rw [Chain.operands_build _ (by simp), Chain.flatMap_operands]
        · simp
        · intro y hy
          rcases List.mem_cons.1 hy with rfl | hy
          · rfl
          · exact (hfactors.normal y hy).2
    | _ => cases he

/-- A chain of operands in normal form that has kept its rank is in normal form. -/
theorem chain_kept {c : Chain} (h : Rules.chain c es = .ok r) (hes : ∀ e ∈ es, e.NormalOperand c)
    (hlen : 2 ≤ es.length) (hsize : c.size r = c.total es) : r.Normal ∧ Kept c es r := by
  cases c with
  | sum => exact sum_kept h hes hlen hsize
  | product => exact product_kept h hes hlen hsize

end Simplify

end SymbolicAlgebra
