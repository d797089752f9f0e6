import SymbolicAlgebra.Proofs.NormalForm.Product
import SymbolicAlgebra.Proofs.NormalForm.Sum

/-!
# Normal forms are fixed points

Simplification returns an expression in normal form as it is (`simplify_of_normal`).
-/

namespace SymbolicAlgebra

open Simplify

variable {e k r : Expr} {es : List Expr}

namespace Expr

lemma Normal.tidy (h : e.Normal) : Tidy e := by
  induction e with
  | const c => trivial
  | var x => trivial
  | add l r ihl ihr => exact ⟨ihl h.1, ihr h.2.1⟩
  | sub l r => exact h.elim
  | mul l r ihl ihr => exact ⟨ihl h.1, ihr h.2.1⟩
  | div n d ihn ihd => exact ⟨ihn h.1, ihd h.2.1⟩
  | pow b p ihb ihp => exact ⟨ihb h.1, ihp h.2.1⟩
  | log b a ihb iha => exact ⟨ihb h.1, iha h.2⟩
  | neg e ih => exact ⟨h.1, ih h.2⟩
  | other m k es => exact h.elim

lemma likeKey_eq_ok_iff :
    e.likeKey = .ok k ↔ likeKeyWithin none e = .ok k ∧ k.refuseLong = .ok () := by
  rw [likeKey, bind_eq_ok_iff]
  constructor
  · rintro ⟨k', hk', h⟩
    obtain ⟨_, hlong, h⟩ := bind_eq_ok_iff.1 h
    obtain rfl := pure_eq_ok_iff.1 h
    exact ⟨hk', hlong⟩
  · rintro ⟨hk, hlong⟩
    exact ⟨k, hk, by rw [hlong]; rfl⟩

/-- The parts of a power with a key have keys. -/
lemma exists_likeKey_of_pow {b p : Expr} (h : (pow b p).likeKey = .ok k) :
    (∃ kb, b.likeKey = .ok kb) ∧ ∃ kp, p.likeKey = .ok kp := by
  obtain ⟨hk, hlong⟩ := likeKey_eq_ok_iff.1 h
  obtain ⟨kb, hkb, hk⟩ := bind_eq_ok_iff.1 hk
  obtain ⟨kp, hkp, hk⟩ := bind_eq_ok_iff.1 hk
  obtain rfl := pure_eq_ok_iff.1 hk
  obtain ⟨_, hlongb, hlongp⟩ := bind_eq_ok_iff.1 hlong
  exact ⟨⟨kb, likeKey_eq_ok_iff.2 ⟨hkb, hlongb⟩⟩, ⟨kp, likeKey_eq_ok_iff.2 ⟨hkp, hlongp⟩⟩⟩

lemma same_const_one_of_normalPower {b p : Expr} (h : IsNormalPower b p) :
    (p == .const 1) = false := by
  cases p with
  | const c =>
    have hone := (h.exponent c rfl).1
    rw [Bool.eq_false_iff, Ne, ← Number.same_one_iff] at hone
    exact Bool.eq_false_iff.2 hone
  | _ => rfl

end Expr

namespace Simplify

lemma refuseLongConstant_of_likeKey {p : Expr} (h : p.likeKey = .ok k) :
    refuseLongConstant p = .ok () := by
  cases p with
  | const c =>
    obtain ⟨hk, hlong⟩ := Expr.likeKey_eq_ok_iff.1 h
    obtain rfl := Except.ok.inj hk
    exact hlong
  | _ => rfl

/-! ### Factors -/

/-- An operand that is a factor by itself, or a power whose exponent is not one. -/
def IsPlainFactor (e : Expr) : Prop :=
  (∃ b p, e = .pow b p ∧ (p == .const 1) = false) ∨ 5 ≤ e.rank ∧ splitExponent e = (e, .const 1)

lemma isPlainFactor_of_normal (h : e.NormalOperand .product)
    (hm : Chain.product.moves e = false) : IsPlainFactor e := by
  have hc (c : Number) : e ≠ .const c := by rintro rfl; cases hm
  have hn (x : Expr) : e ≠ .neg x := by rintro rfl; cases hm
  rcases isFactor_of_operands hc hn h.1.tidy h.2 with ⟨b, p, rfl⟩ | hfactor
  · exact .inl ⟨b, p, rfl, Expr.same_const_one_of_normalPower h.1.2.2⟩
  · exact .inr hfactor

lemma toFactor_start (h : IsPlainFactor e) : Rules.toFactor (factorCollector.start k e) =
    (do refuseLongConstant (splitExponent e).2; return e) := by
  rcases h with ⟨b, p, rfl, hp⟩ | ⟨-, hsplit⟩
  · simp only [factorCollector, splitExponent, Rules.toFactor, hp]
    rfl
  · simp only [factorCollector, hsplit, Rules.toFactor]
    rfl

lemma IsPlainFactor.not_isConstant (h : IsPlainFactor e) : e.isConstant = false := by
  rcases h with ⟨b, p, rfl, -⟩ | ⟨h5, -⟩
  · rfl
  · cases e with
    | const c => exact absurd h5 (by simp [Expr.rank])
    | _ => rfl

lemma gatherFactors_of_started {fs : List LikeFactors} {c : Number}
    (h : factorCollector.Started fs es) (hplain : ∀ e ∈ es, IsPlainFactor e)
    (hshort : ∀ e ∈ es, refuseLongConstant (splitExponent e).2 = .ok ()) :
    Rules.gatherFactors ⟨c, fs⟩ = .ok ⟨c, es⟩ := by
  have hmap : fs.mapM Rules.toFactor = .ok es := h.mapM fun e he k _ => by
    rw [toFactor_start (hplain e he), hshort e he]
    rfl
  rw [Rules.gatherFactors, hmap]
  exact congrArg Except.ok (Gathered.foldl_add _ fun e he => (hplain e he).not_isConstant)

/-- A product of unlike factors. -/
lemma product_of_unlike (hz : ∀ c, .const c ∈ es → c.isZero = false)
    (hunlike : Unlike factorKey (es.filterMap Chain.product.rest?))
    (hplain : ∀ e ∈ es.filterMap Chain.product.rest?, IsPlainFactor e)
    (hshort : ∀ e ∈ es.filterMap Chain.product.rest?,
      refuseLongConstant (splitExponent e).2 = .ok ()) :
    Rules.product es = (do
      Gathered.refuseLong ⟨es.foldl Chain.product.shift 1, es.filterMap Chain.product.rest?⟩
      return Gathered.toProduct
        ⟨es.foldl Chain.product.shift 1, es.filterMap Chain.product.rest?⟩) := by
  obtain ⟨fs, hfs, hstarted⟩ := Collector.collect_of_unlike (C := factorCollector) []
    hunlike (by simp)
  rw [Rules.product, collectFactors_eq _ hz, hfs]
  show Rules.productOf (.collected ⟨_, [] ++ fs⟩) = _
  rw [Rules.productOf, List.nil_append, gatherFactors_of_started hstarted hplain hshort]
  rfl

/-- Operands that are fixed points are simplified to themselves. -/
lemma operands_of_fixed {c : Chain}
    (h : ∀ x ∈ c.operands e, simplify x = .ok x ∧ c.operands x = [x]) :
    Rules.operands c e = .ok (c.operands e) := by
  have hmap : (c.operands e).mapM simplify = .ok (c.operands e) := by
    generalize c.operands e = es at h
    induction es with
    | nil => rfl
    | cons x es ih =>
      rw [List.mapM_cons, (h x (by simp)).1, ih fun y hy => h y (by simp [hy])]
      rfl
  rw [Rules.operands, hmap]
  exact congrArg Except.ok (Chain.flatMap_operands fun x hx => (h x hx).2)

/-- An expression that takes a minus sign is a factor that is no number and has no sign. -/
lemma spec_of_takesSign (h : takesSign e) :
    Chain.product.moves e = false ∧ Chain.sum.operands e = [e] ∧
    Chain.product.operands e = [e] := by
  cases e <;> first | exact ⟨rfl, rfl, rfl⟩ | cases h

lemma spec_of_neg_one {c : Number} (h : c.exactValue? = some (-1)) :
    c.isZero = false ∧ (c == .integer (-1)) = true ∧ c.rounded = c ∧ c.refuseLong = .ok () := by
  have hz : c.isZero = false := by
    rw [Bool.eq_false_iff, Ne, Number.isZero_iff h]
    decide
  have hneg : (c == .integer (-1)) = true := (Number.beq_iff h (y := -1) rfl).2 rfl
  rcases Number.exactValue?_eq_some_iff.1 h with ⟨m, rfl, -⟩ | rfl
  · exact ⟨hz, hneg, rfl, rfl⟩
  · exact ⟨hz, hneg, rfl, rfl⟩

lemma unlike_singleton_of_takesSign (h : takesSign e) (hk : e.likeKey = .ok k) :
    Unlike factorKey [e] ∧ refuseLongConstant (splitExponent e).2 = .ok () := by
  have hkey : (∃ k, factorKey e = .ok k) ∧ refuseLongConstant (splitExponent e).2 = .ok () := by
    cases e with
    | var x => exact ⟨⟨k, hk⟩, rfl⟩
    | log b a => exact ⟨⟨k, hk⟩, rfl⟩
    | pow b p =>
      obtain ⟨hb, kp, hp⟩ := Expr.exists_likeKey_of_pow hk
      exact ⟨hb, refuseLongConstant_of_likeKey hp⟩
    | _ => cases h
  exact ⟨⟨by simpa using hkey.1, List.pairwise_singleton _ _⟩, hkey.2⟩

/-- A variable, a power or a logarithm with a key takes a minus sign in place of the factor minus
one. -/
lemma simplify_neg_one_mul {c : Number} (hc : c.exactValue? = some (-1)) (hsign : takesSign e)
    (hn : e.Normal) (he : simplify e = .ok e) (hk : e.likeKey = .ok k) :
    simplify (.mul (.const c) e) = .ok (.neg e) := by
  obtain ⟨hz, hneg, hrounded, hlong⟩ := spec_of_neg_one hc
  obtain ⟨hm, -, hops⟩ := spec_of_takesSign hsign
  obtain ⟨hunlike, hshort⟩ := unlike_singleton_of_takesSign hsign hk
  have hrest : [Expr.const c, e].filterMap Chain.product.rest? = [e] := by
    rw [List.filterMap_cons, List.filterMap_cons, Chain.rest?_of_not_moves hm]
    rfl
  have hfold : [Expr.const c, e].foldl Chain.product.shift 1 = c := by
    rw [List.foldl_cons, List.foldl_cons, Chain.shift_of_not_moves hm]
    exact (Number.one_mul_eq c).trans hrounded
  have hchain : Chain.product.operands (.mul (.const c) e) = [.const c, e] := by
    rw [Chain.operands_product_mul, hops]
    rfl
  have hoperands : Rules.operands .product (.mul (.const c) e) = .ok [.const c, e] := by
    rw [operands_of_fixed, hchain]
    rw [hchain]
    simpa using ⟨⟨simplify_const _, rfl⟩, he, hops⟩
  rw [simplify_mul, hoperands]
  show Rules.product [.const c, e] = _
  rw [product_of_unlike, hrest, hfold]
  · have hlong : Gathered.refuseLong ⟨c, [e]⟩ = .ok () := hlong
    have hproduct : Gathered.toProduct ⟨c, [e]⟩ = .neg e := by
      simp [Gathered.toProduct, hz, hneg, hsign]
    rw [hlong, hproduct]
    rfl
  · intro d hd
    rcases List.mem_cons.1 hd with hd | hd
    · cases hd
      exact hz
    · rw [← List.mem_singleton.1 hd] at hm
      cases hm
  · rwa [hrest]
  · rw [hrest]
    simpa using isPlainFactor_of_normal ⟨hn, hops⟩ hm
  · rw [hrest]
    simpa using hshort

/-! ### Terms -/

lemma splitCoefficient_of_normal (h : e.Normal) : splitCoefficient e = (e, 1) ∨
    (∃ c r, e = .mul (.const c) r) ∨ ∃ x, e = .neg x := by
  unfold splitCoefficient
  split
  · exact .inr (.inl ⟨_, _, rfl⟩)
  · next l c _ =>
    -- a number is at the front of a product only
    exact absurd (h.2.2.2.tail (.const c) (by simp [Chain.operands])) (by simp [Expr.isConstant])
  · exact .inr (.inr ⟨_, rfl⟩)
  · exact .inl rfl

/-- A term in normal form that is collected alone becomes itself again. -/
lemma toTerm_start (h : e.Normal) (he : simplify e = .ok e)
    (hpart : ∀ x, e = .neg x → simplify x = .ok x) (hk : termKey e = .ok k) :
    (termCollector.start k e).coefficient.isZero = false ∧
      Rules.toTerm (termCollector.start k e) = .ok e := by
  rcases splitCoefficient_of_normal h with hsplit | ⟨c, r, rfl⟩ | ⟨x, rfl⟩
  · rw [Rules.toTerm]
    simp only [termCollector, hsplit]
    exact ⟨rfl, rfl⟩
  · obtain ⟨hz, hone, hrounded, -⟩ := h.2.2.2.head c _ rfl
    have hcoefficient : (termCollector.start k (.mul (.const c) r)).coefficient = c :=
      (Number.zero_add_eq c).trans hrounded
    rw [Rules.toTerm, hcoefficient, hone]
    exact ⟨hz, he⟩
  · exact ⟨rfl, simplify_neg_one_mul rfl h.1 h.2 (hpart x rfl) hk⟩

lemma gatherTerms_of_started {ts : List LikeTerms} {c : Number} (h : termCollector.Started ts es)
    (hc : ∀ e ∈ es, e.isConstant = false)
    (hes : ∀ e ∈ es, ∀ k, termKey e = .ok k → (termCollector.start k e).coefficient.isZero = false ∧
      Rules.toTerm (termCollector.start k e) = .ok e) :
    Rules.gatherTerms ⟨c, ts⟩ = .ok ⟨c, es⟩ := by
  have hfilter : ts.filter (fun t => !t.coefficient.isZero) = ts := by
    refine List.filter_eq_self.2 fun t ht => ?_
    obtain ⟨e, he, k, hk, rfl⟩ := h.exists_of_mem ht
    rw [(hes e he k hk).1]
    rfl
  have hmap : ts.mapM Rules.toTerm = .ok es := h.mapM fun e he k hk => (hes e he k hk).2
  rw [Rules.gatherTerms, hfilter, hmap]
  exact congrArg Except.ok (Gathered.foldl_add _ hc)

lemma not_isConstant_of_mem_rest (h : e ∈ es.filterMap Chain.sum.rest?) : e.isConstant = false := by
  obtain ⟨x, -, hx⟩ := List.mem_filterMap.1 h
  cases x with
  | const c => cases hx
  | _ => cases hx; rfl

/-- A sum of unlike terms in normal form. -/
lemma sum_of_unlike (hunlike : Unlike termKey (es.filterMap Chain.sum.rest?))
    (hes : ∀ e ∈ es.filterMap Chain.sum.rest?, e.Normal ∧ simplify e = .ok e ∧
      ∀ x, e = .neg x → simplify x = .ok x) :
    Rules.sum es =
      .ok (Gathered.toSum ⟨es.foldl Chain.sum.shift 0, es.filterMap Chain.sum.rest?⟩) := by
  obtain ⟨ts, hts, hstarted⟩ := Collector.collect_of_unlike (C := termCollector) []
    hunlike (by simp)
  have hterms : ∀ e ∈ es.filterMap Chain.sum.rest?, ∀ k, termKey e = .ok k →
      (termCollector.start k e).coefficient.isZero = false ∧
        Rules.toTerm (termCollector.start k e) = .ok e := by
    intro e he k hk
    obtain ⟨hn, hfix, hpart⟩ := hes e he
    exact toTerm_start hn hfix hpart hk
  rw [Rules.sum, foldlM_add_eq, hts]
  show (do return (← Rules.gatherTerms ⟨_, [] ++ ts⟩).toSum) = _
  rw [List.nil_append,
    gatherTerms_of_started hstarted (fun e he => not_isConstant_of_mem_rest he) hterms]
  rfl

/-! ### Chains in normal form -/

lemma isConstant_of_moves {c : Chain} (h : IsNormalChain c es) :
    ∀ e ∈ es, c.moves e → e.isConstant := by
  intro e he hm
  cases e with
  | const d => rfl
  | neg x =>
    cases c with
    | sum => cases hm
    | product => exact absurd he (IsNormalProduct.unsigned h x)
  | _ => cases c <;> cases hm

lemma not_isConstant_of_tail {c : Chain} (h : IsNormalChain c es) :
    ∀ e ∈ es.tail, e.isConstant = false := by
  cases c with
  | sum => exact IsNormalSum.tail h
  | product => exact IsNormalProduct.tail h

/-- Only the head of a chain in normal form may change its constant, and then is a number. -/
lemma head_of_isNormalChain {c : Chain} (h : IsNormalChain c es) :
    (∀ e ∈ es, c.moves e = false) ∨
      ∃ d es', es = .const d :: es' ∧ ∀ e ∈ es', c.moves e = false := by
  cases es with
  | nil => exact .inl (by simp)
  | cons e es =>
    have hes : ∀ x ∈ es, c.moves x = false := by
      intro x hx
      by_contra hm
      have hconst := isConstant_of_moves h x (by simp [hx]) (by simpa using hm)
      rw [not_isConstant_of_tail h x hx] at hconst
      cases hconst
    match hm : c.moves e with
    | true =>
      obtain ⟨d, rfl⟩ := Expr.eq_const_of_isConstant (isConstant_of_moves h e (by simp) hm)
      exact .inr ⟨d, es, rfl, hes⟩
    | false => exact .inl (by simpa using ⟨hm, hes⟩)

lemma toSum_zero (hne : es ≠ []) : Gathered.toSum ⟨0, es⟩ = Chain.sum.build es := by
  match es with
  | e :: es => rfl

lemma toSum_const {d : Number} (hz : d.isZero = false) (hne : es ≠ []) :
    Gathered.toSum ⟨d, es⟩ = Chain.sum.build (.const d :: es) := by
  match es with
  | e :: es => exact if_neg (by simp [hz])

/-- A sum of operands in normal form that are simplified already is built from them. -/
lemma sum_of_normal (h : IsNormalSum es) (hlen : 2 ≤ es.length) (hes : ∀ e ∈ es, e.Normal ∧
    simplify e = .ok e ∧ ∀ x, e = .neg x → simplify x = .ok x) :
    Rules.sum es = .ok (Chain.sum.build es) := by
  have hfilter := Chain.filterMap_rest?_eq_filter (isConstant_of_moves (c := .sum) h)
  rw [sum_of_unlike (hfilter ▸ h.unlike) fun e he => hes e (List.mem_of_mem_filter (hfilter ▸ he))]
  rcases head_of_isNormalChain (c := .sum) h with hm | ⟨d, es, rfl, hm⟩
  · have hne : es ≠ [] := by
      rintro rfl
      simp at hlen
    rw [Chain.filterMap_rest?_of_not_moves hm, Chain.foldl_shift_of_not_moves hm, toSum_zero hne]
  · obtain ⟨hz, hrounded⟩ := h.head d es rfl
    have hne : es ≠ [] := by
      rintro rfl
      simp at hlen
    have hrest : (Expr.const d :: es).filterMap Chain.sum.rest? = es :=
      Chain.filterMap_rest?_of_not_moves hm
    have hfold : (Expr.const d :: es).foldl Chain.sum.shift 0 = d := by
      rw [List.foldl_cons, Chain.foldl_shift_of_not_moves hm]
      exact (Number.zero_add_eq d).trans hrounded
    rw [hrest, hfold, toSum_const hz hne]

lemma toProduct_one (hne : es ≠ []) : Gathered.toProduct ⟨1, es⟩ = Chain.product.build es := by
  have hz : (1 : Number).isZero = false := rfl
  have hneg : ((1 : Number) == .integer (-1)) = false := rfl
  have hone : (1 : Number).isOne = true := rfl
  match es with
  | e :: es => simp [Gathered.toProduct, hz, hneg, hone]

lemma toProduct_const {d : Number} (h : IsNormalProduct (.const d :: es)) (hne : es ≠ []) :
    Gathered.toProduct ⟨d, es⟩ = Chain.product.build (.const d :: es) := by
  obtain ⟨hz, hone, -, -⟩ := h.head d es rfl
  match es with
  | e :: es =>
    have hsign : (d == .integer (-1) && es.isEmpty && takesSign e) = false := by
      by_contra hsign
      simp only [Bool.not_eq_false, Bool.and_eq_true, List.isEmpty_iff] at hsign
      obtain ⟨⟨hneg, rfl⟩, hsign⟩ := hsign
      rw [h.sign d e rfl hneg] at hsign
      cases hsign
    simp [Gathered.toProduct, hz, hsign, hone]

/-- A product of operands in normal form is built from them. -/
lemma product_of_normal (h : IsNormalProduct es) (hlen : 2 ≤ es.length)
    (hes : ∀ e ∈ es, e.NormalOperand .product) :
    Rules.product es = .ok (Chain.product.build es) := by
  have hfilter := Chain.filterMap_rest?_eq_filter (isConstant_of_moves (c := .product) h)
  have hrest : ∀ e ∈ es.filterMap Chain.product.rest?, e ∈ es ∧ Chain.product.moves e = false := by
    rw [hfilter]
    intro e he
    obtain ⟨hmem, hc⟩ := List.mem_filter.1 he
    refine ⟨hmem, ?_⟩
    by_contra hm
    simp [isConstant_of_moves (c := .product) h e hmem (by simpa using hm)] at hc
  have hz : ∀ c, .const c ∈ es → c.isZero = false := by
    intro c hc
    rcases head_of_isNormalChain (c := .product) h with hm | ⟨d, es, rfl, hm⟩
    · cases hm _ hc
    · rcases List.mem_cons.1 hc with hc | hc
      · cases hc
        exact (h.head _ _ rfl).1
      · cases hm _ hc
  rw [product_of_unlike hz (hfilter ▸ h.unlike)
    (fun e he => isPlainFactor_of_normal (hes e (hrest e he).1) (hrest e he).2)
    (fun e he => h.short e (hrest e he).1)]
  rcases head_of_isNormalChain (c := .product) h with hm | ⟨d, es, rfl, hm⟩
  · have hne : es ≠ [] := by
      rintro rfl
      simp at hlen
    rw [Chain.filterMap_rest?_of_not_moves hm, Chain.foldl_shift_of_not_moves hm, toProduct_one hne,
      Gathered.refuseLong]
    split <;> rfl
  · obtain ⟨-, -, hrounded, hlong⟩ := h.head d es rfl
    have hne : es ≠ [] := by
      rintro rfl
      simp at hlen
    have hrest : (Expr.const d :: es).filterMap Chain.product.rest? = es :=
      Chain.filterMap_rest?_of_not_moves hm
    have hfold : (Expr.const d :: es).foldl Chain.product.shift 1 = d := by
      rw [List.foldl_cons, Chain.foldl_shift_of_not_moves hm]
      exact (Number.one_mul_eq d).trans hrounded
    rw [hrest, hfold, toProduct_const h hne, Gathered.refuseLong]
    split
    · rfl
    · rw [hlong]
      rfl

lemma chain_of_normal {c : Chain} (h : IsNormalChain c es) (hlen : 2 ≤ es.length)
    (hes : ∀ e ∈ es, e.NormalOperand c)
    (hfix : ∀ e ∈ es, simplify e = .ok e ∧ ∀ x, e = .neg x → simplify x = .ok x) :
    Rules.chain c es = .ok (c.build es) := by
  cases c with
  | sum => exact sum_of_normal h hlen fun e he => ⟨(hes e he).1, hfix e he⟩
  | product => exact product_of_normal h hlen hes

lemma power_of_normal {b p : Expr} (h : IsNormalPower b p) : Rules.power b p = .ok (.pow b p) := by
  have hpowerOf : Rules.powerOf b p = .ok (.pow b p) := by
    cases b with
    | pow b' q => exact absurd rfl (h.base b' q)
    | const c =>
      cases p with
      | const d =>
        obtain ⟨s, t, hst⟩ := h.notReal c d rfl rfl
        simp only [Rules.powerOf, constantPower, hst]
      | _ => rfl
    | _ => rfl
  cases p with
  | const c =>
    obtain ⟨hone, hz⟩ := h.exponent c rfl
    simp only [Rules.power, hone, hz]
    exact hpowerOf
  | _ => exact hpowerOf

end Simplify

lemma simplify_node_of_normal {c : Chain} {l r : Expr} (h : (c.node l r).Normal)
    (ih : ∀ x : Expr, x.Normal → x.rank < (c.node l r).rank → simplify x = .ok x) :
    simplify (c.node l r) = .ok (c.node l r) := by
  obtain ⟨hparts, hbuild⟩ := h.operands c
  have hfix : ∀ x ∈ c.operands (c.node l r), simplify x = .ok x ∧
      ∀ y, x = .neg y → simplify y = .ok y := by
    intro x hx
    have hlt := Chain.rank_lt_of_mem_operands hx
    refine ⟨ih x (hparts x hx).1 hlt, ?_⟩
    rintro y rfl
    refine ih y (hparts _ hx).1.2 (Nat.lt_trans ?_ hlt)
    have hy := y.two_le_rank
    simp only [Expr.rank]
    omega
  rw [simplify_node, operands_of_fixed fun x hx => ⟨(hfix x hx).1, (hparts x hx).2⟩]
  show Rules.chain c (c.operands (c.node l r)) = .ok (c.node l r)
  rw [chain_of_normal h.isNormalChain (c.two_le_length_operands l r) hparts hfix, hbuild]

/-- What is in normal form is simplified already. -/
theorem simplify_of_normal (h : e.Normal) : simplify e = .ok e := by
  induction hn : e.rank using Nat.strong_induction_on generalizing e with
  | h n ih =>
    have ih (x : Expr) (hx : x.Normal) (hlt : x.rank < e.rank) : simplify x = .ok x :=
      ih x.rank (hn ▸ hlt) hx rfl
    cases e with
    | const c => exact simplify_const c
    | var x => exact simplify_var x
    | add l r => exact simplify_node_of_normal (c := .sum) h ih
    | sub l r => exact h.elim
    | mul l r => exact simplify_node_of_normal (c := .product) h ih
    | div n d =>
      rw [simplify_div, ih n h.1 (by simp only [Expr.rank]; omega),
        ih d h.2.1 (by simp only [Expr.rank]; omega)]
      show quotient n d = .ok (.div n d)
      have hconst := h.2.2
      cases n <;> cases d <;> first | rfl | cases hconst
    | pow b p =>
      rw [simplify_pow, ih b h.1 (Expr.rank_base_lt_pow b p),
        ih p h.2.1 (Expr.rank_exponent_lt_pow b p)]
      exact power_of_normal h.2.2
    | log b a =>
      rw [simplify_log, ih b h.1 (by simp only [Expr.rank]; omega),
        ih a h.2 (by simp only [Expr.rank]; omega)]
      rfl
    | neg x =>
      have hx := x.two_le_rank
      rw [simplify_neg, ih x h.2 (by simp only [Expr.rank]; omega)]
      cases x <;> first | rfl | cases h.1
    | other m k es => exact h.elim

end SymbolicAlgebra
