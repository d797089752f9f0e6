import SymbolicAlgebra.Proofs.Collectible.Sum

/-!
# Products of collectible factors

Powers of collectible expressions in normal form, and products of such operands, are in normal form
(`power_isReady`, `product_isReady`). Where the exponents of like factors are worked out to one,
their base is a variable, a logarithm, a number or a quotient, and so is no chain of factors.
-/

namespace SymbolicAlgebra.Simplify

open SymbolicAlgebra.Expr

variable {b e p q r x : Expr} {k : Number} {es ps rs : List Expr}

/-! ### Powers -/

/-- What becomes of a power: a number, the base if it is no chain, or the power as it is. -/
inductive PowerOutcome (b p : Expr) : Expr → Prop
  | constant {c : Number} (hc : c.isExact) : PowerOutcome b p (.const c)
  | base (hb : b.baseKind ≠ .composite) (hc : b.isConstant = false) : PowerOutcome b p b
  | power (h : IsNormalPower b p) : PowerOutcome b p (.pow b p)

lemma powerOf_outcome (hb : b.IsReady) (ht : b.TakesExponent p) (hbase : ∀ b' q, b ≠ .pow b' q)
    (hp : ∀ c, p = .const c → c.isOne = false ∧ c.isZero = false) (h : Rules.powerOf b p = .ok r) :
    PowerOutcome b p r := by
  unfold Rules.powerOf at h
  split at h
  · next b' q => exact absurd rfl (hbase b' q)
  · next b p =>
    have hexact := constantPower_isExact (p := p) hb.collectible ⟨ht.1, ht.2⟩ h
    unfold constantPower at h
    split at h
    · obtain rfl := Except.ok.inj h
      exact .constant hexact
    · next s t hst =>
      obtain rfl := Except.ok.inj h
      refine .power ⟨hp, by simp, ?_⟩
      rintro c d ⟨⟩ ⟨⟩
      exact ⟨s, t, hst⟩
    · cases h
  · next hconst =>
    obtain rfl := Except.ok.inj h
    exact .power ⟨hp, hbase, fun c d hc hd => absurd hd (hconst c d hc)⟩

/-- A base that is no power, with an exponent. -/
lemma power_outcome (hb : b.IsReady) (ht : b.TakesExponent p) (hbase : ∀ b' q, b ≠ .pow b' q)
    (h : Rules.power b p = .ok r) : PowerOutcome b p r := by
  unfold Rules.power at h
  split at h
  · next c =>
    split at h
    · next hone =>
      obtain rfl := Except.ok.inj h
      by_cases hc : b.isConstant
      · obtain ⟨d, rfl⟩ := eq_const_of_isConstant hc
        exact .constant hb.collectible
      · exact .base (ht.not_composite hone) (by simpa using hc)
    · split at h
      · obtain rfl := Except.ok.inj h
        exact .constant rfl
      · next hone hz =>
        refine powerOf_outcome hb ht hbase ?_ h
        rintro d ⟨⟩
        exact ⟨by simpa using hone, by simpa using hz⟩
  · next hp => exact powerOf_outcome hb ht hbase (fun c hc => absurd hc (hp c)) h

lemma isSumLike_of_not_composite (h : b.baseKind ≠ .composite) : b.isSumLike = false := by
  cases b <;> first | rfl | exact absurd rfl h

lemma PowerOutcome.isReady (h : PowerOutcome b p r) (hb : b.IsReady) (hp : p.IsReady)
    (ht : b.TakesExponent p) : r.IsReady ∧ r.isSumLike = false := by
  cases h with
  | constant hc => exact ⟨⟨trivial, hc⟩, rfl⟩
  | base hkind => exact ⟨hb, isSumLike_of_not_composite hkind⟩
  | power h => exact ⟨⟨⟨hb.normal, hp.normal, h⟩, hb.collectible, hp.collectible, ht⟩, rfl⟩

lemma isReady_of_isWholeConstant (h : e.IsWholeConstant) : e.IsReady := by
  cases e with
  | const c => exact ⟨trivial, h.1⟩
  | _ => exact h.elim

/-- A power of collectible expressions in normal form is one in normal form. -/
theorem power_isReady (hb : b.IsReady) (hp : p.IsReady) (ht : b.TakesExponent p)
    (h : Rules.power b p = .ok r) : r.IsReady ∧ r.isSumLike = false := by
  by_cases hpow : ∃ b' q, b = .pow b' q
  · obtain ⟨b', q, rfl⟩ := hpow
    obtain ⟨hbn, hqn, hnp⟩ := hb.normal
    obtain ⟨hbc, hqc, htq⟩ := hb.collectible
    obtain ⟨hexact, hmultiple⟩ : (Expr.pow b' q).IsExactWith IsWholeTree ∧ p.IsMultiple := ht
    have hpowerOf (h : Rules.powerOf (.pow b' q) p = .ok r) : r.IsReady ∧ r.isSumLike = false := by
      -- the exponents are multiplied, and their product is an exponent of the inner base
      obtain ⟨s, hs, h⟩ := bind_eq_ok_iff.1 h
      have hwhole : (Expr.mul p q).IsWholeTree := ⟨hmultiple.whole, hexact.2.2⟩
      have hready := isReady_of_isWholeConstant (hwhole.of_simplify hs)
      have htakes := (htq.mul hmultiple).of_simplify hs
      rw [simplify_pow, simplify_of_normal hbn, simplify_of_normal hready.normal] at h
      exact (power_outcome ⟨hbn, hbc⟩ htakes hnp.base h).isReady ⟨hbn, hbc⟩ hready htakes
    unfold Rules.power at h
    split at h
    · next c =>
      split at h
      · next hone => simp [hmultiple.not_isOne] at hone
      · split at h
        · obtain rfl := Except.ok.inj h
          exact ⟨⟨trivial, rfl⟩, rfl⟩
        · exact hpowerOf h
    · exact hpowerOf h
  · exact (power_outcome hb ht (fun b' q heq => hpow ⟨b', q, heq⟩) h).isReady hb hp ht

/-- The exponents of like factors are worked out to one in normal form. -/
lemma simplify_build_isReady (hps : ∀ p ∈ ps, p.IsReady) (hlen : 2 ≤ ps.length)
    (h : simplify (Chain.sum.build ps) = .ok r) : r.IsReady := by
  have hne : ps ≠ [] := List.ne_nil_of_length_pos (by omega)
  have hops : ∀ x ∈ Chain.sum.operands (Chain.sum.build ps), x.IsReadyOperand .sum := by
    intro x hx
    rw [Chain.operands_build _ hne] at hx
    obtain ⟨p, hp, hx⟩ := List.mem_flatMap.1 hx
    exact (hps p hp).mem_operands (by simp) hx
  match ps with
  | p :: q :: ps =>
    have hbuild : Chain.sum.build (p :: q :: ps) = Chain.sum.node p (Chain.sum.link q ps) := rfl
    rw [hbuild, simplify_node, ← hbuild, operands_of_fixed fun x hx =>
      ⟨simplify_of_normal (hops x hx).normal.1, (hops x hx).normal.2⟩] at h
    exact sum_isReady hops h

/-! ### Factors -/

/-- A factor that can be collected. -/
structure IsReadyFactor (e : Expr) : Prop where
  operand : e.IsReadyOperand .product
  moves : Chain.product.moves e = false

lemma IsReadyFactor.isPlainFactor (h : IsReadyFactor e) : IsPlainFactor e :=
  isPlainFactor_of_normal h.operand.normal h.moves

/-- Like factors with their key and exponents that their base takes. -/
structure LikeFactors.IsReady (f : LikeFactors) : Prop where
  base : f.base.IsReady
  notPower : ∀ b q, f.base ≠ .pow b q
  key : f.base.likeKey = .ok f.key
  exponents : ∀ p ∈ f.exponents, p.IsReady ∧ f.base.TakesExponent p
  nonempty : f.exponents ≠ []
  alone : ∀ p, f.exponents = [p] → ∃ e, IsReadyFactor e ∧ f = factorCollector.start f.key e

/-- A factor is a power whose base takes its exponent, or takes the exponent one. -/
lemma IsReadyFactor.splitExponent (h : IsReadyFactor e) :
    (Simplify.splitExponent e).1.IsReady ∧ (∀ b q, (Simplify.splitExponent e).1 ≠ .pow b q) ∧
      (Simplify.splitExponent e).2.IsReady ∧
      (Simplify.splitExponent e).1.TakesExponent (Simplify.splitExponent e).2 := by
  obtain ⟨⟨⟨hn, hops⟩, hc, hsum⟩, hm⟩ := h
  have hone : (Expr.const 1).IsReady := ⟨trivial, rfl⟩
  cases e with
  | const c => cases hm
  | neg x => cases hm
  | add l m => cases hsum rfl
  | sub l m => cases hsum rfl
  | mul l m => exact absurd hops (Chain.product.operands_node_ne l m _)
  | other m k es => exact hn.elim
  | pow b p => exact ⟨⟨hn.1, hc.1⟩, hn.2.2.base, ⟨hn.2.1, hc.2.1⟩, hc.2.2⟩
  | var y => exact ⟨⟨hn, hc⟩, by simp [splitExponent], hone, trivial⟩
  | log b a => exact ⟨⟨hn, hc⟩, by simp [splitExponent], hone, trivial⟩
  | div n d => exact ⟨⟨hn, hc⟩, by simp [splitExponent], hone, rfl, rfl⟩

lemma baseKind_eq_of_likeKey {k : Expr} (hb : b.likeKey = .ok k) {b' k' : Expr}
    (hb' : b'.likeKey = .ok k') (h : k == k') : b'.baseKind = b.baseKind := by
  rw [(reordered_likeKey hb).baseKind_eq, baseKind_eq_of_same h,
    (reordered_likeKey hb').baseKind_eq]

lemma isReady_collectFactors {fs : List LikeFactors} (hes : ∀ e ∈ es, IsReadyFactor e)
    (h : factorCollector.collect es [] = .ok fs) :
    factorCollector.Distinct fs ∧ ∀ f ∈ fs, f.IsReady := by
  refine Collector.collect_spec (fun _ _ => rfl) (fun e k he hk => ?_)
    (fun f e k hf he hk hsame => ?_)
    hes (by simp) .nil h
  · obtain ⟨hb, hpow, hp, ht⟩ := he.splitExponent
    refine ⟨hb, hpow, hk, ?_, by simp [factorCollector], fun p _ => ⟨e, he, rfl⟩⟩
    simpa [factorCollector] using ⟨hp, ht⟩
  · obtain ⟨hb, hpow, hp, ht⟩ := he.splitExponent
    have hne : f.exponents ++ [(splitExponent e).2] ≠ [] := by simp
    refine ⟨hf.base, hf.notPower, hf.key, ?_, hne, fun p halone => ?_⟩
    · obtain ⟨p, hmem⟩ := List.exists_mem_of_ne_nil _ hf.nonempty
      have hkind := baseKind_eq_of_likeKey hf.key hk hsame
      have hnew : f.base.TakesExponent (splitExponent e).2 :=
        (hf.exponents p hmem).2.of_baseKind_eq ht hkind
      exact List.forall_mem_append.2 ⟨hf.exponents, List.forall_mem_singleton.2 ⟨hp, hnew⟩⟩
    · have hlen := congrArg List.length halone
      have hpos := List.length_pos_iff.2 hf.nonempty
      simp only [factorCollector, List.length_append, List.length_singleton] at hlen
      omega

/-- A factor that like factors become: a number, or a factor with their key. -/
def IsFactorFor (k r : Expr) : Prop :=
  (∃ c, r = .const c ∧ c.isExact) ∨
    IsReadyFactor r ∧ factorKey r = .ok k ∧ refuseLongConstant (splitExponent r).2 = .ok ()

lemma refuseLongConstant_of_isReady (hp : p.IsReady) : refuseLongConstant p = .ok () := by
  cases p with
  | const c => exact Number.refuseLong_of_isExact hp.collectible
  | _ => rfl

lemma PowerOutcome.isFactorFor (h : PowerOutcome b p r) (hb : b.IsReady) (hp : p.IsReady)
    (ht : b.TakesExponent p) {k : Expr} (hk : b.likeKey = .ok k) : IsFactorFor k r := by
  cases h with
  | constant hc => exact .inl ⟨_, rfl, hc⟩
  | base hkind hc =>
    refine .inr ?_
    cases b with
    | const c => cases hc
    | var | log | div => exact ⟨⟨⟨⟨hb.normal, rfl⟩, hb.collectible, fun _ => rfl⟩, rfl⟩, hk, rfl⟩
    | _ => exact absurd rfl hkind
  | power h =>
    have hn : (Expr.pow b p).Normal := ⟨hb.normal, hp.normal, h⟩
    have hc : (Expr.pow b p).IsCollectible := ⟨hb.collectible, hp.collectible, ht⟩
    exact .inr ⟨⟨⟨⟨hn, rfl⟩, hc, fun _ => rfl⟩, rfl⟩, hk, refuseLongConstant_of_isReady hp⟩

lemma LikeFactors.IsReady.toFactor {f : LikeFactors} (hf : f.IsReady)
    (h : Rules.toFactor f = .ok r) : IsFactorFor f.key r := by
  by_cases hone : ∃ p, f.exponents = [p]
  · obtain ⟨p, hp⟩ := hone
    obtain ⟨e, he, hstart⟩ := hf.alone p hp
    rw [hstart, toFactor_start he.isPlainFactor] at h
    obtain ⟨_, hshort, h⟩ := bind_eq_ok_iff.1 h
    obtain rfl := pure_eq_ok_iff.1 h
    have hkey := hf.key
    rw [hstart] at hkey
    exact .inr ⟨he, hkey, hshort⟩
  · have hlen : 2 ≤ f.exponents.length := by
      match hps : f.exponents with
      | [] => exact absurd hps hf.nonempty
      | [p] => exact absurd ⟨p, hps⟩ hone
      | _ :: _ :: _ => simp
    have hsum : Rules.toFactor f = simplify (.pow f.base (Chain.sum.build f.exponents)) := by
      unfold Rules.toFactor
      split
      · next p hp => exact absurd ⟨p, hp⟩ hone
      · rfl
    rw [hsum, simplify_pow, simplify_of_normal hf.base.normal] at h
    obtain ⟨_, ⟨⟩, h⟩ := bind_eq_ok_iff.1 h
    obtain ⟨s, hs, h⟩ := bind_eq_ok_iff.1 h
    have hready := simplify_build_isReady (fun p hp => (hf.exponents p hp).1) hlen hs
    have htakes : f.base.TakesExponent (Chain.sum.build f.exponents) := by
      match hps : f.exponents with
      | [] => exact absurd hps hf.nonempty
      | p :: ps =>
        have hexponents := fun q hq => (hf.exponents q (hps ▸ hq)).2
        exact takesExponent_link (hexponents p (by simp)) fun q hq => hexponents q (by simp [hq])
    have ht := htakes.of_simplify hs
    exact (power_outcome hf.base ht hf.notPower h).isFactorFor hf.base hready ht hf.key

/-! ### Products -/

/-- Numbers are multiplied when factors are gathered, and the other factors stay in their order. -/
lemma foldl_add_mul (hrs : ∀ c, .const c ∈ rs → c.isExact) {g : Gathered}
    (hg : g.constant.isExact) :
    ∃ k, k.isExact ∧
      rs.foldl (Gathered.add (· * ·)) g = ⟨k, g.operands ++ rs.filter (!·.isConstant)⟩ := by
  induction rs generalizing g with
  | nil => exact ⟨g.constant, hg, by simp⟩
  | cons r rs ih =>
    have hrest : ∀ c, .const c ∈ rs → c.isExact := fun c hc => hrs c (.tail r hc)
    rw [List.foldl_cons]
    by_cases hc : r.isConstant
    · obtain ⟨c, rfl⟩ := eq_const_of_isConstant hc
      have hmul : (g.constant * c).isExact := Number.isExact_mul hg (hrs c List.mem_cons_self)
      obtain ⟨k, hk, heq⟩ := ih (g := ⟨g.constant * c, g.operands⟩) hrest hmul
      exact ⟨k, hk, by simpa [Gathered.add, isConstant] using heq⟩
    · obtain ⟨k, hk, heq⟩ := ih (g := ⟨g.constant, g.operands ++ [r]⟩) hrest hg
      have hadd : g.add (· * ·) r = ⟨g.constant, g.operands ++ [r]⟩ := by
        cases r <;> first | rfl | exact absurd rfl hc
      rw [hadd, List.filter_cons_of_pos (by simpa using hc)]
      exact ⟨k, hk, by simpa using heq⟩

lemma toProduct_isReady (hk : k.isExact) (hrs : ∀ e ∈ rs, e.IsCollectibleOperand .product)
    (hf : AreFactors rs) : (Gathered.toProduct ⟨k, rs⟩).IsReady ∧
      (Gathered.toProduct ⟨k, rs⟩).isSumLike = false := by
  have hrest := Chain.isCollectible_build hrs
  have hops : ∀ e ∈ .const k :: rs, e.IsCollectibleOperand .product :=
    List.forall_mem_cons.2 ⟨⟨hk, fun _ => rfl⟩, hrs⟩
  have hall := Chain.isCollectible_build hops
  unfold Gathered.toProduct
  split
  · exact ⟨⟨trivial, hk⟩, rfl⟩
  next hz =>
  split
  · exact ⟨⟨trivial, hk⟩, rfl⟩
  next e es heq =>
  obtain rfl : rs = e :: es := heq
  split
  · next hsign =>
    simp only [Bool.and_eq_true] at hsign
    have he := hrs e List.mem_cons_self
    exact ⟨⟨⟨hsign.2, (hf.normal e List.mem_cons_self).1⟩, he.1⟩, he.2 rfl⟩
  next hsign =>
  split
  · exact ⟨⟨normal_build hf.normal hf.isNormalProduct (by simp), hrest.1⟩, hrest.2 rfl⟩
  · next hone =>
    have hn : IsNormalProduct (.const k :: e :: es) :=
      hf.isNormalProduct_const (by simpa using hz) (by simpa using hone)
        (Number.rounded_of_isExact hk)
        (Number.refuseLong_of_isExact hk) fun x hx hneg => by
          cases hx
          simpa [hneg] using hsign
    exact ⟨⟨hf.normal_build hn, hall.1⟩, hall.2 rfl⟩

lemma mem_of_collectFactors_zero {s : CollectedProduct} (h : collectFactors es s = .ok (.zero k)) :
    .const k ∈ es := by
  induction es generalizing s with
  | nil => cases h
  | cons e es ih =>
    by_cases hc : ∃ c, e = .const c
    · obtain ⟨c, rfl⟩ := hc
      rw [collectFactors] at h
      split at h
      · cases h
        exact List.mem_cons_self
      · exact .tail _ (ih h)
    · by_cases hn : ∃ u, e = .neg u
      · obtain ⟨u, rfl⟩ := hn
        obtain ⟨s', -, h⟩ := bind_eq_ok_iff.1 h
        exact .tail _ (ih h)
      · rw [collectFactors_cons es s (fun c h => hc ⟨c, h⟩) fun u h => hn ⟨u, h⟩] at h
        obtain ⟨s', -, h⟩ := bind_eq_ok_iff.1 h
        exact .tail _ (ih h)

lemma isReadyFactor_of_mem_rest (hes : ∀ e ∈ es, e.IsReadyOperand .product)
    (h : e ∈ es.filterMap Chain.product.rest?) : IsReadyFactor e := by
  obtain ⟨hn, hm⟩ := normalOperand_of_mem_rest (fun x hx => (hes x hx).normal) h
  obtain ⟨x, hx, hrest⟩ := List.mem_filterMap.1 h
  refine ⟨⟨hn, ?_⟩, hm⟩
  have hc := (hes x hx).collectible
  cases x with
  | const c => cases hrest
  | _ => cases hrest; exact hc

/-- What collected factors are gathered to: an exact constant, and factors with keys that differ. -/
lemma exists_gathered_isReady {fs : List LikeFactors} (hk : k.isExact)
    (hdistinct : factorCollector.Distinct fs) (hready : ∀ f ∈ fs, f.IsReady)
    (hrs : fs.mapM Rules.toFactor = .ok rs) :
    ∃ c es, c.isExact ∧ rs.foldl (Gathered.add (· * ·)) ⟨k, []⟩ = ⟨c, es⟩ ∧
      (∀ e ∈ es, e.IsCollectibleOperand .product) ∧ AreFactors es := by
  have hfactors : List.Forall₂ (fun f r => IsFactorFor f.key r) fs rs :=
    ((List.forall₂_and_left _ _).2 ⟨hready, mapM_eq_ok_iff.1 hrs⟩).imp fun f r hfr =>
      hfr.1.toFactor hfr.2
  have hall : ∀ r ∈ rs, ∃ k, IsFactorFor k r :=
    forall_mem_of_forall₂ hfactors fun f r hr => ⟨f.key, hr⟩
  have hconst : ∀ c, .const c ∈ rs → c.isExact := by
    intro c hc
    obtain ⟨k, ⟨d, hd, hexact⟩ | hr⟩ := hall _ hc
    · cases hd
      exact hexact
    · cases hr.1.moves
  have hrest : ∀ r ∈ rs.filter (!·.isConstant), IsReadyFactor r ∧
      refuseLongConstant (splitExponent r).2 = .ok () := by
    intro r hr
    obtain ⟨hmem, hc⟩ := List.mem_filter.1 hr
    obtain ⟨k, ⟨d, rfl, -⟩ | hr⟩ := hall r hmem
    · cases hc
    · exact ⟨hr.1, hr.2.2⟩
  have hunlike := hdistinct.unlike (hfactors.imp fun f r hr =>
    hr.imp (fun ⟨c, hc, _⟩ => by rw [hc]; rfl) fun hr => hr.2.1)
  obtain ⟨c, hc, hfold⟩ := foldl_add_mul hconst (g := ⟨k, []⟩) hk
  exact ⟨c, rs.filter (!·.isConstant), hc, hfold, fun e he => (hrest e he).1.operand.collectible,
    fun e he => (hrest e he).1.operand.normal, fun e he => (hrest e he).1.moves, hunlike,
    fun e he => (hrest e he).2⟩

/-- A product of collectible operands in normal form is one in normal form, and is no sum. -/
theorem product_isReady (hes : ∀ e ∈ es, e.IsReadyOperand .product) (h : Rules.product es = .ok r) :
    r.IsReady ∧ r.isSumLike = false := by
  obtain ⟨out, hout, h⟩ := bind_eq_ok_iff.1 h
  cases out with
  | zero c =>
    obtain rfl := Except.ok.inj h
    exact ⟨⟨trivial, (hes _ (mem_of_collectFactors_zero hout)).collectible.1⟩, rfl⟩
  | collected s =>
    obtain ⟨g, hg, h⟩ := bind_eq_ok_iff.1 h
    obtain ⟨_, -, h⟩ := bind_eq_ok_iff.1 h
    obtain rfl := pure_eq_ok_iff.1 h
    rw [collectFactors_eq _ (not_isZero_of_collected hout)] at hout
    obtain ⟨fs, hfs, hs⟩ := bind_eq_ok_iff.1 hout
    obtain rfl := ProductOutcome.collected.inj (pure_eq_ok_iff.1 hs)
    obtain ⟨rs, hrs, hg⟩ := bind_eq_ok_iff.1 hg
    obtain rfl := pure_eq_ok_iff.1 hg
    obtain ⟨hdistinct, hready⟩ :=
      isReady_collectFactors (fun e he => isReadyFactor_of_mem_rest hes he) hfs
    have hexact : (es.foldl Chain.product.shift 1).isExact :=
      Chain.isExact_foldl_shift rfl fun d hd => (hes _ hd).collectible.1
    obtain ⟨c, es', hc, hfold, hoperands, hfactors⟩ :=
      exists_gathered_isReady hexact hdistinct hready hrs
    rw [hfold]
    exact toProduct_isReady hc hoperands hfactors

end SymbolicAlgebra.Simplify
