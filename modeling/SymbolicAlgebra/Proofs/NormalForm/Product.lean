import SymbolicAlgebra.Proofs.NormalForm.Collection
import SymbolicAlgebra.Proofs.NumberEquality
import SymbolicAlgebra.Proofs.Rules

/-!
# Products that lose no rank

The collector of factors, and what a product is whose rank is that of its operands
(`product_exact_of_size_eq`).
-/

namespace SymbolicAlgebra.Simplify

variable {es : List Expr} {e k r : Expr} {s s' : CollectedProduct}

/-- What like factors are worth: the exponent one stands for no exponent at all, but not over
numbers. -/
def LikeFactors.worth (f : LikeFactors) : Nat :=
  match f.exponents with
  | [p] => if p == .const 1 && 5 ≤ f.base.rank then f.base.rank else (Expr.pow f.base p).rank
  | ps => (Expr.pow f.base (Chain.sum.build ps)).rank

lemma LikeFactors.worth_singleton (key base p : Expr) : worth ⟨key, base, [p]⟩ =
    if p == .const 1 && 5 ≤ base.rank then base.rank else (Expr.pow base p).rank :=
  rfl

/-- The collector of factors. -/
def factorCollector : Collector LikeFactors where
  chain := .product
  key := factorKey
  keyOf := LikeFactors.key
  start k e := ⟨k, (splitExponent e).1, [(splitExponent e).2]⟩
  keyOf_start _ _ := rfl
  push e f := { f with exponents := f.exponents ++ [(splitExponent e).2] }
  worth := LikeFactors.worth

lemma factors_insert (k e : Expr) (fs : List LikeFactors) :
    factorCollector.insert k e fs = addFactor k (splitExponent e).1 (splitExponent e).2 fs := by
  induction fs with
  | nil => rfl
  | cons f fs ih => rw [Collector.insert, addFactor, ih]; rfl

lemma CollectedProduct.addFactor_eq_add (s : CollectedProduct) (e : Expr) :
    s.addFactor e = (do return { s with factors := ← factorCollector.add s.factors e }) := by
  rw [CollectedProduct.addFactor, Collector.add, bind_assoc]
  simp only [pure_bind, factors_insert]
  rfl

lemma not_moves_of_ne (hc : ∀ c, e ≠ .const c) (hn : ∀ x, e ≠ .neg x) :
    Chain.product.moves e = false := by
  cases e with
  | const c => exact absurd rfl (hc c)
  | neg x => exact absurd rfl (hn x)
  | _ => rfl

/-- Without a zero among them, the constants and the factors are collected apart. -/
lemma collectFactors_eq (s : CollectedProduct) (hz : ∀ c, .const c ∈ es → c.isZero = false) :
    collectFactors es s = (do
      let fs ← factorCollector.collect (es.filterMap Chain.product.rest?) s.factors
      return .collected ⟨es.foldl Chain.product.shift s.constant, fs⟩) := by
  induction es generalizing s with
  | nil => rfl
  | cons e es ih =>
    have ih := fun s => ih s fun c hc => hz c (by simp [hc])
    rw [List.foldl_cons, List.filterMap_cons]
    by_cases hc : ∃ c, e = .const c
    · obtain ⟨c, rfl⟩ := hc
      rw [collectFactors, hz c (by simp), ih]
      rfl
    · by_cases hn : ∃ x, e = .neg x
      · obtain ⟨x, rfl⟩ := hn
        rw [collectFactors, CollectedProduct.addFactor_eq_add]
        simp only [Chain.rest?, Chain.shift, Collector.collect_cons, bind_assoc, pure_bind, ih]
      · have hm := not_moves_of_ne (fun c h => hc ⟨c, h⟩) (fun x h => hn ⟨x, h⟩)
        rw [collectFactors_cons es s (fun c h => hc ⟨c, h⟩) (fun x h => hn ⟨x, h⟩),
          Chain.rest?_of_not_moves hm, Chain.shift_of_not_moves hm,
          CollectedProduct.addFactor_eq_add]
        simp only [Collector.collect_cons, bind_assoc, pure_bind, ih]

lemma not_isZero_of_collected (h : collectFactors es s = .ok (.collected s')) :
    ∀ c, .const c ∈ es → c.isZero = false := by
  induction es generalizing s with
  | nil => simp
  | cons e es ih =>
    by_cases hc : ∃ c, e = .const c
    · obtain ⟨c, rfl⟩ := hc
      rw [collectFactors] at h
      split at h
      · cases h
      · next hz =>
        intro d hd
        rcases List.mem_cons.1 hd with hd | hd
        · cases hd
          simpa using hz
        · exact ih h d hd
    · have hrest : ∃ s, collectFactors es s = .ok (.collected s') := by
        by_cases hn : ∃ x, e = .neg x
        · obtain ⟨x, rfl⟩ := hn
          obtain ⟨s₁, -, h⟩ := bind_eq_ok_iff.1 h
          exact ⟨s₁, h⟩
        · rw [collectFactors_cons es s (fun c h => hc ⟨c, h⟩) (fun x h => hn ⟨x, h⟩)] at h
          obtain ⟨s₁, -, h⟩ := bind_eq_ok_iff.1 h
          exact ⟨s₁, h⟩
      obtain ⟨s₁, h⟩ := hrest
      intro d hd
      rcases List.mem_cons.1 hd with hd | hd
      · exact absurd ⟨d, hd.symm⟩ hc
      · exact ih h d hd

lemma contributes_of_isFactor (h : IsFactor e) :
    Contributes (splitExponent e).1 (splitExponent e).2 e.rank := by
  rcases h with ⟨b, p, rfl⟩ | ⟨h5, hsplit⟩
  · exact .inr (Nat.le_refl _)
  · rw [hsplit]
    exact .inl ⟨rfl, h5, Nat.le_refl _⟩

lemma LikeFactors.worth_of_two {f : LikeFactors} (h : 2 ≤ f.exponents.length) :
    f.worth = (Expr.pow f.base (Chain.sum.build f.exponents)).rank := by
  obtain ⟨key, base, exponents⟩ := f
  match exponents with
  | [] => rfl
  | [p] => simp at h
  | _ :: _ :: _ => rfl

lemma LikeFactors.worth_start_le (h : IsFactor e) : (factorCollector.start k e).worth ≤ e.rank := by
  rcases h with ⟨b, p, rfl⟩ | ⟨h5, hsplit⟩
  · show worth ⟨k, b, [p]⟩ ≤ _
    rw [worth_singleton]
    split
    · exact Nat.le_of_lt (Expr.rank_base_lt_pow b p)
    · exact Nat.le_refl _
  · have hstart : factorCollector.start k e = ⟨k, e, [.const 1]⟩ := by
      simp only [factorCollector, hsplit]
    have hone : (Expr.const 1 == .const 1) = true := rfl
    rw [hstart, worth_singleton, hone, decide_eq_true h5]
    exact Nat.le_refl _

/-- The rank of one number is that of any other. -/
lemma LikeFactors.contributes_start (f : LikeFactors) (h : f.exponents.length = 1) :
    ∃ q, q.rank = (Chain.sum.build f.exponents).rank ∧ Contributes f.base q f.worth := by
  obtain ⟨key, base, exponents⟩ := f
  match exponents with
  | [p] =>
    simp only [worth]
    split
    · next hp =>
      simp only [Bool.and_eq_true, decide_eq_true_eq] at hp
      exact ⟨.const 1, (Expr.rank_of_same hp.1).symm, .inl ⟨rfl, hp.2, Nat.le_refl _⟩⟩
    · exact ⟨p, rfl, .inr (Nat.le_refl _)⟩

lemma factors_measured : factorCollector.Measured (fun f => f.key.rank = f.base.rank ∧
    f.exponents ≠ [] ∧ ∃ q, q.rank = (Chain.sum.build f.exponents).rank ∧
      Contributes f.base q f.worth) IsFactor where
  pos {f} h := by
    obtain ⟨-, -, q, -, ⟨-, hb, hw⟩ | hw⟩ := h
    · exact Nat.le_trans (by omega) hw
    · exact Nat.le_trans (Nat.le_of_succ_le (Expr.pow f.base q).two_le_rank) hw
  start {e k} he hk := by
    have hrank : k.rank = (splitExponent e).1.rank := Expr.rank_of_likeKey hk
    exact ⟨⟨hrank, by simp [factorCollector], LikeFactors.contributes_start _ rfl⟩,
      LikeFactors.worth_start_le he⟩
  push {f e k} hf he hk hsame := by
    obtain ⟨hkey, hne, q, hq, hc⟩ := hf
    have hrank : f.base.rank = (splitExponent e).1.rank := by
      have h : f.key.rank = (splitExponent e).1.rank :=
        (Expr.rank_of_same hsame).trans (Expr.rank_of_likeKey hk)
      rw [← hkey, h]
    have hlen := List.length_pos_iff.2 hne
    have htwo : 2 ≤ (factorCollector.push e f).exponents.length := by
      simp only [factorCollector, List.length_append, List.length_singleton]
      omega
    have hworth : (factorCollector.push e f).worth =
        (f.base.rank - 1) * (q.rank + (splitExponent e).2.rank + 1) + 2 := by
      rw [LikeFactors.worth_of_two htwo, Expr.rank, hq]
      simp only [factorCollector, rank_build_append _ hne]
    have hlt := rank_pow_lt_of_two hc (contributes_congr hrank.symm (contributes_of_isFactor he))
    refine ⟨⟨hkey, by simp [factorCollector], _, rfl, .inr ?_⟩, ?_⟩
    · exact Nat.le_of_eq (LikeFactors.worth_of_two htwo).symm
    · show LikeFactors.worth _ < _
      rw [hworth]
      exact hlt

/-! ### Gathering -/

lemma size_le_of_toFactor {f : LikeFactors} (h : Rules.toFactor f = .ok r) :
    Chain.product.size r ≤ factorCollector.worth f := by
  obtain ⟨key, base, exponents⟩ := f
  match exponents with
  | [p] =>
    obtain ⟨_, -, h⟩ := bind_eq_ok_iff.1 h
    obtain rfl := pure_eq_ok_iff.1 h
    simp only [Chain.size, factorCollector, LikeFactors.worth]
    split <;> split
    · exact Nat.le_refl _
    · exact Nat.le_of_lt (Expr.rank_base_lt_pow base p)
    · next hone hboth => simp [hone] at hboth
    · exact Nat.le_refl _
  | [] => exact (reduces_of_simplify h).1
  | _ :: _ :: _ => exact (reduces_of_simplify h).1

lemma size_le_of_gatherFactors {g : Gathered} (h : Rules.gatherFactors s = .ok g) :
    g.size .product ≤
      Chain.product.join (Chain.product.constantSize s.constant)
        (factorCollector.total s.factors) := by
  obtain ⟨es, hes, h⟩ := bind_eq_ok_iff.1 h
  obtain rfl := pure_eq_ok_iff.1 h
  have htotal :=
    Collector.total_le_of_mapM (C := factorCollector) (fun _ _ => size_le_of_toFactor) hes
  have hfold := Gathered.size_foldl_le .product es ⟨s.constant, []⟩
  rw [Gathered.size_start] at hfold
  exact Nat.le_trans hfold (Chain.product.join_mono (Nat.le_refl _) htotal)

lemma size_toProduct_le (g : Gathered) :
    Chain.product.size g.toProduct ≤ max 2 (g.size .product) := by
  unfold Gathered.toProduct
  split
  · exact Nat.le_max_left _ _
  split
  · exact Nat.le_max_left _ _
  next e es hes =>
  refine Nat.le_trans ?_ (Nat.le_max_right _ _)
  rw [Gathered.size, hes]
  split
  · next hneg =>
    simp only [Bool.and_eq_true, List.isEmpty_iff] at hneg
    obtain ⟨⟨hminus, rfl⟩, -⟩ := hneg
    have hone := Number.not_isOne_of_beq_neg_one hminus
    rw [Chain.total_singleton, Chain.constantSize, hone]
    exact Nat.le_refl _
  split
  · rw [Chain.size_build _ (by simp)]
    exact Nat.le_mul_of_pos_left _ (Chain.product.neutral_le_constantSize _)
  · next hone =>
    rw [Chain.size_build _ (by simp), Chain.constantSize, if_neg hone]
    exact Nat.le_refl _

/-- A product contributes no more than its operands. If it contributes as much, at most one operand
was a constant or an opposite, the rests of the others are unlike, and each has been a factor of its
own. -/
theorem product_exact_of_size_eq (h : Rules.product es = .ok r)
    (hfactors : ∀ e ∈ es.filterMap Chain.product.rest?, IsFactor e)
    (hes : 2 < Chain.product.total es) :
    Chain.product.size r ≤ Chain.product.total es ∧ (Chain.product.size r = Chain.product.total es →
      ∃ k fs g, Chain.product.HasOneConstant es k (es.filterMap Chain.product.rest?) ∧
        factorCollector.Started fs (es.filterMap Chain.product.rest?) ∧
        Unlike factorKey (es.filterMap Chain.product.rest?) ∧
        Rules.gatherFactors ⟨k, fs⟩ = .ok g ∧ g.refuseLong = .ok () ∧ r = g.toProduct) := by
  obtain ⟨out, hout, h⟩ := bind_eq_ok_iff.1 h
  cases out with
  | zero c =>
    obtain rfl := Except.ok.inj h
    have hsize : Chain.product.size (.const c) = 2 := rfl
    exact ⟨by omega, by omega⟩
  | collected s =>
    obtain ⟨g, hg, h⟩ := bind_eq_ok_iff.1 h
    obtain ⟨_, hlong, h⟩ := bind_eq_ok_iff.1 h
    obtain rfl := pure_eq_ok_iff.1 h
    rw [collectFactors_eq _ (not_isZero_of_collected hout)] at hout
    obtain ⟨fs, hfs, hs⟩ := bind_eq_ok_iff.1 hout
    obtain rfl := ProductOutcome.collected.inj (pure_eq_ok_iff.1 hs)
    obtain ⟨hle, hexact⟩ := factors_measured.exact_of_total_eq hfactors hfs
    have hsize : g.size .product ≤ Chain.product.total es :=
      Nat.le_trans (size_le_of_gatherFactors hg) hle
    have hr := size_toProduct_le g
    refine ⟨by omega, fun heq => ?_⟩
    have hge : Chain.product.total es ≤ g.size .product := by omega
    have hfull := Nat.le_antisymm hle (Nat.le_trans hge (size_le_of_gatherFactors hg))
    obtain ⟨hconst, hstarted, hunlike⟩ := hexact hfull
    exact ⟨_, fs, g, hconst, hstarted, hunlike, hg, hlong, rfl⟩

end SymbolicAlgebra.Simplify
