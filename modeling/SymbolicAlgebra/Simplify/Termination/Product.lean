import SymbolicAlgebra.Simplify.Termination.Operands

/-!
# Products settle

The factors of a product are followed through collection and gathering, with account of what they
contribute to the rank of the product. Factors that become one power are worth more than it
(`rank_pow_lt_of_two`, `rank_pow_lt_of_more`): this is what the rank of a power is chosen for.
-/

namespace SymbolicAlgebra.Simplify

open SymbolicAlgebra.Expr Bounded

variable {simp : Expr → Bounded Expr} {n : Nat}

/-- The factor with base `b` and exponent `p` accounts for `w`, where the exponent one stands for
no exponent at all. -/
def Contributes (b p : Expr) (w : Nat) : Prop :=
  p = .const 1 ∧ 5 ≤ b.rank ∧ b.rank ≤ w ∨ (Expr.pow b p).rank ≤ w

/-- Factors become a power of a smaller rank: one more factor is worth more than its exponent. -/
theorem rank_pow_lt_of_more {b p : Expr} {k v w : Nat} (hv : (b.rank - 1) * k + 2 < v)
    (hw : Contributes b p w) : (b.rank - 1) * (k + p.rank + 1) + 2 < v * w := by
  have hb := b.two_le_rank
  have hp := p.two_le_rank
  obtain ⟨β, hβ⟩ : ∃ β, b.rank = β + 1 := ⟨b.rank - 1, by omega⟩
  simp only [Contributes, rank, hβ, Nat.add_sub_cancel] at hv hw ⊢
  rcases hw with ⟨rfl, hb5, hw⟩ | hw <;>
    refine Nat.lt_of_lt_of_le ?_ (Nat.mul_le_mul_left v hw)
  · have := Nat.mul_le_mul_left β hv
    have := Nat.mul_le_mul_right (β * k) (Nat.le_of_succ_le_succ hb5)
    grind [rank]
  · have := Nat.mul_le_mul_right (β * p.rank) hv
    have := Nat.mul_le_mul_left β hp
    have := Nat.zero_le (β * k * (β * p.rank))
    grind

/-- Two factors are worth more than the power that they become. -/
theorem rank_pow_lt_of_two {b p q : Expr} {v w : Nat} (hv : Contributes b p v)
    (hw : Contributes b q w) : (b.rank - 1) * (p.rank + q.rank + 1) + 2 < v * w := by
  have hb := b.two_le_rank
  have hp := p.two_le_rank
  have hq := q.two_le_rank
  obtain ⟨β, hβ⟩ : ∃ β, b.rank = β + 1 := ⟨b.rank - 1, by omega⟩
  simp only [Contributes, rank, hβ, Nat.add_sub_cancel] at hv hw ⊢
  rcases hv with ⟨rfl, hb5, hv⟩ | hv <;> rcases hw with ⟨rfl, hb5', hw⟩ | hw <;>
    refine Nat.lt_of_lt_of_le ?_ (Nat.mul_le_mul hv hw)
  · have := Nat.mul_le_mul_right β (Nat.le_of_succ_le_succ hb5)
    grind [rank]
  · have := Nat.mul_le_mul (Nat.le_of_succ_le_succ hb5) (Nat.le_refl (β * q.rank))
    have := Nat.mul_le_mul_left β hq
    grind [rank]
  · have := Nat.mul_le_mul (Nat.le_of_succ_le_succ hb5') (Nat.le_refl (β * p.rank))
    have := Nat.mul_le_mul_left β hp
    grind [rank]
  · have := Nat.mul_le_mul_left β hp
    have := Nat.mul_le_mul_left β hq
    have := Nat.zero_le (β * p.rank * (β * q.rank))
    grind

theorem contributes_congr {b b' p : Expr} {w : Nat} (hb : b.rank = b'.rank)
    (h : Contributes b p w) : Contributes b' p w := by
  simpa only [Contributes, rank, hb] using h

/-- Collected factors that account for `w`. -/
structure LikeFactors.Fits (f : LikeFactors) (w : Nat) : Prop where
  rank_key : f.key.rank = f.base.rank
  tidy_base : Tidy f.base
  tidy_exponents : ∀ p ∈ f.exponents, Tidy p
  rank_lt : (∃ p, f.exponents = [p] ∧ Contributes f.base p w) ∨
    2 ≤ f.exponents.length ∧ (Expr.pow f.base (Chain.sum.build f.exponents)).rank < w

/-- A sum with one more operand. -/
theorem rank_build_append {ps : List Expr} (p : Expr) (h : ps ≠ []) :
    (Chain.sum.build (ps ++ [p])).rank = (Chain.sum.build ps).rank + p.rank + 1 := by
  have h1 := Chain.sum.size_build h
  have h2 : _ = Chain.sum.total (ps ++ [p]) := Chain.sum.size_build (by simp)
  rw [Chain.total_append, Chain.total_singleton] at h2
  simp only [Chain.size, Chain.join] at h1 h2
  omega

theorem LikeFactors.Fits.push {f : LikeFactors} {v w : Nat} {base p : Expr} (h : f.Fits v)
    (hbase : f.base.rank = base.rank) (hp : Tidy p) (hw : Contributes base p w) :
    LikeFactors.Fits { f with exponents := f.exponents ++ [p] } (v * w) where
  rank_key := h.rank_key
  tidy_base := h.tidy_base
  tidy_exponents q hq := by
    rcases List.mem_append.1 hq with hq | hq
    · exact h.tidy_exponents q hq
    · exact List.mem_singleton.1 hq ▸ hp
  rank_lt := by
    have hw := contributes_congr hbase.symm hw
    right
    rcases h.rank_lt with ⟨q, hq, hv⟩ | ⟨hlen, hv⟩
    · refine ⟨by simp [hq], ?_⟩
      show (Expr.pow f.base (Chain.sum.build (f.exponents ++ [p]))).rank < v * w
      rw [hq]
      exact rank_pow_lt_of_two hv hw
    · have hne : f.exponents ≠ [] := fun h => by simp [h] at hlen
      refine ⟨by simp only [List.length_append]; omega, ?_⟩
      show (Expr.pow f.base (Chain.sum.build (f.exponents ++ [p]))).rank < v * w
      rw [rank, rank_build_append p hne]
      exact rank_pow_lt_of_more hv hw

/-- Collected factors that account for `m` together. -/
def FactorsFit : List LikeFactors → Nat → Prop
  | [], m => 1 ≤ m
  | f :: fs, m => ∃ w k, w * k ≤ m ∧ f.Fits w ∧ FactorsFit fs k

theorem LikeFactors.Fits.one_le {f : LikeFactors} {w : Nat} (h : f.Fits w) : 1 ≤ w := by
  rcases h.rank_lt with ⟨p, -, ⟨-, hb, hw⟩ | hw⟩ | ⟨-, hw⟩
  · omega
  · have := (Expr.pow f.base p).two_le_rank
    omega
  · omega

theorem FactorsFit.one_le {fs : List LikeFactors} {m : Nat} (h : FactorsFit fs m) : 1 ≤ m := by
  induction fs generalizing m with
  | nil => exact h
  | cons f fs ih =>
    obtain ⟨w, k, hwk, hw, hk⟩ := h
    exact Nat.le_trans (Nat.mul_le_mul hw.one_le (ih hk)) hwk

/-- One more factor with its contribution `w`. -/
theorem FactorsFit.addFactor {fs : List LikeFactors} {m w : Nat} {key base p : Expr}
    (h : FactorsFit fs m) (hkey : key.rank = base.rank) (hbase : Tidy base) (hp : Tidy p)
    (hw : Contributes base p w) : FactorsFit (addFactor key base p fs) (m * w) := by
  induction fs generalizing m with
  | nil =>
    refine ⟨w, 1, ?_, ⟨hkey, hbase, by simpa using hp, .inl ⟨p, rfl, hw⟩⟩, Nat.le_refl 1⟩
    exact Nat.mul_comm w 1 ▸ Nat.mul_le_mul_right w h
  | cons f fs ih =>
    obtain ⟨v, k, hvk, hf, hfs⟩ := h
    unfold Simplify.addFactor
    split
    · next hsame =>
      refine ⟨v * w, k, ?_, hf.push ?_ hp hw, hfs⟩
      · exact Nat.mul_right_comm v w k ▸ Nat.mul_le_mul_right w hvk
      · rw [← hf.rank_key, rank_of_same hsame, hkey]
    · refine ⟨v, k * w, ?_, hf, ih hfs⟩
      exact Nat.mul_assoc v k w ▸ Nat.mul_le_mul_right w hvk

/-- An expression that can be a factor by itself: a power, or one of a rank that makes a product of
two of them worth more than a power. -/
def IsFactor (e : Expr) : Prop :=
  (∃ b p, e = .pow b p) ∨ 5 ≤ e.rank ∧ splitExponent e = (e, .const 1)

theorem isFactor_of_takesSign {e : Expr} (h : takesSign e) : IsFactor e := by
  cases e with
  | var x => exact .inr ⟨Nat.le_refl 5, rfl⟩
  | pow b p => exact .inl ⟨b, p, rfl⟩
  | log b a =>
    have := b.two_le_rank
    have := a.two_le_rank
    exact .inr ⟨by simp only [rank]; omega, rfl⟩
  | _ => exact absurd h (by simp [takesSign])

/-- A collected product that accounts for `m`. -/
def CollectedProduct.Fits (s : CollectedProduct) (m : Nat) : Prop :=
  ∃ k j, k * j ≤ m ∧ 1 ≤ k ∧ (s.constant = 1 ∨ 2 ≤ k) ∧ FactorsFit s.factors j

theorem CollectedProduct.Fits.addFactor {s s' : CollectedProduct} {m : Nat} {e : Expr}
    (h : s.Fits m) (he : Tidy e) (hf : IsFactor e) (hs : s.addFactor e = .ok s') :
    s'.Fits (m * e.rank) := by
  obtain ⟨k, j, hkj, h1, hk, hj⟩ := h
  obtain ⟨key, hkey, hs⟩ := bind_eq_ok_iff.1 hs
  obtain rfl := pure_eq_ok_iff.1 hs
  have hmul : k * (j * e.rank) ≤ m * e.rank :=
    Nat.mul_assoc k j e.rank ▸ Nat.mul_le_mul_right e.rank hkj
  refine ⟨k, j * e.rank, hmul, h1, hk, hj.addFactor (rank_of_likeKey hkey) ?_ ?_ ?_⟩
  all_goals
    rcases hf with ⟨b, p, rfl⟩ | ⟨h5, hsplit⟩
  · exact he.1
  · exact hsplit ▸ he
  · exact he.2
  · exact hsplit ▸ trivial
  · exact .inr (Nat.le_refl _)
  · exact hsplit ▸ .inl ⟨rfl, h5, Nat.le_refl _⟩

/-- A constant takes part in a product. -/
theorem CollectedProduct.Fits.setConstant {s : CollectedProduct} {m : Nat} (h : s.Fits m)
    (c : Number) : CollectedProduct.Fits { s with constant := c } (2 * m) := by
  obtain ⟨k, j, hkj, h1, -, hj⟩ := h
  exact ⟨2 * k, j, Nat.mul_assoc 2 k j ▸ Nat.mul_le_mul_left 2 hkj, by omega, .inr (by omega), hj⟩

/-- The operands of a product that has none among its operands. -/
theorem isFactor_of_operands {e : Expr} (hc : ∀ c, e ≠ .const c) (hn : ∀ x, e ≠ .neg x)
    (he : Tidy e) (hm : Chain.product.operands e = [e]) : IsFactor e := by
  cases e with
  | const c => exact absurd rfl (hc c)
  | neg x => exact absurd rfl (hn x)
  | pow b p => exact .inl ⟨b, p, rfl⟩
  | mul l r =>
    rw [Chain.operands_product_mul] at hm
    have hlen := congrArg List.length hm
    have hl := List.length_pos_iff.2 (Chain.product.operands_ne_nil l)
    have hr := List.length_pos_iff.2 (Chain.product.operands_ne_nil r)
    simp only [List.length_append, List.length_singleton] at hlen
    omega
  | other m k es => exact he.elim
  | var x => exact .inr ⟨Nat.le_refl 5, rfl⟩
  | _ l r =>
    have := l.two_le_rank
    have := r.two_le_rank
    exact .inr ⟨by simp only [rank]; omega, rfl⟩

/-- The outcome of collecting factors accounts for `m`. -/
def ProductOutcome.Fits (m : Nat) : ProductOutcome → Prop
  | .zero _ => True
  | .collected s => s.Fits m

theorem ProductOutcome.Fits.mono {out : ProductOutcome} {m m' : Nat} (h : out.Fits m)
    (hm : m ≤ m') : out.Fits m' := by
  cases out with
  | zero c => trivial
  | collected s =>
    obtain ⟨k, j, hkj, hs⟩ := h
    exact ⟨k, j, Nat.le_trans hkj hm, hs⟩

/-- Factors that are neither constants nor opposites are collected as they are. -/
theorem collectFactors_cons {e : Expr} (es : List Expr) (s : CollectedProduct)
    (hc : ∀ c, e ≠ .const c) (hn : ∀ x, e ≠ .neg x) :
    collectFactors (e :: es) s = s.addFactor e >>= collectFactors es := by
  cases e with
  | const c => exact absurd rfl (hc c)
  | neg x => exact absurd rfl (hn x)
  | _ => rfl

theorem collectFactors_fits {es : List Expr} {s : CollectedProduct} {m : Nat} {out : ProductOutcome}
    (h : s.Fits m) (hes : ∀ e ∈ es, Tidy e ∧ Chain.product.operands e = [e])
    (hout : collectFactors es s = .ok out) : out.Fits (m * Chain.product.total es) := by
  induction es generalizing s m with
  | nil =>
    obtain rfl := pure_eq_ok_iff.1 hout
    exact (Nat.mul_one m).symm ▸ h
  | cons e es ih =>
    have he := hes e (by simp)
    have ht := fun x hx => hes x (List.mem_cons_of_mem e hx)
    simp only [Chain.total, Chain.join, Chain.size, ← Nat.mul_assoc]
    by_cases hc : ∃ c, e = .const c
    · obtain ⟨c, rfl⟩ := hc
      unfold collectFactors at hout
      split at hout
      · obtain rfl := pure_eq_ok_iff.1 hout
        trivial
      · exact ih (Nat.mul_comm 2 m ▸ h.setConstant _) ht hout
    · by_cases hn : ∃ x, e = .neg x
      · obtain ⟨x, rfl⟩ := hn
        obtain ⟨s', hs', hout⟩ := bind_eq_ok_iff.1 hout
        have hs' := (h.setConstant _).addFactor he.1.2 (isFactor_of_takesSign he.1.1) hs'
        refine ih ?_ ht hout
        rw [rank, ← Nat.mul_assoc, Nat.mul_comm m 2]
        exact hs'
      · have hc := fun c h => hc ⟨c, h⟩
        have hn := fun x h => hn ⟨x, h⟩
        rw [collectFactors_cons es s hc hn] at hout
        obtain ⟨s', hs', hout⟩ := bind_eq_ok_iff.1 hout
        exact ih (h.addFactor he.1 (isFactor_of_operands hc hn he.1 he.2) hs') ht hout

/-- What was gathered for a product accounts for `m`. -/
def Gathered.FitsProduct (g : Gathered) (m : Nat) : Prop :=
  ∃ k, k * Chain.product.total g.operands ≤ m ∧ 1 ≤ k ∧ (g.constant = 1 ∨ 2 ≤ k) ∧
    ∀ e ∈ g.operands, Tidy e

theorem Gathered.FitsProduct.mono {g : Gathered} {m m' : Nat} (h : g.FitsProduct m) (hm : m ≤ m') :
    g.FitsProduct m' :=
  let ⟨k, hk, hg⟩ := h
  ⟨k, Nat.le_trans hk hm, hg⟩

theorem Gathered.FitsProduct.add {g : Gathered} {m : Nat} {e : Expr} (h : g.FitsProduct m)
    (he : Tidy e) : (g.add (· * ·) e).FitsProduct (m * e.rank) := by
  obtain ⟨k, hk, h1, hg, ht⟩ := h
  unfold Gathered.add
  split
  · refine ⟨k * 2, ?_, by omega, .inr (by omega), ht⟩
    exact Nat.mul_right_comm k 2 _ ▸ Nat.mul_le_mul_right 2 hk
  · refine ⟨k, ?_, h1, hg, fun x hx => ?_⟩
    · simp only [Chain.total_append, Chain.total_singleton, Chain.join, Chain.size]
      exact Nat.mul_assoc k _ e.rank ▸ Nat.mul_le_mul_right e.rank hk
    · rcases List.mem_append.1 hx with hx | hx
      · exact ht x hx
      · exact List.mem_singleton.1 hx ▸ he

theorem toFactor_settles (h : Handles simp n) {f : LikeFactors} {w : Nat} (hf : f.Fits w)
    (hw : w ≤ n + 1) : (f.toFactor simp).Settles fun r => r.rank ≤ w ∧ Tidy r := by
  unfold LikeFactors.toFactor
  rcases hf.rank_lt with ⟨p, hp, hc⟩ | ⟨hlen, hlt⟩
  · have htp := hf.tidy_exponents p (by simp [hp])
    rw [hp]
    refine Settles.bind (P := fun _ => True) (settles_ofExcept fun _ _ => trivial) fun _ _ =>
      settles_pure ?_
    split
    · refine ⟨?_, hf.tidy_base⟩
      rcases hc with ⟨-, -, hc⟩ | hc
      · exact hc
      · exact Nat.le_trans (Nat.le_of_lt (rank_base_lt_pow f.base p)) hc
    · next hone =>
      refine ⟨?_, hf.tidy_base, htp⟩
      rcases hc with ⟨rfl, -⟩ | hc
      · exact absurd rfl hone
      · exact hc
  · split
    · next p hp => simp [hp] at hlen
    · exact (h _ (by omega)).mono fun r hr => ⟨by have := hr.1; omega, hr.2⟩

theorem gatherFactors_settles (h : Handles simp n) {fs : List LikeFactors} {g : Gathered}
    {m k : Nat} (hfs : FactorsFit fs k) (hk : k ≤ n + 1) (hg : g.FitsProduct m) :
    (gatherFactors simp fs g).Settles fun g => g.FitsProduct (m * k) := by
  induction fs generalizing g m k with
  | nil => exact settles_pure (hg.mono (Nat.le_mul_of_pos_right m hfs))
  | cons f fs ih =>
    obtain ⟨w, j, hwj, hf, hfs⟩ := hfs
    have hw : w ≤ w * j := Nat.le_mul_of_pos_right w hfs.one_le
    have hj : j ≤ w * j := Nat.le_mul_of_pos_left j hf.one_le
    refine (toFactor_settles h hf (by omega)).bind fun r hr =>
      (ih hfs (by omega) (hg.add hr.2)).mono fun g hg => hg.mono ?_
    rw [Nat.mul_assoc]
    exact Nat.mul_le_mul_left m (Nat.le_trans (Nat.mul_le_mul_right j hr.1) hwj)

theorem Gathered.FitsProduct.toProduct {g : Gathered} {m : Nat} (h : g.FitsProduct m) (hm : 2 ≤ m) :
    g.toProduct.rank ≤ m ∧ Tidy g.toProduct := by
  obtain ⟨k, hk, h1, hg, ht⟩ := h
  unfold Gathered.toProduct
  split
  · exact ⟨hm, trivial⟩
  split
  · exact ⟨hm, trivial⟩
  next e es hes =>
  rw [hes] at hk ht
  have hsize := @Chain.size_build Chain.product
  simp only [Chain.size] at hsize
  split
  · next hneg =>
    simp only [Bool.and_eq_true, List.isEmpty_iff] at hneg
    obtain ⟨⟨hminus, rfl⟩, hsign⟩ := hneg
    have h2 := hg.resolve_left fun hg => absurd (hg ▸ hminus) (by decide)
    refine ⟨Nat.le_trans (Nat.mul_le_mul_right e.rank h2) ?_, hsign, ht e (by simp)⟩
    rwa [Chain.total_singleton] at hk
  split
  · refine ⟨?_, tidy_build ht⟩
    rw [hsize (by simp)]
    exact Nat.le_trans (Nat.le_mul_of_pos_left _ h1) hk
  · next hone =>
    have h2 := hg.resolve_left fun hg => hone (hg ▸ rfl)
    refine ⟨?_, tidy_build fun x hx => ?_⟩
    · rw [hsize (by simp)]
      exact Nat.le_trans (Nat.mul_le_mul_right _ h2) hk
    · rcases List.mem_cons.1 hx with rfl | hx
      · trivial
      · exact ht x hx

theorem product_settles {l r : Expr} (h : Handles simp n) (hn : n + 1 = (Expr.mul l r).rank) :
    (product simp l r).Settles (Reduces (.mul l r)) := by
  have hl := rank_lt_mul_left l r
  have hr := rank_lt_mul_right l r
  have h2 := (Expr.mul l r).two_le_rank
  refine ((operands_settles h .product (e := l) (by omega)).bind fun es hes =>
    (operands_settles h .product (e := r) (by omega)).bind fun es' hes' =>
      settles_pure (hes.append hes')).bind fun es hes => ?_
  have htotal : Chain.product.total es ≤ n + 1 := hn ▸ hes.total_le
  refine Settles.bind (P := ProductOutcome.Fits (n + 1)) (settles_ofExcept fun out hout => ?_)
    fun out hout => ?_
  · have h0 : CollectedProduct.Fits ⟨1, []⟩ 1 :=
      ⟨1, 1, Nat.le_refl 1, Nat.le_refl 1, .inl rfl, Nat.le_refl 1⟩
    exact (collectFactors_fits h0 hes.tidy hout).mono (Nat.one_mul _ ▸ htotal)
  · cases out with
    | zero c => exact settles_pure ⟨h2, trivial⟩
    | collected s =>
      obtain ⟨k, j, hkj, h1, hk, hj⟩ := hout
      have hjn : j ≤ k * j := Nat.le_mul_of_pos_left j h1
      refine (gatherFactors_settles (m := k) h hj (by omega) ⟨k, ?_, h1, hk, by simp⟩).bind
        fun g hg => Settles.bind (P := fun _ => True) (settles_ofExcept fun _ _ => trivial)
          fun _ _ => settles_pure ?_
      · exact Nat.le_of_eq (Nat.mul_one k)
      · have hg := (hg.mono hkj).toProduct (by omega)
        exact ⟨hn ▸ hg.1, hg.2⟩

end SymbolicAlgebra.Simplify
