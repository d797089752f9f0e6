import SymbolicAlgebra.Proofs.NormalForm.Collection
import SymbolicAlgebra.Proofs.Rules

/-!
# Sums in normal form
-/

namespace SymbolicAlgebra

namespace Simplify

/-- The collector of terms. -/
def termCollector : Collector LikeTerms where
  chain := .sum
  key := termKey
  keyOf := LikeTerms.key
  start k e := ⟨k, (splitCoefficient e).1, 0 + (splitCoefficient e).2⟩
  keyOf_start _ _ := rfl
  push e t := { t with coefficient := t.coefficient + (splitCoefficient e).2 }
  worth t := if t.coefficient.isOne then t.term.rank + 1 else 2 * t.term.rank + 1

variable {es : List Expr} {e r : Expr} {s s' : CollectedSum}

lemma terms_insert (k e : Expr) (ts : List LikeTerms) :
    termCollector.insert k e ts = addTerm k (splitCoefficient e).1 (splitCoefficient e).2 ts := by
  induction ts with
  | nil => rfl
  | cons t ts ih => rw [Collector.insert, addTerm, ih]; rfl

lemma CollectedSum.add_eq_add (s : CollectedSum) (h : e.isConstant = false) :
    s.add e = (do return { s with terms := ← termCollector.add s.terms e }) := by
  have hadd : s.add e = s.addTerm e := by
    cases e with
    | const c => cases h
    | _ => rfl
  rw [hadd, CollectedSum.addTerm, Collector.add, bind_assoc]
  simp only [pure_bind, terms_insert]
  rfl

/-- Constants and terms are collected apart. -/
lemma foldlM_add_eq (es : List Expr) (s : CollectedSum) :
    es.foldlM CollectedSum.add s = (do
      let ts ← termCollector.collect (es.filterMap Chain.sum.rest?) s.terms
      return ⟨es.foldl Chain.sum.shift s.constant, ts⟩) := by
  induction es generalizing s with
  | nil => rfl
  | cons e es ih =>
    rw [List.foldlM_cons, List.foldl_cons, List.filterMap_cons]
    match hc : e.isConstant with
    | true =>
      obtain ⟨c, rfl⟩ := Expr.eq_const_of_isConstant hc
      exact ih _
    | false =>
      have hm : Chain.sum.moves e = false := by cases e <;> first | rfl | cases hc
      rw [Chain.rest?_of_not_moves hm, Chain.shift_of_not_moves hm, s.add_eq_add hc]
      simp only [Collector.collect_cons, bind_assoc, pure_bind, ih]

lemma rank_splitCoefficient (e : Expr) :
    splitCoefficient e = (e, 1) ∨ 2 * (splitCoefficient e).1.rank = e.rank := by
  unfold splitCoefficient
  split
  · exact .inr rfl
  · exact .inr (Nat.mul_comm _ _)
  · exact .inr rfl
  · exact .inl rfl

lemma terms_measured :
    termCollector.Measured (fun t => t.key.rank = t.term.rank) fun _ => True where
  pos _ := by
    simp only [termCollector]
    split <;> omega
  start {e k} _ hk := by
    refine ⟨Expr.rank_of_likeKey hk, ?_⟩
    simp only [termCollector, Chain.size]
    rcases rank_splitCoefficient e with h | h
    · rw [h]
      exact Nat.le_refl _
    · split <;> omega
  push {t e k} ht _ hk hsame := by
    refine ⟨ht, ?_⟩
    have hrank : t.key.rank = (splitCoefficient e).1.rank :=
      (Expr.rank_of_same hsame).trans (Expr.rank_of_likeKey hk)
    simp only [termCollector, Chain.join, Chain.size]
    rcases rank_splitCoefficient e with h | h
    · have hterm : (splitCoefficient e).1 = e := by rw [h]
      rw [hterm] at hrank
      split <;> split <;> omega
    · split <;> split <;> omega

/-! ### Gathering -/

lemma size_le_of_toTerm {t : LikeTerms} (h : Rules.toTerm t = .ok r) :
    Chain.sum.size r ≤ termCollector.worth t := by
  rw [Rules.toTerm] at h
  simp only [termCollector, Chain.size]
  split at h
  · next hone =>
    obtain rfl := Except.ok.inj h
    rw [if_pos hone]
  · next hone =>
    have hle := (reduces_of_simplify h).1
    simp only [Expr.rank] at hle
    rw [if_neg hone]
    omega

lemma total_filter_le (ts : List LikeTerms) (p : LikeTerms → Bool) :
    termCollector.total (ts.filter p) ≤ termCollector.total ts := by
  induction ts with
  | nil => exact Nat.le_refl _
  | cons t ts ih =>
    rw [List.filter_cons]
    split
    · exact Chain.sum.join_mono (Nat.le_refl _) ih
    · exact Nat.le_trans ih (Nat.le_add_left _ _)

lemma size_le_of_gatherTerms {g : Gathered} (h : Rules.gatherTerms s = .ok g) :
    g.size .sum ≤
      Chain.sum.join (Chain.sum.constantSize s.constant) (termCollector.total s.terms) := by
  obtain ⟨es, hes, h⟩ := bind_eq_ok_iff.1 h
  obtain rfl := pure_eq_ok_iff.1 h
  have htotal := Collector.total_le_of_mapM (C := termCollector) (fun _ _ => size_le_of_toTerm) hes
  have hfold := Gathered.size_foldl_le .sum es ⟨s.constant, []⟩
  rw [Gathered.size_start] at hfold
  refine Nat.le_trans hfold (Chain.sum.join_mono (Nat.le_refl _) ?_)
  exact Nat.le_trans htotal (total_filter_le _ _)

lemma size_toSum_le (g : Gathered) : Chain.sum.size g.toSum ≤ max 3 (g.size .sum) := by
  unfold Gathered.toSum
  split
  · exact Nat.le_max_left _ _
  · next hne =>
    refine Nat.le_trans ?_ (Nat.le_max_right _ _)
    split
    · rw [Chain.size_build _ hne]
      exact Nat.le_add_left _ _
    · next hz =>
      rw [Chain.size_build _ (by simp), Gathered.size, Chain.constantSize, if_neg hz]
      exact Nat.le_refl _

/-- A sum contributes no more than its operands. If it contributes as much, at most one operand was
a constant, the others are unlike, and each has been a term of its own. -/
theorem sum_exact_of_size_eq (h : Rules.sum es = .ok r) (hes : 3 < Chain.sum.total es) :
    Chain.sum.size r ≤ Chain.sum.total es ∧ (Chain.sum.size r = Chain.sum.total es →
      ∃ k ts g, Chain.sum.HasOneConstant es k (es.filterMap Chain.sum.rest?) ∧
        termCollector.Started ts (es.filterMap Chain.sum.rest?) ∧
        Unlike termKey (es.filterMap Chain.sum.rest?) ∧
        Rules.gatherTerms ⟨k, ts⟩ = .ok g ∧ r = g.toSum) := by
  obtain ⟨s, hs, h⟩ := bind_eq_ok_iff.1 h
  obtain ⟨g, hg, h⟩ := bind_eq_ok_iff.1 h
  obtain rfl := pure_eq_ok_iff.1 h
  rw [foldlM_add_eq] at hs
  obtain ⟨ts, hts, hs⟩ := bind_eq_ok_iff.1 hs
  obtain rfl := pure_eq_ok_iff.1 hs
  obtain ⟨hle, hexact⟩ := terms_measured.exact_of_total_eq (by simp) hts
  have hsize : g.size .sum ≤ Chain.sum.total es := Nat.le_trans (size_le_of_gatherTerms hg) hle
  have hr := size_toSum_le g
  refine ⟨by omega, fun heq => ?_⟩
  have hge : Chain.sum.total es ≤ g.size .sum := by omega
  have hfull := Nat.le_antisymm hle (Nat.le_trans hge (size_le_of_gatherTerms hg))
  obtain ⟨hconst, hstarted, hunlike⟩ := hexact hfull
  exact ⟨_, ts, g, hconst, hstarted, hunlike, hg, rfl⟩

end Simplify

end SymbolicAlgebra
