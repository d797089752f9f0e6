import SymbolicAlgebra.Simplify.Termination.Operands

/-!
# Sums settle

The terms of a sum are followed through collection and gathering, with account of what they
contribute to the rank of the sum. A term with its coefficient in front of it is worth no more than
the terms that it was collected from, since these are two at least, or one that had a coefficient
already.
-/

namespace SymbolicAlgebra.Simplify

open SymbolicAlgebra.Expr Bounded

variable {simp : Expr → Bounded Expr} {n : Nat}

/-- A collected term that accounts for `w` of the contributions to a sum of rank `n`: if it is
multiplied by its coefficient, that is still worth no more, and of a rank below `n`. -/
structure LikeTerms.Fits (n : Nat) (t : LikeTerms) (w : Nat) : Prop where
  rank_key : t.key.rank = t.term.rank
  tidy : Tidy t.term
  rank_lt : t.term.rank + 1 ≤ w
  rank_mul_lt : t.coefficient.isOne ∨ 2 * t.term.rank + 1 ≤ w ∧ 2 * t.term.rank < n

/-- Collected terms that account for `m` together. -/
def TermsFit (n : Nat) : List LikeTerms → Nat → Prop
  | [], _ => True
  | t :: ts, m => ∃ w k, w + k ≤ m ∧ t.Fits n w ∧ TermsFit n ts k

theorem TermsFit.mono {ts : List LikeTerms} {m m' : Nat} (h : TermsFit n ts m) (hm : m ≤ m') :
    TermsFit n ts m' := by
  cases ts with
  | nil => trivial
  | cons t ts =>
    obtain ⟨w, k, hwk, ht, hts⟩ := h
    exact ⟨w, k, Nat.le_trans hwk hm, ht, hts⟩

/-- One more term with its contribution `w`. -/
theorem TermsFit.addTerm {ts : List LikeTerms} {m w : Nat} {key term : Expr} {c : Number}
    (h : TermsFit n ts m) (hkey : key.rank = term.rank) (hterm : Tidy term)
    (hw : term.rank + 1 ≤ w) (hc : c = 1 ∨ 2 * term.rank + 1 ≤ w ∧ 2 * term.rank < n)
    (hmw : m + w ≤ n + 1) : TermsFit n (addTerm key term c ts) (m + w) := by
  induction ts generalizing m with
  | nil => exact ⟨w, 0, by omega, ⟨hkey, hterm, hw, hc.imp (by rintro rfl; rfl) id⟩, trivial⟩
  | cons t ts ih =>
    obtain ⟨v, k, hvk, hv, hts⟩ := h
    unfold Simplify.addTerm
    split
    · next hsame =>
      have hrank : t.term.rank = term.rank := by
        rw [← hv.rank_key, rank_of_same hsame, hkey]
      have hv' := hv.rank_lt
      refine ⟨v + w, k, by omega, ⟨hv.rank_key, hv.tidy, Nat.le_add_right_of_le hv', .inr ?_⟩, hts⟩
      show 2 * t.term.rank + 1 ≤ v + w ∧ 2 * t.term.rank < n
      omega
    · exact ⟨v, k + w, by omega, hv, ih hts (by omega)⟩

/-- A term is split into parts of its rank. -/
theorem splitCoefficient_spec {e : Expr} (he : Tidy e) :
    Tidy (splitCoefficient e).1 ∧
      (splitCoefficient e = (e, 1) ∨ 2 * (splitCoefficient e).1.rank = e.rank) := by
  unfold splitCoefficient
  split
  · exact ⟨he.2, .inr rfl⟩
  · exact ⟨he.1, .inr (Nat.mul_comm _ _)⟩
  · exact ⟨he.2, .inr rfl⟩
  · exact ⟨he, .inl rfl⟩

/-- An operand is added as a constant or as a term. -/
theorem CollectedSum.add_eq (s : CollectedSum) (e : Expr) :
    (∃ c, e = .const c) ∨ s.add e = s.addTerm e := by
  cases e with
  | const c => exact .inl ⟨c, rfl⟩
  | _ => exact .inr rfl

/-- A collected sum that accounts for `m`. -/
def CollectedSum.Fits (n : Nat) (s : CollectedSum) (m : Nat) : Prop :=
  ∃ k j, k + j ≤ m ∧ (s.constant.isZero ∨ 3 ≤ k) ∧ TermsFit n s.terms j

theorem CollectedSum.Fits.add {s s' : CollectedSum} {m : Nat} {e : Expr} (h : s.Fits n m)
    (he : Tidy e) (hn : e.rank < n) (hm : m + (e.rank + 1) ≤ n + 1) (hs : s.add e = .ok s') :
    s'.Fits n (m + (e.rank + 1)) := by
  obtain ⟨k, j, hkj, hk, hj⟩ := h
  rcases s.add_eq e with ⟨c, rfl⟩ | hadd
  · obtain rfl := pure_eq_ok_iff.1 hs
    exact ⟨k + 3, j, by simp only [rank]; omega, .inr (by omega), hj⟩
  · rw [hadd] at hs
    obtain ⟨key, hkey, hs⟩ := bind_eq_ok_iff.1 hs
    obtain rfl := pure_eq_ok_iff.1 hs
    obtain ⟨ht, hsplit⟩ := splitCoefficient_spec he
    refine ⟨k, j + (e.rank + 1), by omega, hk, hj.addTerm (rank_of_likeKey hkey) ht ?_ ?_ ?_⟩
    · rcases hsplit with h | h
      · exact Nat.le_of_eq (by rw [h])
      · omega
    · exact hsplit.imp (fun h => by rw [h]) fun h => by omega
    · omega

theorem CollectedSum.Fits.foldlM {es : List Expr} {s s' : CollectedSum} {m : Nat}
    (h : s.Fits n m) (hes : ∀ e ∈ es, Tidy e ∧ e.rank < n)
    (hm : m + Chain.sum.total es ≤ n + 1) (hs : es.foldlM CollectedSum.add s = .ok s') :
    s'.Fits n (m + Chain.sum.total es) := by
  induction es generalizing s m with
  | nil => exact pure_eq_ok_iff.1 hs ▸ h
  | cons e es ih =>
    obtain ⟨s₁, hs₁, hs⟩ := bind_eq_ok_iff.1 hs
    have he := hes e (by simp)
    simp only [Chain.total, Chain.join, Chain.size, ← Nat.add_assoc] at hm ⊢
    exact ih (h.add he.1 he.2 (by omega) hs₁) (fun e he => hes e (by simp [he])) hm hs

/-- What was gathered for a sum accounts for `m`. -/
def Gathered.FitsSum (g : Gathered) (m : Nat) : Prop :=
  ∃ k, k + Chain.sum.total g.operands ≤ m ∧ (g.constant.isZero ∨ 3 ≤ k) ∧ ∀ e ∈ g.operands, Tidy e

theorem Gathered.FitsSum.mono {g : Gathered} {m m' : Nat} (h : g.FitsSum m) (hm : m ≤ m') :
    g.FitsSum m' :=
  let ⟨k, hk, hg⟩ := h
  ⟨k, Nat.le_trans hk hm, hg⟩

theorem Gathered.FitsSum.add {g : Gathered} {m : Nat} {e : Expr} (h : g.FitsSum m) (he : Tidy e) :
    (g.add (· + ·) e).FitsSum (m + (e.rank + 1)) := by
  obtain ⟨k, hk, hg, ht⟩ := h
  unfold Gathered.add
  split
  · exact ⟨k + 3, by simp only [rank]; omega, .inr (by omega), ht⟩
  · refine ⟨k, ?_, hg, fun x hx => ?_⟩
    · simp only [Chain.total_append, Chain.total_singleton, Chain.join, Chain.size]
      omega
    · rcases List.mem_append.1 hx with hx | hx
      · exact ht x hx
      · exact List.mem_singleton.1 hx ▸ he

theorem toTerm_settles (h : Handles simp n) {t : LikeTerms} {w : Nat} (ht : t.Fits (n + 1) w) :
    (t.toTerm simp).Settles fun r => r.rank + 1 ≤ w ∧ Tidy r := by
  unfold LikeTerms.toTerm
  split
  · exact settles_pure ⟨ht.rank_lt, ht.tidy⟩
  · next hone =>
    obtain ⟨hw, hn⟩ := ht.rank_mul_lt.resolve_left hone
    refine (h _ ?_).mono fun r hr => ⟨Nat.le_trans (Nat.succ_le_succ hr.1) ?_, hr.2⟩
    · simp only [rank]; omega
    · simp only [rank]; omega

theorem gatherTerms_settles (h : Handles simp n) {ts : List LikeTerms} {g : Gathered} {m k : Nat}
    (hts : TermsFit (n + 1) ts k) (hg : g.FitsSum m) :
    (gatherTerms simp ts g).Settles fun g => g.FitsSum (m + k) := by
  induction ts generalizing g m k with
  | nil => exact settles_pure (hg.mono (by omega))
  | cons t ts ih =>
    obtain ⟨w, j, hwj, ht, hts⟩ := hts
    unfold gatherTerms
    split
    · exact (ih hts hg).mono fun g hg => hg.mono (by omega)
    · exact (toTerm_settles h ht).bind fun r hr =>
        (ih hts (hg.add hr.2)).mono fun g hg => hg.mono (by omega)

theorem Gathered.FitsSum.toSum {g : Gathered} {m : Nat} (h : g.FitsSum m) (hm : 3 ≤ m) :
    g.toSum.rank + 1 ≤ m ∧ Tidy g.toSum := by
  obtain ⟨k, hk, hg, ht⟩ := h
  unfold Gathered.toSum
  split
  · exact ⟨hm, trivial⟩
  · next hne =>
    have hsize := @Chain.size_build Chain.sum
    simp only [Chain.size] at hsize
    split
    · exact ⟨by rw [hsize hne]; omega, tidy_build ht⟩
    · next hz =>
      have := hg.resolve_left hz
      refine ⟨?_, tidy_build ?_⟩
      · rw [hsize (by simp)]
        simp only [Chain.total, Chain.join, Chain.size, rank]
        omega
      · intro e he
        rcases List.mem_cons.1 he with rfl | he
        · trivial
        · exact ht e he

/-- The operands of a sum are of a smaller rank than it is. -/
theorem sum_operands_settles {l r : Expr} (h : Handles simp (l.rank + r.rank)) :
    (operands simp .sum (.add l r)).Settles fun es =>
      (∀ e ∈ es, Tidy e ∧ e.rank < (Expr.add l r).rank) ∧
        Chain.sum.total es ≤ (Expr.add l r).rank + 1 := by
  refine (operands_settles h .sum (by omega)).bind fun es hes =>
    (operands_settles h .sum (by omega)).bind fun es' hes' => settles_pure ⟨fun e he => ?_, ?_⟩
  · have hl := hes.total_le
    have hr := hes'.total_le
    simp only [Chain.size] at hl hr
    simp only [rank]
    rcases List.mem_append.1 he with he | he
    · have := Chain.sum.size_le_total he
      simp only [Chain.size] at this
      exact ⟨(hes.tidy e he).1, by omega⟩
    · have := Chain.sum.size_le_total he
      simp only [Chain.size] at this
      exact ⟨(hes'.tidy e he).1, by omega⟩
  · exact (hes.append hes').total_le

theorem sum_settles {l r : Expr} (h : Handles simp (l.rank + r.rank)) :
    (sum simp l r).Settles (Reduces (.add l r)) := by
  have hl := l.two_le_rank
  refine (sum_operands_settles h).bind fun es hes => Settles.bind
    (P := fun s => s.Fits (l.rank + r.rank + 1) ((Expr.add l r).rank + 1))
    (settles_ofExcept fun s hs => ?_) fun s hs => ?_
  · have h0 : CollectedSum.Fits (l.rank + r.rank + 1) ⟨0, []⟩ 0 :=
      ⟨0, 0, Nat.le_refl _, .inl rfl, trivial⟩
    have h1 := h0.foldlM hes.1 (by rw [Nat.zero_add]; exact hes.2) hs
    obtain ⟨k, j, hkj, hs⟩ := h1
    exact ⟨k, j, by have := hes.2; omega, hs⟩
  · obtain ⟨k, j, hkj, hk, hj⟩ := hs
    refine (gatherTerms_settles (m := k) h hj ⟨k, Nat.le_refl _, hk, by simp⟩).bind
      fun g hg => settles_pure ?_
    have hg := (hg.mono hkj).toSum (by simp only [rank]; omega)
    exact ⟨Nat.le_of_succ_le_succ hg.1, hg.2⟩

end SymbolicAlgebra.Simplify
