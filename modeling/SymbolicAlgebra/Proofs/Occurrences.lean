import SymbolicAlgebra.Proofs.Refusals
import SymbolicAlgebra.Proofs.Reordering
import SymbolicAlgebra.Simplify
import SymbolicAlgebra.Simplify.Termination.Product
import SymbolicAlgebra.Simplify.Termination.Sum
import SymbolicAlgebra.Substitution

/-!
# Occurrences of variables

Simplification repeats no variable: like terms keep one of their representatives, like factors one
of their bases and all their exponents, and everything else is put together again from its parts. So
no variable occurs more often than before (`countOccurrences_simplify_le`), and as often as before
after a reordering.
-/

namespace SymbolicAlgebra

variable {x : String}

/-! ### Counting -/

/-- How often a variable occurs in the expressions of a list. -/
def countAll (x : String) (es : List Expr) : Nat :=
  (es.map (Expr.countOccurrences x)).sum

@[simp] lemma countAll_nil : countAll x [] = 0 := rfl

@[simp] lemma countAll_cons (e : Expr) (es : List Expr) :
    countAll x (e :: es) = e.countOccurrences x + countAll x es := by
  simp [countAll]

@[simp] lemma countAll_append (es es' : List Expr) :
    countAll x (es ++ es') = countAll x es + countAll x es' := by
  simp [countAll]

lemma Expr.count_variableNamesOfList (es : List Expr) :
    (variableNamesOfList es).count x = countAll x es := by
  induction es with
  | nil => rfl
  | cons e es ih =>
    rw [variableNamesOfList, List.count_append, ih, countAll_cons]
    rfl

lemma countOccurrences_le_countAll {e : Expr} {es : List Expr} (h : e ∈ es) :
    e.countOccurrences x ≤ countAll x es := by
  induction h with
  | head es => simp
  | tail e' _ ih => exact Nat.le_trans ih (by simp)

namespace Chain

@[simp] lemma countAll_operands (c : Chain) (e : Expr) :
    countAll x (c.operands e) = e.countOccurrences x := by
  induction e using c.induct with
  | node l r ihl ihr => simp [ihl, ihr]
  | leaf e he => simp [he]

@[simp] lemma countOccurrences_link (c : Chain) (e : Expr) (es : List Expr) :
    (c.link e es).countOccurrences x = countAll x (e :: es) := by
  induction es generalizing e with
  | nil => simp [link]
  | cons e' es ih => simp [link, ih]

@[simp] lemma countOccurrences_build (c : Chain) (es : List Expr) :
    (c.build es).countOccurrences x = countAll x es := by
  cases es with
  | nil => cases c <;> rfl
  | cons e es => rw [build, countOccurrences_link]

end Chain

/-- A reordering has the same occurrences. -/
lemma Expr.Reordered.countOccurrences_eq {e e' : Expr} (h : e.Reordered e') :
    e.countOccurrences x = e'.countOccurrences x := by
  induction h with
  | refl e => rfl
  | symm _ ih => exact ih.symm
  | trans _ _ ih ih' => exact ih.trans ih'
  | comm c l r => simp [Nat.add_comm]
  | assoc c e₁ e₂ e₃ => simp [Nat.add_assoc]
  | _ => simp_all

namespace Simplify

open Bounded

/-- A simplifier that gives an expression in which a variable occurs at most as often as before. -/
def KeepsCount (x : String) (simp : Expr → Bounded Expr) : Prop :=
  ∀ e, (simp e).Ensures (fun r => r.countOccurrences x ≤ e.countOccurrences x) fun _ => True

variable {simp : Expr → Bounded Expr}

/-! ### Sums -/

lemma operands_node (simp : Expr → Bounded Expr) (c : Chain) (l r : Expr) :
    operands simp c (c.node l r) =
      (do return (← operands simp c l) ++ (← operands simp c r)) := by
  cases c <;> rfl

/-- What is no such chain is simplified. -/
lemma operands_leaf (simp : Expr → Bounded Expr) {c : Chain} {e : Expr}
    (h : c.operands e = [e]) : operands simp c e = (do return c.operands (← simp e)) := by
  cases e with
  | add l r =>
    cases c with
    | sum => exact absurd h (Chain.operands_node_ne .sum l r _)
    | product => rfl
  | mul l r =>
    cases c with
    | sum => rfl
    | product => exact absurd h (Chain.operands_node_ne .product l r _)
  | _ => cases c <;> rfl

lemma operands_keepsCount (h : KeepsCount x simp) (c : Chain) (e : Expr) :
    (operands simp c e).Ensures (fun es => countAll x es ≤ e.countOccurrences x)
      fun _ => True := by
  induction e using c.induct with
  | node l r ihl ihr =>
    rw [operands_node]
    refine ihl.bind fun es hes => ihr.bind fun es' hes' => ensures_pure ?_
    rw [countAll_append, Chain.countOccurrences_node]
    exact Nat.add_le_add hes hes'
  | leaf e he =>
    rw [operands_leaf simp he]
    refine (h e).bind fun r hr => ensures_pure ?_
    rwa [c.countAll_operands]

/-- How often a variable occurs in collected terms. -/
def countTerms (x : String) (ts : List LikeTerms) : Nat :=
  countAll x (ts.map LikeTerms.term)

lemma countTerms_addTerm_le (key term : Expr) (c : Number) (ts : List LikeTerms) :
    countTerms x (addTerm key term c ts) ≤ countTerms x ts + term.countOccurrences x := by
  induction ts with
  | nil => simp [addTerm, countTerms]
  | cons t ts ih =>
    unfold addTerm
    split
    · simp [countTerms]
    · simp only [countTerms, List.map_cons, countAll_cons] at ih ⊢
      omega

lemma countOccurrences_splitCoefficient_le (e : Expr) :
    (splitCoefficient e).1.countOccurrences x ≤ e.countOccurrences x := by
  unfold splitCoefficient
  split <;> simp

lemma countTerms_add_le {s s' : CollectedSum} {e : Expr} (h : s.add e = .ok s') :
    countTerms x s'.terms ≤ countTerms x s.terms + e.countOccurrences x := by
  rcases s.add_eq e with ⟨c, rfl⟩ | hadd
  · obtain rfl := pure_eq_ok_iff.1 h
    simp
  · rw [hadd] at h
    obtain ⟨key, -, h⟩ := bind_eq_ok_iff.1 h
    obtain rfl := pure_eq_ok_iff.1 h
    have hsplit := countOccurrences_splitCoefficient_le (x := x) e
    have hadd := countTerms_addTerm_le (x := x) key (splitCoefficient e).1
      (splitCoefficient e).2 s.terms
    exact hadd.trans (Nat.add_le_add_left hsplit _)

lemma countTerms_foldlM_le {es : List Expr} {s s' : CollectedSum}
    (h : es.foldlM CollectedSum.add s = .ok s') :
    countTerms x s'.terms ≤ countTerms x s.terms + countAll x es := by
  induction es generalizing s with
  | nil =>
    rw [← pure_eq_ok_iff.1 h]
    simp
  | cons e es ih =>
    obtain ⟨s₁, hs₁, hs⟩ := bind_eq_ok_iff.1 h
    have hfirst := countTerms_add_le (x := x) hs₁
    have hrest := ih hs
    rw [countAll_cons]
    omega

lemma countAll_gathered_add_le (op : Number → Number → Number) (g : Gathered) (e : Expr) :
    countAll x (g.add op e).operands ≤ countAll x g.operands + e.countOccurrences x := by
  unfold Gathered.add
  split <;> simp

lemma toTerm_keepsCount (h : KeepsCount x simp) (t : LikeTerms) :
    (t.toTerm simp).Ensures (fun r => r.countOccurrences x ≤ t.term.countOccurrences x)
      fun _ => True := by
  unfold LikeTerms.toTerm
  split
  · exact ensures_pure le_rfl
  · exact (h _).mono fun r hr => by simpa using hr

lemma gatherTerms_keepsCount (h : KeepsCount x simp) (ts : List LikeTerms) (g : Gathered) :
    (gatherTerms simp ts g).Ensures
      (fun g' => countAll x g'.operands ≤ countAll x g.operands + countTerms x ts)
      fun _ => True := by
  induction ts generalizing g with
  | nil => exact ensures_pure (by simp [countTerms])
  | cons t ts ih =>
    unfold gatherTerms
    split
    · refine (ih g).mono fun g' hg' => ?_
      simp only [countTerms, List.map_cons, countAll_cons] at hg' ⊢
      omega
    · refine (toTerm_keepsCount h t).bind fun r hr => (ih _).mono fun g' hg' => ?_
      have hadd := countAll_gathered_add_le (x := x) (· + ·) g r
      simp only [countTerms, List.map_cons, countAll_cons] at hg' ⊢
      omega

lemma countOccurrences_toSum_le (g : Gathered) :
    g.toSum.countOccurrences x ≤ countAll x g.operands := by
  unfold Gathered.toSum
  split
  · simp
  · split <;> simp

lemma sum_keepsCount (h : KeepsCount x simp) (l r : Expr) :
    (sum simp l r).Ensures
      (fun e => e.countOccurrences x ≤ (Expr.add l r).countOccurrences x) fun _ => True := by
  refine (operands_keepsCount h .sum (.add l r)).bind fun es hes => ?_
  refine Ensures.bind (P := fun s => countTerms x s.terms ≤ countAll x es)
    (ensures_ofExcept (fun s hs => ?_) fun _ _ => trivial) fun s hs => ?_
  · simpa [countTerms] using countTerms_foldlM_le (x := x) hs
  · refine (gatherTerms_keepsCount h s.terms _).bind fun g hg => ensures_pure ?_
    have hsum := countOccurrences_toSum_le (x := x) g
    rw [countAll_nil] at hg
    omega

/-! ### Products -/

/-- How often a variable occurs in collected factors. -/
def countFactors (x : String) (fs : List LikeFactors) : Nat :=
  (fs.map fun f => f.base.countOccurrences x + countAll x f.exponents).sum

@[simp] lemma countFactors_nil : countFactors x [] = 0 := rfl

@[simp] lemma countFactors_cons (f : LikeFactors) (fs : List LikeFactors) :
    countFactors x (f :: fs) =
      f.base.countOccurrences x + countAll x f.exponents + countFactors x fs := by
  simp [countFactors]

lemma countFactors_addFactor_le (key base p : Expr) (fs : List LikeFactors) :
    countFactors x (addFactor key base p fs) ≤
      countFactors x fs + (base.countOccurrences x + p.countOccurrences x) := by
  induction fs with
  | nil => simp [addFactor]
  | cons f fs ih =>
    unfold addFactor
    split <;> simp only [countFactors_cons, countAll_append, countAll_cons, countAll_nil] <;> omega

lemma countOccurrences_splitExponent (e : Expr) :
    (splitExponent e).1.countOccurrences x + (splitExponent e).2.countOccurrences x =
      e.countOccurrences x := by
  unfold splitExponent
  split <;> simp

lemma countFactors_add_le {s s' : CollectedProduct} {e : Expr} (h : s.addFactor e = .ok s') :
    countFactors x s'.factors ≤ countFactors x s.factors + e.countOccurrences x := by
  obtain ⟨key, -, h⟩ := bind_eq_ok_iff.1 h
  obtain rfl := pure_eq_ok_iff.1 h
  rw [← countOccurrences_splitExponent e]
  exact countFactors_addFactor_le _ _ _ _

/-- How often a variable occurs in what becomes of the factors of a product. -/
def ProductOutcome.count (x : String) : ProductOutcome → Nat
  | zero _ => 0
  | collected s => countFactors x s.factors

lemma count_collectFactors_le {es : List Expr} {s : CollectedProduct} {out : ProductOutcome}
    (h : collectFactors es s = .ok out) :
    out.count x ≤ countFactors x s.factors + countAll x es := by
  induction es generalizing s with
  | nil =>
    rw [← pure_eq_ok_iff.1 h]
    exact le_rfl
  | cons e es ih =>
    rw [countAll_cons]
    by_cases hc : ∃ c, e = .const c
    · obtain ⟨c, rfl⟩ := hc
      rw [collectFactors] at h
      split at h
      · rw [← pure_eq_ok_iff.1 h]
        exact Nat.zero_le _
      · simpa using ih h
    · by_cases hn : ∃ u, e = .neg u
      · obtain ⟨u, rfl⟩ := hn
        obtain ⟨s', hs', hrest⟩ := bind_eq_ok_iff.1 h
        have hfirst := countFactors_add_le (x := x) hs'
        have hafter := ih hrest
        rw [Expr.countOccurrences_neg]
        dsimp only at hfirst
        omega
      · rw [collectFactors_cons es s (fun c h => hc ⟨c, h⟩) fun u h => hn ⟨u, h⟩] at h
        obtain ⟨s', hs', hrest⟩ := bind_eq_ok_iff.1 h
        have hfirst := countFactors_add_le (x := x) hs'
        have hafter := ih hrest
        omega

lemma toFactor_keepsCount (h : KeepsCount x simp) (f : LikeFactors) :
    (f.toFactor simp).Ensures
      (fun r => r.countOccurrences x ≤ f.base.countOccurrences x + countAll x f.exponents)
      fun _ => True := by
  unfold LikeFactors.toFactor
  split
  · next p hp =>
    refine Ensures.bind (P := fun _ => True) (ensures_ofExcept (fun _ _ => trivial)
      fun _ _ => trivial) fun _ _ => ensures_pure ?_
    rw [hp]
    split <;> simp
  · exact (h _).mono fun r hr => by simpa using hr

lemma gatherFactors_keepsCount (h : KeepsCount x simp) (fs : List LikeFactors) (g : Gathered) :
    (gatherFactors simp fs g).Ensures
      (fun g' => countAll x g'.operands ≤ countAll x g.operands + countFactors x fs)
      fun _ => True := by
  induction fs generalizing g with
  | nil => exact ensures_pure (by simp)
  | cons f fs ih =>
    refine (toFactor_keepsCount h f).bind fun r hr => (ih _).mono fun g' hg' => ?_
    have hadd := countAll_gathered_add_le (x := x) (· * ·) g r
    rw [countFactors_cons]
    omega

lemma countOccurrences_toProduct_le (g : Gathered) :
    g.toProduct.countOccurrences x ≤ countAll x g.operands := by
  unfold Gathered.toProduct
  split
  · simp
  · split
    · simp
    · next e es hes =>
      rw [hes]
      split
      · simp
      · split <;> simp

lemma product_keepsCount (h : KeepsCount x simp) (l r : Expr) :
    (product simp l r).Ensures
      (fun e => e.countOccurrences x ≤ (Expr.mul l r).countOccurrences x) fun _ => True := by
  refine (operands_keepsCount h .product (.mul l r)).bind fun es hes => ?_
  refine Ensures.bind (P := fun out => out.count x ≤ countAll x es)
    (ensures_ofExcept (fun out hout => ?_) fun _ _ => trivial) fun out hout => ?_
  · simpa using count_collectFactors_le (x := x) hout
  · cases out with
    | zero c => exact ensures_pure (Nat.zero_le _)
    | collected s =>
      refine (gatherFactors_keepsCount h s.factors _).bind fun g hg => ?_
      refine Ensures.bind (P := fun _ => True) (ensures_ofExcept (fun _ _ => trivial)
        fun _ _ => trivial) fun _ _ => ensures_pure ?_
      have hproduct := countOccurrences_toProduct_le (x := x) g
      rw [countAll_nil] at hg
      rw [ProductOutcome.count] at hout
      omega

/-! ### The other rules -/

lemma countOccurrences_quotient {n d r : Expr} (h : quotient n d = .ok r) :
    r.countOccurrences x ≤ (Expr.div n d).countOccurrences x := by
  unfold quotient at h
  split at h
  · obtain ⟨c, -, h⟩ := bind_eq_ok_iff.1 h
    obtain rfl := pure_eq_ok_iff.1 h
    simp
  · cases h
    exact le_rfl

lemma countOccurrences_constantPower {b p : Number} {r : Expr} (h : constantPower b p = .ok r) :
    r.countOccurrences x = 0 := by
  unfold constantPower at h
  split at h <;> cases h <;> simp

lemma powerOf_keepsCount (h : KeepsCount x simp) (b p : Expr) :
    (powerOf simp b p).Ensures
      (fun r => r.countOccurrences x ≤ (Expr.pow b p).countOccurrences x) fun _ => True := by
  unfold powerOf
  split
  · next b q =>
    refine (h _).bind fun r hr => (h _).mono fun r' hr' => ?_
    simp only [Expr.countOccurrences_pow, Expr.countOccurrences_mul] at *
    omega
  · exact ensures_ofExcept (fun r hr => by simp [countOccurrences_constantPower hr])
      fun _ _ => trivial
  · exact ensures_pure le_rfl

lemma power_keepsCount (h : KeepsCount x simp) (b p : Expr) :
    (power simp b p).Ensures
      (fun r => r.countOccurrences x ≤ (Expr.pow b p).countOccurrences x) fun _ => True := by
  unfold power
  split
  · split
    · exact ensures_pure (by simp)
    · split
      · exact ensures_pure (Nat.zero_le _)
      · exact powerOf_keepsCount h _ _
  · exact powerOf_keepsCount h _ _

lemma opposite_keepsCount (h : KeepsCount x simp) (e : Expr) :
    (opposite simp e).Ensures (fun r => r.countOccurrences x ≤ e.countOccurrences x)
      fun _ => True := by
  cases e with
  | add l r => exact (h _).mono fun e he => by simpa using he
  | sub l r => exact (h _).mono fun e he => by simpa using he
  | mul l r => exact (h _).mono fun e he => by simpa using he
  | div n d => exact (h _).mono fun e he => by simpa using he
  | _ => exact ensures_pure (by simp)

lemma step_keepsCount (h : KeepsCount x simp) : KeepsCount x (step simp) := by
  intro e
  cases e with
  | const c => exact ensures_pure le_rfl
  | var y => exact ensures_pure le_rfl
  | add l r => exact sum_keepsCount h l r
  | mul l r => exact product_keepsCount h l r
  | sub l r =>
    refine (h l).bind fun l' hl => (h r).bind fun r' hr => (h _).bind fun m hm => ?_
    refine (h _).mono fun e he => ?_
    simp only [Expr.countOccurrences_add, Expr.countOccurrences_sub,
      Expr.countOccurrences_neg] at *
    omega
  | div n d =>
    refine (h n).bind fun n' hn => (h d).bind fun d' hd => ensures_ofExcept (fun r hr => ?_)
      fun _ _ => trivial
    have hq := countOccurrences_quotient (x := x) hr
    simp only [Expr.countOccurrences_div] at *
    omega
  | pow b p =>
    refine (h b).bind fun b' hb => (h p).bind fun p' hp => ?_
    refine (power_keepsCount h b' p').mono fun r hr => ?_
    simp only [Expr.countOccurrences_pow] at *
    omega
  | log b a =>
    refine (h b).bind fun b' hb => (h a).bind fun a' ha => ensures_pure ?_
    simp only [Expr.countOccurrences_log]
    omega
  | neg u =>
    refine (h u).bind fun u' hu => (opposite_keepsCount h u').mono fun r hr => ?_
    rw [Expr.countOccurrences_neg]
    omega
  | other m k es => exact ensures_throw trivial

lemma within_keepsCount (x : String) (n : Nat) : KeepsCount x (within n) := by
  induction n with
  | zero => exact fun e => ⟨fun _ h => (nomatch h), fun _ h => (nomatch h)⟩
  | succ n ih => exact step_keepsCount ih

end Simplify

/-- No variable occurs more often in a simplified expression than before. -/
lemma countOccurrences_simplify_le {e r : Expr} (h : simplify e = .ok r) :
    r.countOccurrences x ≤ e.countOccurrences x := by
  obtain ⟨n, hn⟩ := simplify_eq_iff.1 h
  exact (Simplify.within_keepsCount x n e).1 r hn

/-- No variable occurs more often in a canonical form than in the expression. -/
lemma countOccurrences_canonical_le {e r : Expr} (h : canonical e = .ok r) :
    r.countOccurrences x ≤ e.countOccurrences x := by
  obtain ⟨u, hu, horder⟩ := bind_eq_ok_iff.1 h
  rw [← (reordered_order horder).countOccurrences_eq]
  exact countOccurrences_simplify_le hu

end SymbolicAlgebra
