import SymbolicAlgebra.Proofs.Exactness

/-!
# Simplification keeps expressions exact

Simplification adds and multiplies exponents and turns each into one whole constant. No rule leaves
the exact numbers on the way (`step_keepsExact`): constants are added, multiplied, divided and
negated, and raised to whole powers only. So an exact expression whose exponents are to be worked
out is simplified to one whose exponents are written out (`simplify_isExactWith`).
-/

namespace SymbolicAlgebra

open SymbolicAlgebra.Expr

variable {e l r : Expr}

namespace Simplify

open Bounded

/-- A simplifier that keeps exact expressions exact, and works out whole numbers. -/
structure KeepsExact (simp : Expr → Bounded Expr) : Prop where
  keeps : ∀ e, e.IsExactWith IsWholeTree →
    (simp e).Ensures (IsExactWith IsWholeConstant) fun _ => True
  whole : ∀ e, e.IsWholeTree → (simp e).Ensures IsWholeConstant fun _ => True

variable {simp : Expr → Bounded Expr}

/-! ### Sums -/

lemma operands_keepsExact (h : KeepsExact simp) (c : Chain) (he : e.IsExactWith IsWholeTree) :
    (operands simp c e).Ensures (fun es => ∀ u ∈ es, u.IsExactWith IsWholeConstant)
      fun _ => True := by
  induction e using c.induct with
  | node l r ihl ihr =>
    obtain ⟨hl, hr⟩ := isExactWith_node.1 he
    rw [operands_node]
    exact (ihl hl).bind fun es hes => (ihr hr).bind fun es' hes' =>
      ensures_pure (List.forall_mem_append.2 ⟨hes, hes'⟩)
  | leaf e hleaf =>
    rw [operands_leaf simp hleaf]
    exact (h.keeps e he).bind fun r hr => ensures_pure fun _ hu =>
      Chain.isExactWith_of_mem_operands hr hu

/-- Collected terms without rounded constants. -/
structure CollectedSum.IsExact (s : CollectedSum) : Prop where
  constant : s.constant.isExact
  terms : ∀ t ∈ s.terms, t.term.IsExactWith IsWholeConstant ∧ t.coefficient.isExact

lemma splitCoefficient_isExact (he : e.IsExactWith IsWholeConstant) :
    (splitCoefficient e).1.IsExactWith IsWholeConstant ∧ (splitCoefficient e).2.isExact := by
  unfold splitCoefficient
  split
  · exact ⟨he.2, he.1⟩
  · exact he
  · exact ⟨he, rfl⟩
  · exact ⟨he, rfl⟩

lemma addTerm_isExact {key term : Expr} {c : Number} {ts : List LikeTerms}
    (hterm : term.IsExactWith IsWholeConstant) (hc : c.isExact)
    (hts : ∀ t ∈ ts, t.term.IsExactWith IsWholeConstant ∧ t.coefficient.isExact) :
    ∀ t ∈ addTerm key term c ts, t.term.IsExactWith IsWholeConstant ∧ t.coefficient.isExact := by
  induction ts with
  | nil =>
    rw [addTerm, List.forall_mem_singleton]
    exact ⟨hterm, Number.isExact_add rfl hc⟩
  | cons t ts ih =>
    obtain ⟨ht, hts⟩ := List.forall_mem_cons.1 hts
    unfold addTerm
    split
    · exact List.forall_mem_cons.2 ⟨⟨ht.1, Number.isExact_add ht.2 hc⟩, hts⟩
    · exact List.forall_mem_cons.2 ⟨ht, ih hts⟩

lemma CollectedSum.IsExact.add {s s' : CollectedSum} (hs : s.IsExact)
    (he : e.IsExactWith IsWholeConstant) (h : s.add e = .ok s') : s'.IsExact := by
  rcases s.add_eq e with ⟨c, rfl⟩ | hadd
  · obtain rfl := pure_eq_ok_iff.1 h
    exact ⟨Number.isExact_add hs.constant he, hs.terms⟩
  · rw [hadd] at h
    obtain ⟨key, -, h⟩ := bind_eq_ok_iff.1 h
    obtain rfl := pure_eq_ok_iff.1 h
    obtain ⟨hterm, hc⟩ := splitCoefficient_isExact he
    exact ⟨hs.constant, addTerm_isExact hterm hc hs.terms⟩

lemma CollectedSum.IsExact.foldlM {es : List Expr} {s s' : CollectedSum} (hs : s.IsExact)
    (hes : ∀ e ∈ es, e.IsExactWith IsWholeConstant)
    (h : es.foldlM CollectedSum.add s = .ok s') : s'.IsExact := by
  induction es generalizing s with
  | nil => rwa [← pure_eq_ok_iff.1 h]
  | cons e es ih =>
    obtain ⟨he, hes⟩ := List.forall_mem_cons.1 hes
    obtain ⟨s₁, hs₁, h⟩ := bind_eq_ok_iff.1 h
    exact ih (hs.add he hs₁) hes h

/-- Gathered operands without rounded constants. -/
structure Gathered.IsExact (g : Gathered) : Prop where
  constant : g.constant.isExact
  operands : ∀ e ∈ g.operands, e.IsExactWith IsWholeConstant

lemma Gathered.IsExact.add {op : Number → Number → Number} {g : Gathered}
    (hop : ∀ a b : Number, a.isExact → b.isExact → (op a b).isExact) (hg : g.IsExact)
    (he : e.IsExactWith IsWholeConstant) : (g.add op e).IsExact := by
  unfold Gathered.add
  split
  · exact ⟨hop _ _ hg.constant he, hg.operands⟩
  · refine ⟨hg.constant, List.forall_mem_append.2 ⟨hg.operands, ?_⟩⟩
    rwa [List.forall_mem_singleton]

lemma toTerm_keepsExact (h : KeepsExact simp) {t : LikeTerms}
    (ht : t.term.IsExactWith IsWholeConstant) (hc : t.coefficient.isExact) :
    (t.toTerm simp).Ensures (IsExactWith IsWholeConstant) fun _ => True := by
  unfold LikeTerms.toTerm
  split
  · exact ensures_pure ht
  · exact h.keeps (.mul (.const t.coefficient) t.term) ⟨hc, ht.toTree⟩

lemma gatherTerms_keepsExact (h : KeepsExact simp) {ts : List LikeTerms} {g : Gathered}
    (hts : ∀ t ∈ ts, t.term.IsExactWith IsWholeConstant ∧ t.coefficient.isExact)
    (hg : g.IsExact) : (gatherTerms simp ts g).Ensures Gathered.IsExact fun _ => True := by
  induction ts generalizing g with
  | nil => exact ensures_pure hg
  | cons t ts ih =>
    obtain ⟨ht, hts⟩ := List.forall_mem_cons.1 hts
    unfold gatherTerms
    split
    · exact ih hts hg
    · refine (toTerm_keepsExact h ht.1 ht.2).bind fun r hr => ?_
      exact ih hts (hg.add (fun _ _ => Number.isExact_add) hr)

lemma Gathered.IsExact.toSum {g : Gathered} (hg : g.IsExact) :
    g.toSum.IsExactWith IsWholeConstant := by
  unfold Gathered.toSum
  split
  · exact hg.constant
  · split
    · exact Chain.isExactWith_build hg.operands
    · exact Chain.isExactWith_build (List.forall_mem_cons.2 ⟨hg.constant, hg.operands⟩)

lemma sum_keepsExact (h : KeepsExact simp) (hl : l.IsExactWith IsWholeTree)
    (hr : r.IsExactWith IsWholeTree) :
    (sum simp l r).Ensures (IsExactWith IsWholeConstant) fun _ => True := by
  have hempty : CollectedSum.IsExact ⟨0, []⟩ := ⟨rfl, by simp⟩
  have hadd : (Expr.add l r).IsExactWith IsWholeTree := ⟨hl, hr⟩
  refine (operands_keepsExact h .sum hadd).bind fun es hes => ?_
  refine Ensures.bind (P := CollectedSum.IsExact)
    (ensures_ofExcept (fun s hs => hempty.foldlM hes hs) fun _ _ => trivial) fun s hs => ?_
  refine (gatherTerms_keepsExact h hs.terms ⟨hs.constant, by simp⟩).bind fun g hg => ?_
  exact ensures_pure hg.toSum

/-! ### Products -/

/-- Like factors without rounded constants, and with whole exponents. -/
structure LikeFactors.IsExact (f : LikeFactors) : Prop where
  base : f.base.IsExactWith IsWholeConstant
  exponents : ∀ p ∈ f.exponents, p.IsWholeConstant

/-- Collected factors of this kind, with an exact constant. -/
structure CollectedProduct.IsExact (s : CollectedProduct) : Prop where
  constant : s.constant.isExact
  factors : ∀ f ∈ s.factors, f.IsExact

/-- What becomes of the factors of a product, without rounded constants. -/
def ProductOutcome.IsExact : ProductOutcome → Prop
  | zero c => c.isExact
  | collected s => s.IsExact

lemma splitExponent_isExact (he : e.IsExactWith IsWholeConstant) :
    (splitExponent e).1.IsExactWith IsWholeConstant ∧ (splitExponent e).2.IsWholeConstant := by
  unfold splitExponent
  split
  · exact ⟨he.1, he.2.2⟩
  · exact ⟨he, rfl, rfl⟩

lemma addFactor_isExact {key base p : Expr} {fs : List LikeFactors}
    (hbase : base.IsExactWith IsWholeConstant) (hp : p.IsWholeConstant)
    (hfs : ∀ f ∈ fs, f.IsExact) : ∀ f ∈ addFactor key base p fs, f.IsExact := by
  induction fs with
  | nil =>
    rw [addFactor, List.forall_mem_singleton]
    exact ⟨hbase, List.forall_mem_singleton.2 hp⟩
  | cons f fs ih =>
    obtain ⟨hf, hfs⟩ := List.forall_mem_cons.1 hfs
    unfold addFactor
    split
    · have hexponents := List.forall_mem_append.2 ⟨hf.exponents, List.forall_mem_singleton.2 hp⟩
      exact List.forall_mem_cons.2 ⟨⟨hf.base, hexponents⟩, hfs⟩
    · exact List.forall_mem_cons.2 ⟨hf, ih hfs⟩

lemma CollectedProduct.IsExact.addFactor {s s' : CollectedProduct} (hs : s.IsExact)
    (he : e.IsExactWith IsWholeConstant) (h : s.addFactor e = .ok s') : s'.IsExact := by
  obtain ⟨key, -, h⟩ := bind_eq_ok_iff.1 h
  obtain rfl := pure_eq_ok_iff.1 h
  obtain ⟨hbase, hp⟩ := splitExponent_isExact he
  exact ⟨hs.constant, addFactor_isExact hbase hp hs.factors⟩

lemma CollectedProduct.IsExact.collectFactors {es : List Expr} {s : CollectedProduct}
    {out : ProductOutcome} (hs : s.IsExact) (hes : ∀ e ∈ es, e.IsExactWith IsWholeConstant)
    (h : collectFactors es s = .ok out) : out.IsExact := by
  induction es generalizing s with
  | nil =>
    rw [← pure_eq_ok_iff.1 h]
    exact hs
  | cons e es ih =>
    obtain ⟨he, hrest⟩ := List.forall_mem_cons.1 hes
    by_cases hc : ∃ c, e = .const c
    · obtain ⟨c, rfl⟩ := hc
      have hscaled : CollectedProduct.IsExact { s with constant := s.constant * c } :=
        ⟨Number.isExact_mul hs.constant he, hs.factors⟩
      rw [Simplify.collectFactors] at h
      split at h
      · rw [← pure_eq_ok_iff.1 h]
        exact he
      · exact ih hscaled hrest h
    · by_cases hn : ∃ u, e = .neg u
      · obtain ⟨u, rfl⟩ := hn
        obtain ⟨s', hs', hout⟩ := bind_eq_ok_iff.1 h
        have hsign : CollectedProduct.IsExact { s with constant := -s.constant } :=
          ⟨Number.isExact_neg hs.constant, hs.factors⟩
        exact ih (hsign.addFactor (e := u) he hs') hrest hout
      · rw [collectFactors_cons es s (fun c h => hc ⟨c, h⟩) fun u h => hn ⟨u, h⟩] at h
        obtain ⟨s', hs', h⟩ := bind_eq_ok_iff.1 h
        exact ih (hs.addFactor he hs') hrest h

/-- The exponents of like factors are worked out to one. -/
lemma toFactor_keepsExact (h : KeepsExact simp) {f : LikeFactors} (hf : f.IsExact) :
    (f.toFactor simp).Ensures (IsExactWith IsWholeConstant) fun _ => True := by
  obtain ⟨key, base, exponents⟩ := f
  unfold LikeFactors.toFactor
  split
  · next p hp =>
    obtain rfl : exponents = [p] := hp
    refine Ensures.bind (P := fun _ => True) (ensures_ofExcept (fun _ _ => trivial)
      fun _ _ => trivial) fun _ _ => ensures_pure ?_
    split
    · exact hf.base
    · exact isExactWith_pow hf.base (hf.exponents p List.mem_cons_self)
  · have hsum := Chain.isWholeTree_build hf.exponents
    exact h.keeps (.pow base _) ⟨hf.base.toTree, hsum.isExactWith, hsum⟩

lemma gatherFactors_keepsExact (h : KeepsExact simp) {fs : List LikeFactors} {g : Gathered}
    (hfs : ∀ f ∈ fs, f.IsExact) (hg : g.IsExact) :
    (gatherFactors simp fs g).Ensures Gathered.IsExact fun _ => True := by
  induction fs generalizing g with
  | nil => exact ensures_pure hg
  | cons f fs ih =>
    obtain ⟨hf, hfs⟩ := List.forall_mem_cons.1 hfs
    refine (toFactor_keepsExact h hf).bind fun r hr => ?_
    exact ih hfs (hg.add (fun _ _ => Number.isExact_mul) hr)

lemma Gathered.IsExact.toProduct {g : Gathered} (hg : g.IsExact) :
    g.toProduct.IsExactWith IsWholeConstant := by
  obtain ⟨c, es⟩ := g
  unfold Gathered.toProduct
  split
  · exact hg.constant
  · split
    · exact hg.constant
    · next e es' hes =>
      obtain rfl : es = e :: es' := hes
      split
      · exact hg.operands e List.mem_cons_self
      · split
        · exact Chain.isExactWith_build hg.operands
        · exact Chain.isExactWith_build (List.forall_mem_cons.2 ⟨hg.constant, hg.operands⟩)

lemma product_keepsExact (h : KeepsExact simp) (hl : l.IsExactWith IsWholeTree)
    (hr : r.IsExactWith IsWholeTree) :
    (product simp l r).Ensures (IsExactWith IsWholeConstant) fun _ => True := by
  have hempty : CollectedProduct.IsExact ⟨1, []⟩ := ⟨rfl, by simp⟩
  have hmul : (Expr.mul l r).IsExactWith IsWholeTree := ⟨hl, hr⟩
  refine (operands_keepsExact h .product hmul).bind fun es hes => ?_
  refine Ensures.bind (P := ProductOutcome.IsExact)
    (ensures_ofExcept (fun out hout => hempty.collectFactors hes hout) fun _ _ => trivial)
    fun out hout => ?_
  cases out with
  | zero c => exact ensures_pure hout
  | collected s =>
    refine (gatherFactors_keepsExact h hout.factors ⟨hout.constant, by simp⟩).bind fun g hg => ?_
    refine Ensures.bind (P := fun _ => True) (ensures_ofExcept (fun _ _ => trivial)
      fun _ _ => trivial) fun _ _ => ensures_pure hg.toProduct

/-! ### The other rules -/

lemma quotient_isExact (hl : l.IsExactWith IsWholeConstant) (hr : r.IsExactWith IsWholeConstant)
    (h : quotient l r = .ok e) : e.IsExactWith IsWholeConstant := by
  unfold quotient at h
  split at h
  · obtain ⟨c, hc, h⟩ := bind_eq_ok_iff.1 h
    obtain rfl := pure_eq_ok_iff.1 h
    exact Number.isExact_div hl hr hc
  · cases h
    exact ⟨hl, hr⟩

lemma constantPower_isExact {b p : Number} (hb : b.isExact) (hp : (const p).IsWholeConstant)
    (h : constantPower b p = .ok e) : e.IsExactWith IsWholeConstant := by
  unfold constantPower at h
  split at h
  · next c hc =>
    cases h
    obtain ⟨p', hp', n, hn⟩ := isWholeConstant_iff.1 hp
    cases hp'
    exact Number.isExact_pow hb hn hc
  · cases h
    exact isExactWith_pow hb hp
  · cases h

lemma powerOf_keepsExact (h : KeepsExact simp) (hb : l.IsExactWith IsWholeConstant)
    (hp : r.IsWholeConstant) :
    (powerOf simp l r).Ensures (IsExactWith IsWholeConstant) fun _ => True := by
  unfold powerOf
  split
  · next b q =>
    obtain ⟨hb, -, hq⟩ := hb
    refine (h.whole (.mul r q) ⟨hp.isWholeTree, hq.isWholeTree⟩).bind fun s hs => ?_
    exact h.keeps _ (isExactWith_pow hb hs).toTree
  · exact ensures_ofExcept (fun e he => constantPower_isExact hb hp he) fun _ _ => trivial
  · exact ensures_pure (isExactWith_pow hb hp)

lemma power_keepsExact (h : KeepsExact simp) (hb : l.IsExactWith IsWholeConstant)
    (hp : r.IsWholeConstant) :
    (power simp l r).Ensures (IsExactWith IsWholeConstant) fun _ => True := by
  unfold power
  split
  · split
    · exact ensures_pure hb
    · split
      · exact ensures_pure rfl
      · exact powerOf_keepsExact h hb hp
  · exact powerOf_keepsExact h hb hp

lemma opposite_keepsExact (h : KeepsExact simp) (he : e.IsExactWith IsWholeConstant) :
    (opposite simp e).Ensures (IsExactWith IsWholeConstant) fun _ => True := by
  cases e with
  | const c => exact ensures_pure (Number.isExact_neg he)
  | neg e => exact ensures_pure he
  | add l r => exact h.keeps _ he.toTree
  | sub l r => exact h.keeps _ he.toTree
  | mul l r => exact h.keeps _ he.toTree
  | div n d => exact h.keeps _ he.toTree
  | _ => exact ensures_pure he

/-! ### Simplification -/

lemma step_keepsExact (h : KeepsExact simp) (he : e.IsExactWith IsWholeTree) :
    (step simp e).Ensures (IsExactWith IsWholeConstant) fun _ => True := by
  cases e with
  | const c => exact ensures_pure he
  | var y => exact ensures_pure trivial
  | add l r => exact sum_keepsExact h he.1 he.2
  | mul l r => exact product_keepsExact h he.1 he.2
  | sub l r =>
    refine (h.keeps l he.1).bind fun l' hl => (h.keeps r he.2).bind fun r' hr => ?_
    refine (h.keeps (.neg r') hr.toTree).bind fun m hm => ?_
    exact h.keeps _ ⟨hl.toTree, hm.toTree⟩
  | div n d =>
    refine (h.keeps n he.1).bind fun n' hn => (h.keeps d he.2).bind fun d' hd => ?_
    exact ensures_ofExcept (fun r hr => quotient_isExact hn hd hr) fun _ _ => trivial
  | pow b p =>
    refine (h.keeps b he.1).bind fun b' hb => (h.whole p he.2.2).bind fun p' hp => ?_
    exact power_keepsExact h hb hp
  | log b a =>
    refine (h.keeps b he.1).bind fun b' hb => (h.keeps a he.2).bind fun a' ha => ?_
    exact ensures_pure ⟨hb, ha⟩
  | neg u => exact (h.keeps u he).bind fun u' hu => opposite_keepsExact h hu
  | other m k es => exact ensures_throw trivial

/-- A whole number is worked out at any depth that gives an outcome. -/
lemma within_whole (n : Nat) (he : e.IsWholeTree) :
    (within n e).Ensures IsWholeConstant fun _ => True := by
  refine ⟨fun r hr => ?_, fun _ _ => trivial⟩
  obtain ⟨k, hk⟩ := he.exists_value ⟨fun _ => 0, fun _ _ => none⟩
  obtain ⟨c, hc, hval⟩ := exists_simplify_of_value he.isArithmetic hk
  obtain rfl := Except.ok.inj (hc.symm.trans (simplify_eq_iff.2 ⟨n, hr⟩))
  exact isWholeConstant_iff.2 ⟨c, rfl, k, hval⟩

lemma within_keepsExact (n : Nat) : KeepsExact (within n) := by
  induction n with
  | zero =>
    have hnothing (e : Expr) : (within 0 e).Ensures (IsExactWith IsWholeConstant) fun _ => True :=
      ⟨fun _ h => (nomatch h), fun _ h => (nomatch h)⟩
    exact ⟨fun e _ => hnothing e, fun e => within_whole 0⟩
  | succ n ih => exact ⟨fun e => step_keepsExact ih, fun e => within_whole (n + 1)⟩

end Simplify

lemma simplify_isExactWith (he : e.IsExactWith IsWholeTree) (h : simplify e = .ok r) :
    r.IsExactWith IsWholeConstant := by
  obtain ⟨n, hn⟩ := simplify_eq_iff.1 h
  exact ((Simplify.within_keepsExact n).keeps e he).1 r hn

end SymbolicAlgebra
