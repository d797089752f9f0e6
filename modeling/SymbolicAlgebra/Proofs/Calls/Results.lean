import SymbolicAlgebra.Proofs.Calls
import SymbolicAlgebra.Proofs.NormalForm.Product
import SymbolicAlgebra.Proofs.NormalForm.Sum
import SymbolicAlgebra.Proofs.Occurrences
import SymbolicAlgebra.Proofs.Refusals

/-!
# The results of calls

What the rule for an expression makes of the results of the calls that it makes, as a relation:
`Yields S e r` says that the rule for `e` has the result `r` if calls have the results that `S`
relates them to. A simplified expression is yielded by results of calls that are really made
(`yields_of_simplify`), so what is known of all these calls can be used for it.
-/

namespace SymbolicAlgebra.Simplify

open Bounded

variable {S : Expr → Expr → Prop} {simp : Expr → Bounded Expr} {e l r x : Expr} {c : Chain}
    {es : List Expr}

/-! ### What the rules yield -/

section

variable (S)

/-- Like terms as one term. -/
def TermResult (t : LikeTerms) (r : Expr) : Prop :=
  if t.coefficient.isOne then r = t.term else S (.mul (.const t.coefficient) t.term) r

/-- The sum of simplified operands. -/
inductive SumResult (es : List Expr) : Expr → Prop
  | mk {ts : List LikeTerms} {rs : List Expr}
      (hts : termCollector.collect (es.filterMap Chain.sum.rest?) [] = .ok ts)
      (hrs : List.Forall₂ (TermResult S) (ts.filter fun t => !t.coefficient.isZero) rs) :
      SumResult es (rs.foldl (Gathered.add (· + ·)) ⟨es.foldl Chain.sum.shift 0, []⟩).toSum

/-- Like factors as one factor. -/
def FactorResult (f : LikeFactors) (r : Expr) : Prop :=
  match f.exponents with
  | [p] => r = if p == .const 1 then f.base else .pow f.base p
  | ps => S (.pow f.base (Chain.sum.build ps)) r

/-- The product of simplified operands. -/
inductive ProductResult (es : List Expr) : Expr → Prop
  | zero {c : Number} (hmem : .const c ∈ es) (hc : c.isZero) : ProductResult es (.const c)
  | collected {fs : List LikeFactors} {rs : List Expr} (hz : ∀ c, .const c ∈ es → c.isZero = false)
      (hfs : factorCollector.collect (es.filterMap Chain.product.rest?) [] = .ok fs)
      (hrs : List.Forall₂ (FactorResult S) fs rs) :
      ProductResult es
        (rs.foldl (Gathered.add (· * ·)) ⟨es.foldl Chain.product.shift 1, []⟩).toProduct

/-- The sum or product of simplified operands. -/
def ChainResult : Chain → List Expr → Expr → Prop
  | .sum => SumResult S
  | .product => ProductResult S

/-- The power of two simplified expressions, where the exponent is neither zero nor one. -/
inductive ProperPowerResult : Expr → Expr → Expr → Prop
  | nested {b q p s r : Expr} (hs : S (.mul p q) s) (hr : S (.pow b s) r) :
      ProperPowerResult (.pow b q) p r
  | constant {b p : Number} {r : Expr} (h : constantPower b p = .ok r) :
      ProperPowerResult (.const b) (.const p) r
  | power {b p : Expr} (hb : ∀ b' q, b ≠ .pow b' q) (hc : (b.isConstant && p.isConstant) = false) :
      ProperPowerResult b p (.pow b p)

/-- The power of two simplified expressions. -/
def PowerResult (b : Expr) : Expr → Expr → Prop
  | .const c, r =>
    if c.isOne then r = b else if c.isZero then r = .const 1 else ProperPowerResult S b (.const c) r
  | p, r => ProperPowerResult S b p r

/-- The opposite of a simplified expression. -/
inductive OppositeResult : Expr → Expr → Prop
  | const (c : Number) : OppositeResult (.const c) (.const (-c))
  | add {l m r : Expr} (h : S (.add (.neg l) (.neg m)) r) : OppositeResult (.add l m) r
  | sub {l m r : Expr} (h : S (.add (.neg l) m) r) : OppositeResult (.sub l m) r
  | mul {l m r : Expr} (h : S (.mul (.neg l) m) r) : OppositeResult (.mul l m) r
  | div {n d r : Expr} (h : S (.div (.neg n) d) r) : OppositeResult (.div n d) r
  | neg (u : Expr) : OppositeResult (.neg u) u
  | sign {u : Expr} (h : takesSign u) : OppositeResult u (.neg u)
  | other (m : Mark) (k : String) (us : List Expr) :
      OppositeResult (.other m k us) (.neg (.other m k us))

/-- What the rule for an expression yields. -/
inductive Yields : Expr → Expr → Prop
  | const (c : Number) : Yields (.const c) (.const c)
  | var (x : String) : Yields (.var x) (.var x)
  | node (c : Chain) {l m r : Expr} {rs : List Expr}
      (hrs : List.Forall₂ S (c.operands (c.node l m)) rs)
      (h : ChainResult S c (rs.flatMap c.operands) r) : Yields (c.node l m) r
  | sub {l m x y z r : Expr} (hl : S l x) (hm : S m y) (hz : S (.neg y) z) (hr : S (.add x z) r) :
      Yields (.sub l m) r
  | div {n d x y r : Expr} (hn : S n x) (hd : S d y) (h : quotient x y = .ok r) :
      Yields (.div n d) r
  | pow {b p x y r : Expr} (hb : S b x) (hp : S p y) (h : PowerResult S x y r) : Yields (.pow b p) r
  | log {b a x y : Expr} (hb : S b x) (ha : S a y) : Yields (.log b a) (.log x y)
  | neg {u x r : Expr} (hu : S u x) (h : OppositeResult S x r) : Yields (.neg u) r

end

namespace Yields

lemma of_const {k : Number} (h : Yields S (.const k) r) : r = .const k := by
  generalize he : Expr.const k = e at h
  cases h with
  | const =>
    cases he
    rfl
  | node c => cases c <;> cases he
  | _ => cases he

lemma of_var {y : String} (h : Yields S (.var y) r) : r = .var y := by
  generalize he : Expr.var y = e at h
  cases h with
  | var =>
    cases he
    rfl
  | node c => cases c <;> cases he
  | _ => cases he

lemma of_node {m : Expr} (h : Yields S (c.node l m) r) :
    ∃ rs, List.Forall₂ S (c.operands (c.node l m)) rs ∧
    ChainResult S c (rs.flatMap c.operands) r := by
  generalize he : c.node l m = e at h
  cases h with
  | node d hrs h =>
    cases c <;> cases d <;> cases he
    · exact ⟨_, hrs, h⟩
    · exact ⟨_, hrs, h⟩
  | _ => cases c <;> cases he

lemma of_sub {m : Expr} (h : Yields S (.sub l m) r) :
    ∃ x y z, S l x ∧ S m y ∧ S (.neg y) z ∧ S (.add x z) r := by
  generalize he : Expr.sub l m = e at h
  cases h with
  | sub hl hm hz hr =>
    cases he
    exact ⟨_, _, _, hl, hm, hz, hr⟩
  | node c => cases c <;> cases he
  | _ => cases he

lemma of_div {n d : Expr} (h : Yields S (.div n d) r) :
    ∃ x y, S n x ∧ S d y ∧ quotient x y = .ok r := by
  generalize he : Expr.div n d = e at h
  cases h with
  | div hn hd h =>
    cases he
    exact ⟨_, _, hn, hd, h⟩
  | node c => cases c <;> cases he
  | _ => cases he

lemma of_pow {b p : Expr} (h : Yields S (.pow b p) r) :
    ∃ x y, S b x ∧ S p y ∧ PowerResult S x y r := by
  generalize he : Expr.pow b p = e at h
  cases h with
  | pow hb hp h =>
    cases he
    exact ⟨_, _, hb, hp, h⟩
  | node c => cases c <;> cases he
  | _ => cases he

lemma of_log {b a : Expr} (h : Yields S (.log b a) r) : ∃ x y, S b x ∧ S a y ∧ r = .log x y := by
  generalize he : Expr.log b a = e at h
  cases h with
  | log hb ha =>
    cases he
    exact ⟨_, _, hb, ha, rfl⟩
  | node c => cases c <;> cases he
  | _ => cases he

lemma of_neg {u : Expr} (h : Yields S (.neg u) r) : ∃ x, S u x ∧ OppositeResult S x r := by
  generalize he : Expr.neg u = e at h
  cases h with
  | neg hu h =>
    cases he
    exact ⟨_, hu, h⟩
  | node c => cases c <;> cases he
  | _ => cases he

lemma not_other {mark : Mark} {k : String} {us : List Expr} : ¬Yields S (.other mark k us) r := by
  intro h
  generalize he : Expr.other mark k us = e at h
  cases h with
  | node c => cases c <;> cases he
  | _ => cases he

end Yields

/-! ### The rules yield their results -/

/-- A simplifier whose results `S` relates to the expressions they are results for. -/
def Answers (simp : Expr → Bounded Expr) (S : Expr → Expr → Prop) : Prop :=
  ∀ x, (simp x).Ensures (S x) fun _ => True

lemma operands_yields (h : Answers simp S) (c : Chain) (e : Expr) : (operands simp c e).Ensures
    (fun es => ∃ rs, List.Forall₂ S (c.operands e) rs ∧ es = rs.flatMap c.operands)
      fun _ => True := by
  induction e using c.induct with
  | node l m ihl ihm =>
    rw [operands_node]
    refine ihl.bind ?_
    rintro _ ⟨rs, hrs, rfl⟩
    refine ihm.bind ?_
    rintro _ ⟨rs', hrs', rfl⟩
    rw [Chain.operands_node, ← List.flatMap_append]
    exact ensures_pure ⟨rs ++ rs', List.rel_append hrs hrs', rfl⟩
  | leaf e hleaf =>
    rw [operands_leaf simp hleaf, hleaf]
    exact (h e).bind fun r hr => ensures_pure ⟨[r], .cons hr .nil, by simp⟩

lemma toTerm_yields (h : Answers simp S) (t : LikeTerms) :
    (t.toTerm simp).Ensures (TermResult S t) fun _ => True := by
  unfold LikeTerms.toTerm TermResult
  split
  · exact ensures_pure rfl
  · exact h _

lemma gatherTerms_yields (h : Answers simp S) (ts : List LikeTerms) (g : Gathered) :
    (gatherTerms simp ts g).Ensures
      (fun g' => ∃ rs, List.Forall₂ (TermResult S) (ts.filter fun t => !t.coefficient.isZero) rs ∧
        g' = rs.foldl (Gathered.add (· + ·)) g) fun _ => True := by
  induction ts generalizing g with
  | nil => exact ensures_pure ⟨[], .nil, rfl⟩
  | cons t ts ih =>
    rw [gatherTerms]
    split
    · next hz =>
      rw [List.filter_cons_of_neg (by simpa using hz)]
      exact ih g
    · next hz =>
      rw [List.filter_cons_of_pos (by simpa using hz)]
      refine (toTerm_yields h t).bind fun r hr => (ih _).mono ?_
      rintro _ ⟨rs, hrs, rfl⟩
      exact ⟨r :: rs, .cons hr hrs, rfl⟩

lemma sum_yields (h : Answers simp S) (l m : Expr) :
    (sum simp l m).Ensures (Yields S (.add l m)) fun _ => True := by
  refine (operands_yields h .sum (.add l m)).bind ?_
  rintro _ ⟨rs, hrs, rfl⟩
  rw [foldlM_add_eq]
  refine Ensures.bind (P := fun s : CollectedSum => ∃ ts,
    termCollector.collect ((rs.flatMap Chain.sum.operands).filterMap Chain.sum.rest?) [] = .ok ts ∧
      s = ⟨(rs.flatMap Chain.sum.operands).foldl Chain.sum.shift 0, ts⟩)
    (ensures_ofExcept (fun s hs => ?_) fun _ _ => trivial) ?_
  · obtain ⟨ts, hts, hs⟩ := bind_eq_ok_iff.1 hs
    exact ⟨ts, hts, (pure_eq_ok_iff.1 hs).symm⟩
  · rintro _ ⟨ts, hts, rfl⟩
    refine (gatherTerms_yields h ts _).bind ?_
    rintro _ ⟨gs, hgs, rfl⟩
    exact ensures_pure (.node .sum hrs (.mk hts hgs))

lemma toFactor_yields (h : Answers simp S) (f : LikeFactors) :
    (f.toFactor simp).Ensures (FactorResult S f) fun _ => True := by
  obtain ⟨key, base, exponents⟩ := f
  match exponents with
  | [p] =>
    exact Ensures.bind (P := fun _ => True)
      (ensures_ofExcept (fun _ _ => trivial) fun _ _ => trivial)
      fun _ _ => ensures_pure rfl
  | [] => exact h _
  | _ :: _ :: _ => exact h _

lemma gatherFactors_yields (h : Answers simp S) (fs : List LikeFactors) (g : Gathered) :
    (gatherFactors simp fs g).Ensures
      (fun g' => ∃ rs, List.Forall₂ (FactorResult S) fs rs ∧
        g' = rs.foldl (Gathered.add (· * ·)) g) fun _ => True := by
  induction fs generalizing g with
  | nil => exact ensures_pure ⟨[], .nil, rfl⟩
  | cons f fs ih =>
    refine (toFactor_yields h f).bind fun r hr => (ih _).mono ?_
    rintro _ ⟨rs, hrs, rfl⟩
    exact ⟨r :: rs, .cons hr hrs, rfl⟩

/-- A product with the outcome zero has a zero among its operands. -/
lemma exists_zero_of_collectFactors {k : Number} {s : CollectedProduct}
    (h : collectFactors es s = .ok (.zero k)) : .const k ∈ es ∧ k.isZero := by
  induction es generalizing s with
  | nil => cases h
  | cons e es ih =>
    have htail {s : CollectedProduct} (h : collectFactors es s = .ok (.zero k)) :
        .const k ∈ e :: es ∧ k.isZero := ⟨.tail e (ih h).1, (ih h).2⟩
    by_cases hc : ∃ c, e = .const c
    · obtain ⟨c, rfl⟩ := hc
      rw [collectFactors] at h
      split at h
      · next hz =>
        cases h
        exact ⟨List.mem_cons_self, hz⟩
      · exact htail h
    · by_cases hn : ∃ u, e = .neg u
      · obtain ⟨u, rfl⟩ := hn
        obtain ⟨s', -, h⟩ := bind_eq_ok_iff.1 h
        exact htail h
      · rw [collectFactors_cons es s (fun c h => hc ⟨c, h⟩) fun u h => hn ⟨u, h⟩] at h
        obtain ⟨s', -, h⟩ := bind_eq_ok_iff.1 h
        exact htail h

lemma product_yields (h : Answers simp S) (l m : Expr) :
    (product simp l m).Ensures (Yields S (.mul l m)) fun _ => True := by
  refine (operands_yields h .product (.mul l m)).bind ?_
  rintro _ ⟨rs, hrs, rfl⟩
  refine Ensures.bind
    (P := fun out => collectFactors (rs.flatMap Chain.product.operands) ⟨1, []⟩ = .ok out)
    (ensures_ofExcept (fun _ hout => hout) fun _ _ => trivial) fun out hout => ?_
  cases out with
  | zero k =>
    obtain ⟨hmem, hz⟩ := exists_zero_of_collectFactors hout
    exact ensures_pure (.node .product hrs (.zero hmem hz))
  | collected s =>
    have hz := not_isZero_of_collected hout
    rw [collectFactors_eq _ hz] at hout
    obtain ⟨fs, hfs, hs⟩ := bind_eq_ok_iff.1 hout
    cases pure_eq_ok_iff.1 hs
    refine (gatherFactors_yields h fs _).bind ?_
    rintro _ ⟨gs, hgs, rfl⟩
    exact Ensures.bind (P := fun _ => True)
      (ensures_ofExcept (fun _ _ => trivial) fun _ _ => trivial)
      fun _ _ => ensures_pure (.node .product hrs (.collected hz hfs hgs))

lemma powerOf_yields (h : Answers simp S) (b p : Expr) :
    (powerOf simp b p).Ensures (ProperPowerResult S b p) fun _ => True := by
  unfold powerOf
  split
  · exact (h _).bind fun s hs => (h _).mono fun r hr => .nested hs hr
  · exact ensures_ofExcept (fun r hr => .constant hr) fun _ _ => trivial
  · next hpow hconst =>
    refine ensures_pure (.power hpow ?_)
    by_contra hboth
    simp only [Bool.not_eq_false, Bool.and_eq_true] at hboth
    obtain ⟨i, rfl⟩ := Expr.eq_const_of_isConstant hboth.1
    obtain ⟨j, rfl⟩ := Expr.eq_const_of_isConstant hboth.2
    exact hconst i j rfl rfl

lemma power_yields (h : Answers simp S) (b p : Expr) :
    (power simp b p).Ensures (PowerResult S b p) fun _ => True := by
  cases p with
  | const c =>
    have hresult : PowerResult S b (.const c) = fun r =>
        if c.isOne then r = b else if c.isZero then r = .const 1
        else ProperPowerResult S b (.const c) r := rfl
    rw [hresult, power]
    by_cases hone : c.isOne
    · simp only [if_pos hone]
      exact ensures_pure rfl
    by_cases hzero : c.isZero
    · simp only [if_neg hone, if_pos hzero]
      exact ensures_pure rfl
    · simp only [if_neg hone, if_neg hzero]
      exact powerOf_yields h b (.const c)
  | _ => exact powerOf_yields h b _

lemma opposite_yields (h : Answers simp S) (u : Expr) :
    (opposite simp u).Ensures (OppositeResult S u) fun _ => True := by
  cases u with
  | const c => exact ensures_pure (.const c)
  | add l m => exact (h _).mono fun r hr => .add hr
  | sub l m => exact (h _).mono fun r hr => .sub hr
  | mul l m => exact (h _).mono fun r hr => .mul hr
  | div n d => exact (h _).mono fun r hr => .div hr
  | neg u => exact ensures_pure (.neg u)
  | other m k us => exact ensures_pure (.other m k us)
  | _ => exact ensures_pure (.sign rfl)

lemma step_yields (h : Answers simp S) (e : Expr) :
    (step simp e).Ensures (Yields S e) fun _ => True := by
  cases e with
  | const c => exact ensures_pure (.const c)
  | var x => exact ensures_pure (.var x)
  | add l m => exact sum_yields h l m
  | mul l m => exact product_yields h l m
  | sub l m =>
    exact (h l).bind fun x hx => (h m).bind fun y hy => (h _).bind fun z hz =>
      (h _).mono fun r hr => .sub hx hy hz hr
  | div n d =>
    exact (h n).bind fun x hx => (h d).bind fun y hy =>
      ensures_ofExcept (fun r hr => .div hx hy hr) fun _ _ => trivial
  | pow b p =>
    exact (h b).bind fun x hx => (h p).bind fun y hy => (power_yields h x y).mono fun r hr =>
      .pow hx hy hr
  | log b a => exact (h b).bind fun x hx => (h a).bind fun y hy => ensures_pure (.log hx hy)
  | neg u => exact (h u).bind fun x hx => (opposite_yields h x).mono fun r hr => .neg hx hr
  | other m k es => exact ensures_throw trivial

/-! ### Calls that are made -/

section

variable {P : Expr → Prop} [DecidablePred P]

variable (P) in
/-- The simplifier without a bound, with outcomes for some expressions only. -/
def answering (e : Expr) : Bounded Expr :=
  if P e then unbounded e else ExceptT.mk none

lemma answering_of_pos (h : P e) : answering P e = unbounded e :=
  if_pos h

lemma answering_of_neg (h : ¬P e) : (answering P e).run = none := by
  rw [answering, if_neg h]
  rfl

lemma allExtend_answering : AllExtend (answering P) unbounded := by
  intro e out hout
  by_cases h : P e
  · rwa [answering_of_pos h] at hout
  · rw [answering_of_neg h] at hout
    cases hout

/-- A level has its outcome from a simplifier just when this answers whatever the level asks for. -/
lemma isSome_step_answering_iff : (step (answering P) e).run.isSome ↔ ∀ x, Asks e x → P x := by
  obtain ⟨xs, hxs⟩ := step_finitary e
  rw [← not_iff_not, Bool.not_eq_true, Option.isSome_eq_false_iff, Option.isNone_iff_eq_none,
    hxs.isNone_iff _ allExtend_answering]
  constructor
  · rintro ⟨x, hx, hnone⟩ hall
    rw [answering_of_pos (hall x (hxs.asks_iff.2 hx))] at hnone
    cases hnone
  · intro h
    obtain ⟨x, h⟩ := not_forall.1 h
    obtain ⟨hasks, hx⟩ := Classical.not_imp.1 h
    exact ⟨x, hxs.asks_iff.1 hasks, answering_of_neg hx⟩

end

/-- A simplified expression is yielded by the results of the calls that are made for it. -/
theorem yields_of_simplify (hS : ∀ {x y}, Asks e x → simplify x = .ok y → S x y)
    (h : simplify e = .ok r) : Yields S e r := by
  classical
  have hanswers : Answers (answering (Asks e)) S := by
    refine fun x => ⟨fun y hy => ?_, fun _ _ => trivial⟩
    by_cases hx : Asks e x
    · rw [answering_of_pos hx] at hy
      exact hS hx (Option.some.inj hy)
    · rw [answering_of_neg hx] at hy
      cases hy
  obtain ⟨out, hout⟩ := Option.isSome_iff_exists.1
    (isSome_step_answering_iff.2 fun x (hx : Asks e x) => hx)
  have hsame := step_extends (allExtend_answering (P := Asks e)) e out hout
  rw [step_unbounded, h] at hsame
  obtain rfl : out = .ok r := (Option.some.inj hsame).symm
  exact (step_yields hanswers e).1 r hout

end SymbolicAlgebra.Simplify
