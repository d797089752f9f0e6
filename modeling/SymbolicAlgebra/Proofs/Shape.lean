import SymbolicAlgebra.Proofs.DecidableExpr
import SymbolicAlgebra.Proofs.NormalForm
import SymbolicAlgebra.Proofs.Occurrences

/-!
# The shape of simplified expressions

What a simplified expression looks like, node by node (`isRegular_of_isNodeOf_simplify`):
differences are gone, a minus sign stands before variables, powers and logarithms only, and a
constant stands at the front of a sum or product only, where it matters; quotients and powers of two
constants are worked out, except for powers that are no real numbers. Nothing is asked of the
expression that is simplified.

Every rule puts its result together from parts of simplified expressions, from constants and from
what is simplified on the way. So regular expressions are followed through the rules of one level,
and then through all levels. Collected operands may still be chains themselves when a chain is built
of them, so nothing is said of the operands of a chain beyond that they are no constants.
-/

namespace SymbolicAlgebra

open Simplify

/-! ### The nodes of an expression -/

namespace Expr

/-- An expression that stands somewhere in another. -/
inductive IsNodeOf : Expr → Expr → Prop
  | self (e : Expr) : IsNodeOf e e
  | child {x y e : Expr} : IsNodeOf x y → y ∈ e.children → IsNodeOf x e

/-- A property of all nodes of an expression. -/
def Everywhere (P : Expr → Prop) (e : Expr) : Prop :=
  ∀ x, x.IsNodeOf e → P x

variable {P : Expr → Prop} {e x : Expr}

lemma everywhere_iff : e.Everywhere P ↔ P e ∧ ∀ y ∈ e.children, y.Everywhere P := by
  constructor
  · exact fun h => ⟨h e (.self e), fun y hy x hx => h x (.child hx hy)⟩
  · rintro ⟨he, hes⟩ x hx
    cases hx with
    | self => exact he
    | child hx hy => exact hes _ hy x hx

lemma Everywhere.self (h : e.Everywhere P) : P e :=
  h e (.self e)

lemma Everywhere.of_mem_children (h : e.Everywhere P) (hx : x ∈ e.children) : x.Everywhere P :=
  (everywhere_iff.1 h).2 x hx

lemma everywhere_node {c : Chain} {l r : Expr} : (c.node l r).Everywhere P ↔
    P (c.node l r) ∧ l.Everywhere P ∧ r.Everywhere P := by
  rw [everywhere_iff]
  cases c <;> simp [Chain.node, children]

/-- The operands of a chain are among its nodes. -/
lemma Everywhere.of_mem_operands {c : Chain} (h : e.Everywhere P) (hx : x ∈ c.operands e) :
    x.Everywhere P := by
  induction e using c.induct with
  | node l r ihl ihr =>
    obtain ⟨-, hl, hr⟩ := everywhere_node.1 h
    rw [Chain.operands_node, List.mem_append] at hx
    exact hx.elim (ihl hl) (ihr hr)
  | leaf e he =>
    rw [he, List.mem_singleton] at hx
    rwa [hx]

/-! ### Regular nodes -/

/-- The shape that simplification gives to a node. -/
def IsRegular : Expr → Prop
  | const _ => True
  | var _ => True
  | add l r => r.isConstant = false ∧ ∀ c, l = const c → c.isZero = false
  | sub _ _ => False
  | mul l r => r.isConstant = false ∧ ∀ c, l = const c →
      c.isZero = false ∧ c.isOne = false ∧ (c == .integer (-1) → takesSign r = false)
  | div n d => (n.isConstant && d.isConstant) = false
  | pow b p => IsNormalPower b p
  | log _ _ => True
  | neg e => takesSign e
  | other _ _ _ => False

/-- An operand that can stand anywhere in a chain. -/
structure IsRegularOperand (e : Expr) : Prop where
  regular : e.Everywhere IsRegular
  notConstant : e.isConstant = false

lemma everywhere_const (c : Number) : (const c).Everywhere IsRegular :=
  everywhere_iff.2 ⟨trivial, by simp [children]⟩

/-- Where no part is a constant, both chains take any two parts. -/
lemma isRegular_node {c : Chain} {l r : Expr} (hl : l.isConstant = false)
    (hr : r.isConstant = false) : (c.node l r).IsRegular := by
  have hleft (k : Number) (h : l = const k) : False := by simp [h, isConstant] at hl
  cases c with
  | sum => exact ⟨hr, fun k h => (hleft k h).elim⟩
  | product => exact ⟨hr, fun k h => (hleft k h).elim⟩

/-- A chain of such operands is one. -/
lemma isRegularOperand_build {c : Chain} {es : List Expr} (hes : ∀ e ∈ es, e.IsRegularOperand)
    (hne : es ≠ []) : (c.build es).IsRegularOperand := by
  cases es with
  | nil => exact absurd rfl hne
  | cons e es =>
    show (c.link e es).IsRegularOperand
    induction es generalizing e with
    | nil => exact hes e (by simp)
    | cons e' es ih =>
      have he := hes e (by simp)
      have hrest := ih e' (fun x hx => hes x (by simp_all)) (by simp)
      refine ⟨everywhere_node.2 ⟨?_, he.regular, hrest.regular⟩, by cases c <;> rfl⟩
      exact isRegular_node he.notConstant hrest.notConstant

end Expr

open SymbolicAlgebra.Expr

variable {e r : Expr}

namespace Simplify

open Bounded

/-! ### Putting chains together -/

/-- Gathered operands of which chains can be built. -/
def Gathered.IsRegular (g : Gathered) : Prop :=
  ∀ e ∈ g.operands, e.IsRegularOperand

lemma Gathered.IsRegular.add {op : Number → Number → Number} {g : Gathered} (hg : g.IsRegular)
    (he : e.Everywhere Expr.IsRegular) : (g.add op e).IsRegular := by
  unfold Gathered.add
  split
  · exact hg
  · next hc =>
    refine List.forall_mem_append.2 ⟨hg, List.forall_mem_singleton.2 ⟨he, ?_⟩⟩
    by_contra h
    obtain ⟨c, rfl⟩ := eq_const_of_isConstant (by simpa using h)
    exact hc c rfl

lemma Gathered.IsRegular.toSum {g : Gathered} (hg : g.IsRegular) :
    g.toSum.Everywhere Expr.IsRegular := by
  unfold Gathered.toSum
  split
  · exact everywhere_const _
  · next es hne =>
    have hsum := isRegularOperand_build (c := .sum) hg hne
    split
    · exact hsum.regular
    · next hz =>
      match hops : g.operands with
      | [] => exact absurd hops hne
      | e :: es =>
        rw [hops] at hsum
        refine (everywhere_node (c := .sum)).2
          ⟨⟨hsum.notConstant, ?_⟩, everywhere_const _, hsum.regular⟩
        rintro c hc
        obtain rfl := Expr.const.inj hc
        simpa using hz

lemma Gathered.IsRegular.toProduct {g : Gathered} (hg : g.IsRegular) :
    g.toProduct.Everywhere Expr.IsRegular := by
  unfold Gathered.toProduct
  split
  · exact everywhere_const _
  · next hz =>
    split
    · exact everywhere_const _
    · next e es hops =>
      have hne : g.operands ≠ [] := by simp [hops]
      have hproduct := isRegularOperand_build (c := .product) hg hne
      rw [hops] at hproduct
      have he := hg e (by simp [hops])
      split
      · next hsign =>
        simp only [Bool.and_eq_true] at hsign
        exact everywhere_iff.2 ⟨hsign.2, by simpa [children] using he.regular⟩
      · next hsign =>
        split
        · exact hproduct.regular
        · next hone =>
          refine (everywhere_node (c := .product)).2
            ⟨⟨hproduct.notConstant, ?_⟩, everywhere_const _, hproduct.regular⟩
          rintro c hc
          obtain rfl := Expr.const.inj hc
          refine ⟨by simpa using hz, by simpa using hone, fun hneg => ?_⟩
          -- more than one factor make a product, which takes no sign
          cases es with
          | nil => simpa [hneg, Chain.link] using hsign
          | cons e' es => rfl

/-! ### Sums -/

/-- A simplifier whose results are regular at every node. -/
def GivesRegular (simp : Expr → Bounded Expr) : Prop :=
  ∀ e, (simp e).Ensures (Everywhere IsRegular) fun _ => True

variable {simp : Expr → Bounded Expr}

lemma operands_givesRegular (h : GivesRegular simp) (c : Chain) (e : Expr) :
    (operands simp c e).Ensures (fun es => ∀ u ∈ es, u.Everywhere IsRegular) fun _ => True := by
  induction e using c.induct with
  | node l r ihl ihr =>
    rw [operands_node]
    exact ihl.bind fun es hes => ihr.bind fun es' hes' =>
      ensures_pure (List.forall_mem_append.2 ⟨hes, hes'⟩)
  | leaf e he =>
    rw [operands_leaf simp he]
    exact (h e).bind fun r hr => ensures_pure fun u hu => hr.of_mem_operands hu

lemma splitCoefficient_regular (he : e.Everywhere IsRegular) :
    (splitCoefficient e).1.Everywhere IsRegular := by
  unfold splitCoefficient
  split
  · exact he.of_mem_children (by simp [children])
  · exact he.of_mem_children (by simp [children])
  · exact he.of_mem_children (by simp [children])
  · exact he

lemma addTerm_regular {key term : Expr} {c : Number} {ts : List LikeTerms}
    (hterm : term.Everywhere IsRegular) (hts : ∀ t ∈ ts, t.term.Everywhere IsRegular) :
    ∀ t ∈ addTerm key term c ts, t.term.Everywhere IsRegular := by
  induction ts with
  | nil => simpa [addTerm] using hterm
  | cons t ts ih =>
    obtain ⟨ht, hts⟩ := List.forall_mem_cons.1 hts
    unfold addTerm
    split
    · exact List.forall_mem_cons.2 ⟨ht, hts⟩
    · exact List.forall_mem_cons.2 ⟨ht, ih hts⟩

lemma foldlM_add_regular {es : List Expr} {s s' : CollectedSum}
    (hs : ∀ t ∈ s.terms, t.term.Everywhere IsRegular) (hes : ∀ e ∈ es, e.Everywhere IsRegular)
    (h : es.foldlM CollectedSum.add s = .ok s') :
    ∀ t ∈ s'.terms, t.term.Everywhere IsRegular := by
  induction es generalizing s with
  | nil => rwa [← pure_eq_ok_iff.1 h]
  | cons e es ih =>
    obtain ⟨he, hes⟩ := List.forall_mem_cons.1 hes
    obtain ⟨s₁, hs₁, h⟩ := bind_eq_ok_iff.1 h
    refine ih ?_ hes h
    rcases s.add_eq e with ⟨c, rfl⟩ | hadd
    · obtain rfl := pure_eq_ok_iff.1 hs₁
      exact hs
    · rw [hadd] at hs₁
      obtain ⟨key, -, hs₁⟩ := bind_eq_ok_iff.1 hs₁
      obtain rfl := pure_eq_ok_iff.1 hs₁
      exact addTerm_regular (splitCoefficient_regular he) hs

lemma gatherTerms_givesRegular (h : GivesRegular simp) {ts : List LikeTerms} {g : Gathered}
    (hts : ∀ t ∈ ts, t.term.Everywhere IsRegular) (hg : g.IsRegular) :
    (gatherTerms simp ts g).Ensures Gathered.IsRegular fun _ => True := by
  induction ts generalizing g with
  | nil => exact ensures_pure hg
  | cons t ts ih =>
    obtain ⟨ht, hts⟩ := List.forall_mem_cons.1 hts
    have hterm : (t.toTerm simp).Ensures (Everywhere IsRegular) fun _ => True := by
      unfold LikeTerms.toTerm
      split
      · exact ensures_pure ht
      · exact h _
    unfold gatherTerms
    split
    · exact ih hts hg
    · exact hterm.bind fun r hr => ih hts (hg.add hr)

lemma sum_givesRegular (h : GivesRegular simp) (l r : Expr) :
    (sum simp l r).Ensures (Everywhere IsRegular) fun _ => True := by
  refine (operands_givesRegular h .sum (.add l r)).bind fun es hes => ?_
  refine Ensures.bind (P := fun s => ∀ t ∈ s.terms, t.term.Everywhere IsRegular)
    (ensures_ofExcept (fun s hs => foldlM_add_regular (by simp) hes hs) fun _ _ => trivial)
    fun s hs => ?_
  exact (gatherTerms_givesRegular h hs fun _ hx => absurd hx (by simp)).bind fun g hg =>
    ensures_pure hg.toSum

/-! ### Products -/

/-- Like factors with a regular base. A single exponent is one, or stands over the base as it stood
before, so that the factor is regular too. -/
structure LikeFactors.IsRegular (f : LikeFactors) : Prop where
  base : f.base.Everywhere Expr.IsRegular
  exponents : f.exponents ≠ []
  single : ∀ p, f.exponents = [p] → p == .const 1 ∨ (Expr.pow f.base p).Everywhere Expr.IsRegular

lemma isRegular_splitExponent (key : Expr) (he : e.Everywhere Expr.IsRegular) :
    LikeFactors.IsRegular ⟨key, (splitExponent e).1, [(splitExponent e).2]⟩ := by
  unfold splitExponent
  split
  · next b p =>
    refine ⟨he.of_mem_children (by simp [children]), by simp, fun q hq => .inr ?_⟩
    rwa [← List.singleton_inj.1 hq]
  · refine ⟨he, by simp, fun q hq => .inl ?_⟩
    rw [← List.singleton_inj.1 hq]
    rfl

lemma addFactor_regular {key : Expr} {fs : List LikeFactors} (he : e.Everywhere Expr.IsRegular)
    (hfs : ∀ f ∈ fs, f.IsRegular) :
    ∀ f ∈ addFactor key (splitExponent e).1 (splitExponent e).2 fs, f.IsRegular := by
  induction fs with
  | nil => exact List.forall_mem_singleton.2 (isRegular_splitExponent key he)
  | cons f fs ih =>
    obtain ⟨hf, hfs⟩ := List.forall_mem_cons.1 hfs
    unfold addFactor
    split
    · refine List.forall_mem_cons.2 ⟨⟨hf.base, by simp, fun p hp => ?_⟩, hfs⟩
      -- the exponent that was there is joined by another
      have hlen := congrArg List.length hp
      have hpos := List.length_pos_iff.2 hf.exponents
      simp only [List.length_append, List.length_singleton] at hlen
      omega
    · exact List.forall_mem_cons.2 ⟨hf, ih hfs⟩

lemma CollectedProduct.addFactor_regular {s s' : CollectedProduct}
    (he : e.Everywhere Expr.IsRegular) (hs : ∀ f ∈ s.factors, f.IsRegular)
    (h : s.addFactor e = .ok s') : ∀ f ∈ s'.factors, f.IsRegular := by
  obtain ⟨key, -, h⟩ := bind_eq_ok_iff.1 h
  obtain rfl := pure_eq_ok_iff.1 h
  exact Simplify.addFactor_regular he hs

/-- What becomes of regular factors. -/
def ProductOutcome.IsRegular : ProductOutcome → Prop
  | zero _ => True
  | collected s => ∀ f ∈ s.factors, f.IsRegular

lemma collectFactors_regular {es : List Expr} {s : CollectedProduct} {out : ProductOutcome}
    (hs : ∀ f ∈ s.factors, f.IsRegular) (hes : ∀ e ∈ es, e.Everywhere Expr.IsRegular)
    (h : collectFactors es s = .ok out) : out.IsRegular := by
  induction es generalizing s with
  | nil => rwa [← pure_eq_ok_iff.1 h]
  | cons e es ih =>
    obtain ⟨he, hrest⟩ := List.forall_mem_cons.1 hes
    by_cases hc : ∃ c, e = .const c
    · obtain ⟨c, rfl⟩ := hc
      rw [collectFactors] at h
      split at h
      · rw [← pure_eq_ok_iff.1 h]
        trivial
      · refine ih ?_ hrest h
        exact hs
    · by_cases hn : ∃ u, e = .neg u
      · obtain ⟨u, rfl⟩ := hn
        obtain ⟨s', hs', h⟩ := bind_eq_ok_iff.1 h
        have hu := he.of_mem_children (x := u) (by simp [children])
        refine ih (CollectedProduct.addFactor_regular hu ?_ hs') hrest h
        exact hs
      · rw [collectFactors_cons es s (fun c h => hc ⟨c, h⟩) fun u h => hn ⟨u, h⟩] at h
        obtain ⟨s', hs', h⟩ := bind_eq_ok_iff.1 h
        exact ih (CollectedProduct.addFactor_regular he hs hs') hrest h

lemma toFactor_givesRegular (h : GivesRegular simp) {f : LikeFactors} (hf : f.IsRegular) :
    (f.toFactor simp).Ensures (Everywhere Expr.IsRegular) fun _ => True := by
  unfold LikeFactors.toFactor
  split
  · next p hp =>
    refine Ensures.bind (P := fun _ => True) (ensures_ofExcept (fun _ _ => trivial)
      fun _ _ => trivial) fun _ _ => ensures_pure ?_
    split
    · exact hf.base
    · next hne => exact (hf.single p hp).resolve_left hne
  · exact h _

lemma gatherFactors_givesRegular (h : GivesRegular simp) {fs : List LikeFactors} {g : Gathered}
    (hfs : ∀ f ∈ fs, f.IsRegular) (hg : g.IsRegular) :
    (gatherFactors simp fs g).Ensures Gathered.IsRegular fun _ => True := by
  induction fs generalizing g with
  | nil => exact ensures_pure hg
  | cons f fs ih =>
    obtain ⟨hf, hfs⟩ := List.forall_mem_cons.1 hfs
    exact (toFactor_givesRegular h hf).bind fun r hr => ih hfs (hg.add hr)

lemma product_givesRegular (h : GivesRegular simp) (l r : Expr) :
    (product simp l r).Ensures (Everywhere Expr.IsRegular) fun _ => True := by
  refine (operands_givesRegular h .product (.mul l r)).bind fun es hes => ?_
  refine Ensures.bind (P := ProductOutcome.IsRegular)
    (ensures_ofExcept (fun out hout => collectFactors_regular (by simp) hes hout)
      fun _ _ => trivial) fun out hout => ?_
  cases out with
  | zero c => exact ensures_pure (everywhere_const c)
  | collected s =>
    refine (gatherFactors_givesRegular h hout fun _ hx => absurd hx (by simp)).bind fun g hg => ?_
    exact Ensures.bind (P := fun _ => True) (ensures_ofExcept (fun _ _ => trivial)
      fun _ _ => trivial) fun _ _ => ensures_pure hg.toProduct

/-! ### The other rules -/

variable {b p : Expr}

lemma quotient_regular (hb : b.Everywhere Expr.IsRegular) (hp : p.Everywhere Expr.IsRegular)
    (h : quotient b p = .ok r) : r.Everywhere Expr.IsRegular := by
  unfold quotient at h
  split at h
  · obtain ⟨c, -, h⟩ := bind_eq_ok_iff.1 h
    obtain rfl := pure_eq_ok_iff.1 h
    exact everywhere_const c
  · next hconst =>
    obtain rfl := Except.ok.inj h
    refine everywhere_iff.2 ⟨?_, by simpa [children] using ⟨hb, hp⟩⟩
    show (b.isConstant && p.isConstant) = false
    by_contra hboth
    rw [Bool.not_eq_false, Bool.and_eq_true] at hboth
    obtain ⟨c, rfl⟩ := eq_const_of_isConstant hboth.1
    obtain ⟨d, rfl⟩ := eq_const_of_isConstant hboth.2
    exact hconst c d rfl rfl

lemma constantPower_regular {b p : Number} (hone : p.isOne = false) (hzero : p.isZero = false)
    (h : constantPower b p = .ok r) : r.Everywhere Expr.IsRegular := by
  unfold constantPower at h
  split at h
  · obtain rfl := Except.ok.inj h
    exact everywhere_const _
  · next s t hpow =>
    obtain rfl := Except.ok.inj h
    refine everywhere_iff.2 ⟨⟨?_, by simp, ?_⟩, by simpa [children] using
      ⟨everywhere_const b, everywhere_const p⟩⟩
    · rintro c hc
      obtain rfl := Expr.const.inj hc
      exact ⟨hone, hzero⟩
    · rintro c d hc hd
      obtain rfl := Expr.const.inj hc
      obtain rfl := Expr.const.inj hd
      exact ⟨s, t, hpow⟩
  · cases h

lemma powerOf_givesRegular (h : GivesRegular simp) (hb : b.Everywhere Expr.IsRegular)
    (hp : p.Everywhere Expr.IsRegular)
    (hexp : ∀ c, p = .const c → c.isOne = false ∧ c.isZero = false) :
    (powerOf simp b p).Ensures (Everywhere Expr.IsRegular) fun _ => True := by
  unfold powerOf
  split
  · exact (h _).bind fun r _ => h _
  · next b p =>
    obtain ⟨hone, hzero⟩ := hexp p rfl
    exact ensures_ofExcept (fun r hr => constantPower_regular hone hzero hr) fun _ _ => trivial
  · next hpow hconst =>
    refine ensures_pure (everywhere_iff.2 ⟨⟨hexp, hpow, ?_⟩, by simpa [children] using ⟨hb, hp⟩⟩)
    exact fun c d hc hd => (hconst c d hc hd).elim

lemma power_givesRegular (h : GivesRegular simp) (hb : b.Everywhere Expr.IsRegular)
    (hp : p.Everywhere Expr.IsRegular) :
    (power simp b p).Ensures (Everywhere Expr.IsRegular) fun _ => True := by
  unfold power
  split
  · next c =>
    split
    · exact ensures_pure hb
    · next hone =>
      split
      · exact ensures_pure (everywhere_const 1)
      · next hzero =>
        refine powerOf_givesRegular h hb hp fun d hd => ?_
        obtain rfl := Expr.const.inj hd
        exact ⟨by simpa using hone, by simpa using hzero⟩
  · next hconst => exact powerOf_givesRegular h hb hp fun c hc => (hconst c hc).elim

lemma opposite_givesRegular (h : GivesRegular simp) (he : e.Everywhere Expr.IsRegular) :
    (opposite simp e).Ensures (Everywhere Expr.IsRegular) fun _ => True := by
  cases e with
  | const c => exact ensures_pure (everywhere_const _)
  | add l r => exact h _
  | sub l r => exact h _
  | mul l r => exact h _
  | div n d => exact h _
  | neg u => exact ensures_pure (he.of_mem_children (by simp [children]))
  | var x => exact ensures_pure (everywhere_iff.2 ⟨rfl, by simpa [children] using he⟩)
  | pow b p => exact ensures_pure (everywhere_iff.2 ⟨rfl, by simpa [children] using he⟩)
  | log b a => exact ensures_pure (everywhere_iff.2 ⟨rfl, by simpa [children] using he⟩)
  | other m k es => exact he.self.elim

/-- One level of the rules gives regular results if those below do. -/
lemma step_givesRegular (h : GivesRegular simp) : GivesRegular (step simp) := by
  intro e
  cases e with
  | const c => exact ensures_pure (everywhere_const c)
  | var x => exact ensures_pure (everywhere_iff.2 ⟨trivial, by simp [children]⟩)
  | add l r => exact sum_givesRegular h l r
  | sub l r => exact (h l).bind fun l' _ => (h r).bind fun r' _ => (h _).bind fun m _ => h _
  | mul l r => exact product_givesRegular h l r
  | div n d =>
    exact (h n).bind fun n' hn => (h d).bind fun d' hd =>
      ensures_ofExcept (fun r hr => quotient_regular hn hd hr) fun _ _ => trivial
  | pow b p => exact (h b).bind fun b' hb => (h p).bind fun p' hp => power_givesRegular h hb hp
  | log b a =>
    exact (h b).bind fun b' hb => (h a).bind fun a' ha =>
      ensures_pure (everywhere_iff.2 ⟨trivial, by simpa [children] using ⟨hb, ha⟩⟩)
  | neg u => exact (h u).bind fun u' hu => opposite_givesRegular h hu
  | other m k es => exact ensures_throw trivial

lemma within_givesRegular (n : Nat) : GivesRegular (within n) := by
  induction n with
  | zero => exact fun e => ⟨fun _ h => (nomatch h), fun _ h => (nomatch h)⟩
  | succ n ih => exact step_givesRegular ih

end Simplify

/-! ### Simplified expressions -/

lemma everywhere_isRegular_simplify (h : simplify e = .ok r) : r.Everywhere IsRegular := by
  obtain ⟨n, hn⟩ := simplify_eq_iff.1 h
  exact (within_givesRegular n e).1 r hn

/-- Every node of a simplified expression is regular. -/
theorem isRegular_of_isNodeOf_simplify (h : simplify e = .ok r) {x : Expr} (hx : x.IsNodeOf r) :
    x.IsRegular :=
  everywhere_isRegular_simplify h x hx

/-- In `2 - (x - 3 * (x - y))` the minus signs move inwards, until they stand before variables. -/
theorem isRegular_product_of_differences :
    let x : Expr := .var "x"
    let y : Expr := .var "y"
    let m : Expr := .mul (.const 3) (.add x (.neg y))
    let e : Expr := .sub (.const 2) (.sub x (.mul (.const 3) (.sub x y)))
    let r : Expr := .add (.const 2) (.add (.neg x) m)
    simplify e = .ok r ∧ m.IsNodeOf r ∧ m.IsRegular := by
  intro x y m e r
  have h : simplify e = .ok r := by decide +kernel
  have hsum : m.IsNodeOf (.add (.neg x) m) := .child (.self m) (by simp [children])
  have hm : m.IsNodeOf r := .child hsum (by simp [r, children])
  exact ⟨h, hm, isRegular_of_isNodeOf_simplify h hm⟩

end SymbolicAlgebra
