import SymbolicAlgebra.Proofs.Exactness.Simplification
import SymbolicAlgebra.Proofs.NormalForm.Product
import SymbolicAlgebra.Proofs.NormalForm.Sum
import SymbolicAlgebra.Proofs.Renaming
import SymbolicAlgebra.Text.Letter

/-!
# Simplification does not depend on names

An expression and its renamed form are simplified side by side. Every rule takes both the same way
(`Simplify.step_renames`): it looks at names only where it compares representatives, and two of
these are the same just when the renamed ones are. So the renamed form is simplified to the renamed
result, or refused for the same reason (`simplify_renameLetters`).

Computations side by side are said to match (`Bounded.Matches`). They compare results by a relation,
since collected operands keep their representatives, and these are not renamed but found anew.
-/

namespace SymbolicAlgebra

open SymbolicAlgebra.Expr

variable {α β γ δ : Type}

/-! ### Two computations side by side -/

/-- Two computations that are refused for one reason, or have results as `R` says. -/
inductive OutcomesMatch (R : α → β → Prop) : Except Error α → Except Error β → Prop
  | result {a : α} {b : β} : R a b → OutcomesMatch R (.ok a) (.ok b)
  | refusal (err : Error) : OutcomesMatch R (.error err) (.error err)

lemma OutcomesMatch.bind {R : α → β → Prop} {S : γ → δ → Prop} {x : Except Error α}
    {y : Except Error β}
    {f : α → Except Error γ} {f' : β → Except Error δ} (hx : OutcomesMatch R x y)
    (hf : ∀ a b, R a b → OutcomesMatch S (f a) (f' b)) : OutcomesMatch S (x >>= f) (y >>= f') := by
  cases hx with
  | result h => exact hf _ _ h
  | refusal err => exact .refusal err

lemma outcomesMatch_self (x : Except Error α) : OutcomesMatch (fun a b => b = a) x x := by
  cases x with
  | ok a => exact .result rfl
  | error err => exact .refusal err

namespace Bounded

/-- Two computations with outcomes that match, or none in both cases. -/
inductive Matches (R : α → β → Prop) : Bounded α → Bounded β → Prop
  | nothing : Matches R (ExceptT.mk none) (ExceptT.mk none)
  | outcome {x : Except Error α} {y : Except Error β} :
      OutcomesMatch R x y → Matches R (ofExcept x) (ofExcept y)

variable {R R' : α → β → Prop} {S : γ → δ → Prop} {x : Bounded α} {y : Bounded β}
  {f : α → Bounded γ} {f' : β → Bounded δ}

lemma matches_pure {a : α} {b : β} (h : R a b) : Matches R (pure a) (pure b) :=
  .outcome (.result h)

lemma matches_throw (err : Error) : Matches R (throw err : Bounded α) (throw err : Bounded β) :=
  .outcome (.refusal err)

lemma Matches.bind (hx : Matches R x y) (hf : ∀ a b, R a b → Matches S (f a) (f' b)) :
    Matches S (x >>= f) (y >>= f') := by
  cases hx with
  | nothing => exact .nothing
  | outcome hx =>
    cases hx with
    | result h => exact hf _ _ h
    | refusal err => exact .outcome (.refusal err)

lemma Matches.mono (hx : Matches R x y) (h : ∀ a b, R a b → R' a b) : Matches R' x y := by
  cases hx with
  | nothing => exact .nothing
  | outcome hx =>
    cases hx with
    | result hab => exact .outcome (.result (h _ _ hab))
    | refusal err => exact .outcome (.refusal err)

/-- What is known of the first result can be added to the relation. -/
lemma Matches.and_ensures {P : α → Prop} {Q : Error → Prop} (hx : Matches R x y)
    (hP : x.Ensures P Q) : Matches (fun a b => P a ∧ R a b) x y := by
  cases hx with
  | nothing => exact .nothing
  | outcome hx =>
    cases hx with
    | result hab => exact .outcome (.result ⟨hP.1 _ rfl, hab⟩)
    | refusal err => exact .outcome (.refusal err)

lemma Matches.exists_run {out : Except Error α} (hx : Matches R x y) (hout : x.run = some out) :
    ∃ out', y.run = some out' ∧ OutcomesMatch R out out' := by
  cases hx with
  | nothing => cases hout
  | outcome hx =>
    obtain rfl := Option.some.inj hout
    exact ⟨_, rfl, hx⟩

lemma matches_self (x : Bounded α) : Matches (fun a b => b = a) x x := by
  match hx : x.run with
  | none =>
    obtain rfl : x = none := hx
    exact .nothing
  | some out =>
    obtain rfl : x = some out := hx
    exact .outcome (outcomesMatch_self out)

end Bounded

variable {V : String → Prop} {g : String → String} {c : Chain} {e l r t u : Expr} {es : List Expr}

namespace Simplify

open Bounded

/-! ### What is renamed along the rules -/

/-- A simplifier by which an expression and its renamed form come to matching results. -/
structure Commutes (V : String → Prop) (g : String → String)
    (simp : Expr → Bounded Expr) : Prop where
  renames : ∀ e, e.IsOver V IsWholeTree →
    (simp e).Matches (fun r r' => r.IsSettled V ∧ r' = r.rename g) (simp (e.rename g))
  whole : ∀ e, e.IsWholeTree → (simp e).Ensures IsWholeConstant fun _ => True

variable {simp : Expr → Bounded Expr}

/-- The operands of a chain and those of the renamed chain. -/
def OperandsRename (V : String → Prop) (g : String → String) (es es' : List Expr) : Prop :=
  (∀ u ∈ es, u.IsSettled V) ∧ es' = es.map (rename g)

lemma operands_renames (h : Commutes V g simp) (c : Chain) (he : e.IsOver V IsWholeTree) :
    (operands simp c e).Matches (OperandsRename V g) (operands simp c (e.rename g)) := by
  induction e using c.induct with
  | node l r ihl ihr =>
    have hparts : l.IsOver V IsWholeTree ∧ r.IsOver V IsWholeTree := by cases c <;> exact he
    rw [rename_node, operands_node, operands_node]
    refine (ihl hparts.1).bind fun es es' hes => (ihr hparts.2).bind fun fs fs' hfs =>
      matches_pure ?_
    exact ⟨List.forall_mem_append.2 ⟨hes.1, hfs.1⟩, by rw [hes.2, hfs.2, List.map_append]⟩
  | leaf e hleaf =>
    have hleaf' : c.operands (e.rename g) = [e.rename g] := by
      rw [operands_rename, hleaf]
      rfl
    rw [operands_leaf simp hleaf, operands_leaf simp hleaf']
    refine (h.renames e he).bind fun r r' hr => matches_pure ?_
    exact ⟨fun u hu => hr.1.of_mem_operands hu, by rw [hr.2, operands_rename]⟩

/-! ### Representatives -/

/-- An expression and its renamed form are refused a representative for one reason, if at all. -/
lemma matches_likeKey (hg : IsRenaming V g) (ht : t.IsSettled V) :
    OutcomesMatch (fun k k' => t.likeKey = .ok k ∧ (t.rename g).likeKey = .ok k') t.likeKey
      (t.rename g).likeKey := by
  have hexact := ht.isReadable.isExact
  have hexact' := (ht.isReadable_rename hg.single_rename).isExact
  have hiff : (∃ k, t.likeKey = .ok k) ↔ ∃ k, (t.rename g).likeKey = .ok k := by
    rw [exists_likeKey_iff hexact, exists_likeKey_iff hexact', hasKey_rename]
  cases hk : t.likeKey with
  | ok k =>
    obtain ⟨k', hk'⟩ := hiff.1 ⟨k, hk⟩
    rw [hk']
    exact .result ⟨rfl, rfl⟩
  | error err =>
    cases hk' : (t.rename g).likeKey with
    | ok k' =>
      obtain ⟨k, hok⟩ := hiff.2 ⟨k', hk'⟩
      cases hk.symm.trans hok
    | error err' =>
      rw [(renders_likeKey hexact (Nat.le_refl _) err hk).1,
        (renders_likeKey hexact' (Nat.le_refl _) err' hk').1]
      exact .refusal _

/-! ### Collecting -/

/-- A part by which operands are collected, with its representative, and its renamed form. -/
structure KeyedRename (V : String → Prop) (g : String → String) (t t' k k' : Expr) : Prop where
  settled : t.IsSettled V
  renamed : t' = t.rename g
  key : t.likeKey = .ok k
  key' : t'.likeKey = .ok k'

lemma KeyedRename.beq_eq {t' u' k k' m m' : Expr} (hg : IsRenaming V g)
    (ht : KeyedRename V g t t' k k') (hu : KeyedRename V g u u' m m') : (k' == m') = (k == m) := by
  obtain ⟨ht, rfl, hk, hk'⟩ := ht
  obtain ⟨hu, rfl, hm, hm'⟩ := hu
  exact same_likeKey_rename_iff hg ht hu hk hm hk' hm'

namespace Collector

variable {C : Collector α} {R : α → α → Prop} {as as' : List α}

/-- Operands that are collected side by side go to entries side by side. -/
lemma forall₂_insert {k k' e e' : Expr} (hstart : R (C.start k e) (C.start k' e'))
    (hpush : ∀ a a', R a a' → R (C.push e a) (C.push e' a'))
    (hkey : ∀ a a', R a a' → (C.keyOf a' == k') = (C.keyOf a == k)) (h : List.Forall₂ R as as') :
    List.Forall₂ R (C.insert k e as) (C.insert k' e' as') := by
  induction h with
  | nil => exact .cons hstart .nil
  | cons ha has ih =>
    rw [insert, insert, hkey _ _ ha]
    split
    · exact .cons (hpush _ _ ha) has
    · exact .cons ha ih

/-- An operand that is collected by its part `t`, and its renamed form; the entries are compared by
`rep`. -/
lemma matches_add (rep : α → Expr) (hg : IsRenaming V g) (ht : t.IsSettled V)
    (hkey : C.key e = t.likeKey) (hkey' : C.key (e.rename g) = (t.rename g).likeKey)
    (hR : ∀ a a', R a a' → KeyedRename V g (rep a) (rep a') (C.keyOf a) (C.keyOf a'))
    (hstart : ∀ k k', KeyedRename V g t (t.rename g) k k' →
      R (C.start k e) (C.start k' (e.rename g)))
    (hpush : ∀ a a', R a a' → R (C.push e a) (C.push (e.rename g) a')) (h : List.Forall₂ R as as') :
    OutcomesMatch (List.Forall₂ R) (C.add as e) (C.add as' (e.rename g)) := by
  rw [add, add, hkey, hkey']
  refine (matches_likeKey hg ht).bind fun k k' hk => .result ?_
  have hkeyed : KeyedRename V g t (t.rename g) k k' := ⟨ht, rfl, hk.1, hk.2⟩
  exact forall₂_insert (hstart k k' hkeyed) hpush (fun a a' ha => (hR a a' ha).beq_eq hg hkeyed) h

end Collector

lemma isConstant_rename (e : Expr) : (e.rename g).isConstant = e.isConstant := by
  cases e <;> rfl

/-! ### Gathering -/

/-- What was gathered, renamed. -/
def Gathered.rename (g : String → String) (a : Gathered) : Gathered :=
  ⟨a.constant, a.operands.map (Expr.rename g)⟩

lemma Gathered.add_rename (op : Number → Number → Number) (a : Gathered) (e : Expr) :
    (a.rename g).add op (e.rename g) = (a.add op e).rename g := by
  cases e with
  | const c => rfl
  | _ => simp [Gathered.add, Gathered.rename, Expr.rename]

lemma Gathered.toSum_rename (a : Gathered) : (a.rename g).toSum = a.toSum.rename g := by
  obtain ⟨c, es⟩ := a
  cases es with
  | nil => rfl
  | cons e es =>
    simp only [Gathered.rename, Gathered.toSum, List.map_cons]
    split
    · exact (rename_build .sum (e :: es)).symm
    · exact (rename_build .sum (.const c :: e :: es)).symm

lemma takesSign_rename (e : Expr) : takesSign (e.rename g) = takesSign e := by
  cases e <;> rfl

lemma Gathered.toProduct_rename (a : Gathered) : (a.rename g).toProduct = a.toProduct.rename g := by
  obtain ⟨c, es⟩ := a
  cases es with
  | nil =>
    simp only [Gathered.rename, Gathered.toProduct, List.map_nil]
    split <;> rfl
  | cons e es =>
    simp only [Gathered.rename, Gathered.toProduct, List.map_cons, List.isEmpty_map,
      takesSign_rename]
    split
    · rfl
    · split
      · rfl
      · split
        · exact (rename_build .product (e :: es)).symm
        · exact (rename_build .product (.const c :: e :: es)).symm

lemma Gathered.refuseLong_rename (a : Gathered) : (a.rename g).refuseLong = a.refuseLong := by
  rw [Gathered.refuseLong, Gathered.refuseLong, Gathered.rename, List.isEmpty_map]

/-! ### Sums -/

/-- Collected terms and their renamed form. -/
structure LikeTerms.Renames (V : String → Prop) (g : String → String)
    (t t' : LikeTerms) : Prop where
  keyed : KeyedRename V g t.term t'.term t.key t'.key
  exact : t.coefficient.isExact
  coefficient : t'.coefficient = t.coefficient

/-- A collected sum and its renamed form. -/
structure CollectedSum.Renames (V : String → Prop) (g : String → String)
    (s s' : CollectedSum) : Prop where
  constant : s'.constant = s.constant
  terms : List.Forall₂ (LikeTerms.Renames V g) s.terms s'.terms

lemma splitCoefficient_rename (e : Expr) : splitCoefficient (e.rename g) =
    ((splitCoefficient e).1.rename g, (splitCoefficient e).2) := by
  cases e with
  | mul l r => cases l <;> cases r <;> rfl
  | _ => rfl

lemma splitCoefficient_isSettled (he : e.IsSettled V) :
    (splitCoefficient e).1.IsSettled V ∧ (splitCoefficient e).2.isExact := by
  obtain ⟨hover, hreadable⟩ := he
  unfold splitCoefficient
  split
  · exact ⟨⟨hover.2, hreadable.2⟩, hover.1⟩
  · exact ⟨⟨hover.1, hreadable.1⟩, hover.2⟩
  · exact ⟨⟨hover, hreadable⟩, rfl⟩
  · exact ⟨⟨hover, hreadable⟩, rfl⟩

lemma termCollector_renames {ts ts' : List LikeTerms} (hg : IsRenaming V g) (he : e.IsSettled V)
    (hts : List.Forall₂ (LikeTerms.Renames V g) ts ts') :
    OutcomesMatch (List.Forall₂ (LikeTerms.Renames V g)) (termCollector.add ts e)
      (termCollector.add ts' (e.rename g)) := by
  obtain ⟨hsettled, hexact⟩ := splitCoefficient_isSettled he
  have hterm := congrArg Prod.fst (splitCoefficient_rename (g := g) e)
  have hcoefficient := congrArg Prod.snd (splitCoefficient_rename (g := g) e)
  refine Collector.matches_add LikeTerms.term hg hsettled rfl (congrArg likeKey hterm)
    (fun _ _ h => h.keyed) ?_ ?_ hts
  · intro k k' hk
    exact ⟨⟨hk.settled, hterm, hk.key, (congrArg likeKey hterm).trans hk.key'⟩,
      Number.isExact_add rfl hexact, congrArg (0 + ·) hcoefficient⟩
  · intro t t' ht
    exact ⟨ht.keyed, Number.isExact_add ht.exact hexact,
      congrArg₂ (· + ·) ht.coefficient hcoefficient⟩

lemma CollectedSum.Renames.add {s s' : CollectedSum} (hg : IsRenaming V g) (hs : s.Renames V g s')
    (he : e.IsSettled V) :
    OutcomesMatch (CollectedSum.Renames V g) (s.add e) (s'.add (e.rename g)) := by
  cases hconst : e.isConstant with
  | true =>
    obtain ⟨c, rfl⟩ := eq_const_of_isConstant hconst
    exact .result ⟨congrArg (· + c) hs.constant, hs.terms⟩
  | false =>
    rw [s.add_eq_add hconst, s'.add_eq_add ((isConstant_rename e).trans hconst)]
    exact (termCollector_renames hg he hs.terms).bind fun ts ts' hts => .result ⟨hs.constant, hts⟩

lemma CollectedSum.Renames.foldlM {s s' : CollectedSum} (hg : IsRenaming V g)
    (hs : s.Renames V g s') (hes : ∀ u ∈ es, u.IsSettled V) :
    OutcomesMatch (CollectedSum.Renames V g) (es.foldlM CollectedSum.add s)
      ((es.map (rename g)).foldlM CollectedSum.add s') := by
  induction es generalizing s s' with
  | nil => exact .result hs
  | cons e es ih =>
    obtain ⟨he, hes⟩ := List.forall_mem_cons.1 hes
    rw [List.map_cons, List.foldlM_cons, List.foldlM_cons]
    exact (hs.add hg he).bind fun s₁ s₁' hs₁ => ih hs₁ hes

lemma LikeTerms.Renames.toTerm {t t' : LikeTerms} (h : Commutes V g simp) (ht : t.Renames V g t') :
    (t.toTerm simp).Matches (fun r r' => r' = r.rename g) (t'.toTerm simp) := by
  obtain ⟨⟨hsettled, hterm, -, -⟩, hexact, hcoefficient⟩ := ht
  unfold LikeTerms.toTerm
  rw [hterm, hcoefficient]
  split
  · exact matches_pure rfl
  · have hmul := h.renames (.mul (.const t.coefficient) t.term) ⟨hexact, hsettled.isOver.toTree⟩
    exact hmul.mono fun _ _ hr => hr.2

lemma gatherTerms_renames {ts ts' : List LikeTerms} (h : Commutes V g simp)
    (hts : List.Forall₂ (LikeTerms.Renames V g) ts ts') (a : Gathered) :
    (gatherTerms simp ts a).Matches (fun b b' => b' = b.rename g)
      (gatherTerms simp ts' (a.rename g)) := by
  induction hts generalizing a with
  | nil => exact matches_pure rfl
  | @cons t t' ts ts' ht _ ih =>
    unfold gatherTerms
    rw [ht.coefficient]
    split
    · exact ih a
    · refine (ht.toTerm h).bind fun r r' hr => ?_
      rw [hr, Gathered.add_rename]
      exact ih _

lemma sum_renames (hg : IsRenaming V g) (h : Commutes V g simp)
    (he : (Expr.add l r).IsOver V IsWholeTree) :
    (sum simp l r).Matches (fun e e' => e' = e.rename g) (sum simp (l.rename g) (r.rename g)) := by
  refine (operands_renames h .sum he).bind fun es es' hes => ?_
  have hempty : CollectedSum.Renames V g ⟨0, []⟩ ⟨0, []⟩ := ⟨rfl, .nil⟩
  rw [hes.2]
  refine Bounded.Matches.bind (.outcome (hempty.foldlM hg hes.1)) fun s s' hs => ?_
  rw [hs.constant]
  refine (gatherTerms_renames h hs.terms ⟨s.constant, []⟩).bind fun a a' ha => matches_pure ?_
  rw [ha, Gathered.toSum_rename]

/-! ### Products -/

/-- Collected factors and their renamed form. -/
structure LikeFactors.Renames (V : String → Prop) (g : String → String)
    (f f' : LikeFactors) : Prop where
  keyed : KeyedRename V g f.base f'.base f.key f'.key
  whole : ∀ p ∈ f.exponents, p.IsWholeConstant
  exponents : f'.exponents = f.exponents

/-- A collected product and its renamed form. -/
structure CollectedProduct.Renames (V : String → Prop) (g : String → String)
    (s s' : CollectedProduct) : Prop where
  constant : s'.constant = s.constant
  factors : List.Forall₂ (LikeFactors.Renames V g) s.factors s'.factors

/-- What becomes of a product and of its renamed form. -/
inductive ProductOutcome.Renames (V : String → Prop) (g : String → String) :
    ProductOutcome → ProductOutcome → Prop
  | zero (c : Number) : Renames V g (.zero c) (.zero c)
  | collected {s s' : CollectedProduct} : s.Renames V g s' →
      Renames V g (.collected s) (.collected s')

lemma splitExponent_rename (e : Expr) : splitExponent (e.rename g) =
    ((splitExponent e).1.rename g, (splitExponent e).2.rename g) := by
  cases e <;> rfl

lemma splitExponent_isSettled (he : e.IsSettled V) :
    (splitExponent e).1.IsSettled V ∧ (splitExponent e).2.IsWholeConstant := by
  unfold splitExponent
  split
  · exact ⟨⟨he.isOver.1, he.isReadable.1⟩, he.isOver.2.2⟩
  · exact ⟨he, rfl, rfl⟩

lemma factorCollector_renames {fs fs' : List LikeFactors} (hg : IsRenaming V g) (he : e.IsSettled V)
    (hfs : List.Forall₂ (LikeFactors.Renames V g) fs fs') :
    OutcomesMatch (List.Forall₂ (LikeFactors.Renames V g)) (factorCollector.add fs e)
      (factorCollector.add fs' (e.rename g)) := by
  obtain ⟨hsettled, hwhole⟩ := splitExponent_isSettled he
  have hbase := congrArg Prod.fst (splitExponent_rename (g := g) e)
  have hexponent : (splitExponent (e.rename g)).2 = (splitExponent e).2 := by
    rw [splitExponent_rename, hwhole.rename_eq]
  refine Collector.matches_add LikeFactors.base hg hsettled rfl (congrArg likeKey hbase)
    (fun _ _ h => h.keyed) ?_ ?_ hfs
  · intro k k' hk
    exact ⟨⟨hk.settled, hbase, hk.key, (congrArg likeKey hbase).trans hk.key'⟩,
      List.forall_mem_singleton.2 hwhole, congrArg ([·]) hexponent⟩
  · intro f f' hf
    exact ⟨hf.keyed, List.forall_mem_append.2 ⟨hf.whole, List.forall_mem_singleton.2 hwhole⟩,
      congrArg₂ (· ++ [·]) hf.exponents hexponent⟩

lemma CollectedProduct.Renames.addFactor {s s' : CollectedProduct} (hg : IsRenaming V g)
    (hs : s.Renames V g s') (he : e.IsSettled V) :
    OutcomesMatch (CollectedProduct.Renames V g) (s.addFactor e)
      (s'.addFactor (e.rename g)) := by
  rw [s.addFactor_eq_add, s'.addFactor_eq_add]
  exact (factorCollector_renames hg he hs.factors).bind fun fs fs' hfs => .result ⟨hs.constant, hfs⟩

lemma CollectedProduct.Renames.collectFactors {s s' : CollectedProduct} (hg : IsRenaming V g)
    (hs : s.Renames V g s') (hes : ∀ u ∈ es, u.IsSettled V) :
    OutcomesMatch (ProductOutcome.Renames V g) (collectFactors es s)
      (collectFactors (es.map (rename g)) s') := by
  induction es generalizing s s' with
  | nil => exact .result (.collected hs)
  | cons e es ih =>
    obtain ⟨he, hrest⟩ := List.forall_mem_cons.1 hes
    rw [List.map_cons]
    cases e with
    | const c =>
      rw [rename, Simplify.collectFactors, Simplify.collectFactors]
      split
      · exact .result (.zero c)
      · exact ih ⟨congrArg (· * c) hs.constant, hs.factors⟩ hrest
    | neg u =>
      have hsign : CollectedProduct.Renames V g { s with constant := -s.constant }
          { s' with constant := -s'.constant } := ⟨congrArg (- ·) hs.constant, hs.factors⟩
      have hu : u.IsSettled V := ⟨he.isOver, he.isReadable⟩
      exact (hsign.addFactor hg hu).bind fun s₁ s₁' hs₁ => ih hs₁ hrest
    | _ => exact (hs.addFactor hg he).bind fun s₁ s₁' hs₁ => ih hs₁ hrest

lemma LikeFactors.Renames.toFactor {f f' : LikeFactors} (h : Commutes V g simp)
    (hf : f.Renames V g f') :
    (f.toFactor simp).Matches (fun r r' => r' = r.rename g) (f'.toFactor simp) := by
  obtain ⟨⟨hsettled, hbase, -, -⟩, hwhole, hexponents⟩ := hf
  unfold LikeFactors.toFactor
  rw [hbase, hexponents]
  split
  · next p hp =>
    refine (Bounded.matches_self _).bind fun _ _ _ => matches_pure ?_
    have hp : p.IsWholeConstant := hwhole p (by rw [hp]; exact List.mem_cons_self)
    split
    · rfl
    · rw [rename, hp.rename_eq]
  · have hsum := Chain.isWholeTree_build hwhole
    have hpow := h.renames (.pow f.base (Chain.sum.build f.exponents))
      ⟨hsettled.isOver.toTree, hsum.isOver, hsum⟩
    rw [rename, hsum.rename_eq] at hpow
    exact hpow.mono fun _ _ hr => hr.2

lemma gatherFactors_renames {fs fs' : List LikeFactors} (h : Commutes V g simp)
    (hfs : List.Forall₂ (LikeFactors.Renames V g) fs fs') (a : Gathered) :
    (gatherFactors simp fs a).Matches (fun b b' => b' = b.rename g)
      (gatherFactors simp fs' (a.rename g)) := by
  induction hfs generalizing a with
  | nil => exact matches_pure rfl
  | @cons f f' fs fs' hf _ ih =>
    refine (hf.toFactor h).bind fun r r' hr => ?_
    rw [hr, Gathered.add_rename]
    exact ih _

lemma product_renames (hg : IsRenaming V g) (h : Commutes V g simp)
    (he : (Expr.mul l r).IsOver V IsWholeTree) :
    (product simp l r).Matches (fun e e' => e' = e.rename g)
      (product simp (l.rename g) (r.rename g)) := by
  refine (operands_renames h .product he).bind fun es es' hes => ?_
  have hempty : CollectedProduct.Renames V g ⟨1, []⟩ ⟨1, []⟩ := ⟨rfl, .nil⟩
  rw [hes.2]
  refine Bounded.Matches.bind (.outcome (hempty.collectFactors hg hes.1)) fun out out' hout => ?_
  cases hout with
  | zero c => exact matches_pure rfl
  | @collected s s' hs =>
    have hgather :
        (gatherFactors simp s.factors ⟨s.constant, []⟩).Matches (fun a a' => a' = a.rename g)
          (gatherFactors simp s'.factors ⟨s'.constant, []⟩) := by
      rw [hs.constant]
      exact gatherFactors_renames h hs.factors ⟨s.constant, []⟩
    refine hgather.bind fun a a' ha => ?_
    rw [ha, Gathered.refuseLong_rename]
    refine (Bounded.matches_self _).bind fun _ _ _ => matches_pure ?_
    rw [Gathered.toProduct_rename]

/-! ### The other rules -/

lemma quotient_renames (n d : Expr) :
    OutcomesMatch (fun e e' => e' = e.rename g) (quotient n d)
      (quotient (n.rename g) (d.rename g)) := by
  cases n with
  | const a =>
    cases d with
    | const b =>
      exact (outcomesMatch_self (a.div b)).bind fun c c' hc => .result (congrArg const hc)
    | _ => exact .result rfl
  | _ => exact .result rfl

lemma rename_constantPower {b p : Number} (h : constantPower b p = .ok e) : e.rename g = e := by
  unfold constantPower at h
  split at h <;> cases h <;> rfl

lemma powerOf_renames (h : Commutes V g simp) (hl : l.IsSettled V) (hr : r.IsWholeConstant) :
    (powerOf simp l r).Matches (fun e e' => e' = e.rename g) (powerOf simp (l.rename g) r) := by
  obtain ⟨p, rfl, -⟩ := isWholeConstant_iff.1 hr
  cases l with
  | pow b q =>
    obtain ⟨hb, -, hq⟩ := hl.isOver
    have hmul := h.whole (.mul (.const p) q) ⟨hr.isWholeTree, hq.isWholeTree⟩
    rw [rename, hq.rename_eq]
    refine ((Bounded.matches_self _).and_ensures hmul).bind ?_
    rintro _ s ⟨hs, rfl⟩
    have hpow := h.renames (.pow b s) ⟨hb.toTree, hs.isWholeTree.isOver, hs.isWholeTree⟩
    rw [rename, hs.rename_eq] at hpow
    exact hpow.mono fun _ _ hr => hr.2
  | const b =>
    have hconstant : OutcomesMatch (fun e e' => e' = e.rename g) (constantPower b p)
        (constantPower b p) := by
      cases hout : constantPower b p with
      | ok e => exact .result (rename_constantPower hout).symm
      | error err => exact .refusal err
    exact .outcome hconstant
  | _ => exact matches_pure rfl

lemma power_renames (h : Commutes V g simp) (hl : l.IsSettled V) (hr : r.IsWholeConstant) :
    (power simp l r).Matches (fun e e' => e' = e.rename g) (power simp (l.rename g) r) := by
  have hpower := powerOf_renames h hl hr
  obtain ⟨p, rfl, -⟩ := isWholeConstant_iff.1 hr
  unfold power
  dsimp only
  split
  · exact matches_pure rfl
  · split
    · exact matches_pure rfl
    · exact hpower

lemma opposite_renames (h : Commutes V g simp) (he : e.IsSettled V) :
    (opposite simp e).Matches (fun e e' => e' = e.rename g) (opposite simp (e.rename g)) := by
  have hover := he.isOver.toTree
  cases e with
  | add l r => exact (h.renames (.add (.neg l) (.neg r)) hover).mono fun _ _ hr => hr.2
  | sub l r => exact (h.renames (.add (.neg l) r) hover).mono fun _ _ hr => hr.2
  | mul l r => exact (h.renames (.mul (.neg l) r) hover).mono fun _ _ hr => hr.2
  | div n d => exact (h.renames (.div (.neg n) d) hover).mono fun _ _ hr => hr.2
  | _ => exact matches_pure rfl

/-! ### Simplification -/

/-- One level of the rules gives the renamed result for the renamed expression if those below do. -/
lemma step_renames (hg : IsRenaming V g) (h : Commutes V g simp) (he : e.IsOver V IsWholeTree) :
    (step simp e).Matches (fun r r' => r' = r.rename g) (step simp (e.rename g)) := by
  cases e with
  | const c => exact matches_pure rfl
  | var x => exact matches_pure rfl
  | add l r => exact sum_renames hg h he
  | mul l r => exact product_renames hg h he
  | sub l r =>
    refine (h.renames l he.1).bind ?_
    rintro l' _ ⟨hl, rfl⟩
    refine (h.renames r he.2).bind ?_
    rintro r' _ ⟨hr, rfl⟩
    refine (h.renames (.neg r') hr.isOver.toTree).bind ?_
    rintro m _ ⟨hm, rfl⟩
    exact (h.renames (.add l' m) ⟨hl.isOver.toTree, hm.isOver.toTree⟩).mono fun _ _ hr => hr.2
  | div n d =>
    refine (h.renames n he.1).bind ?_
    rintro n' _ ⟨-, rfl⟩
    refine (h.renames d he.2).bind ?_
    rintro d' _ ⟨-, rfl⟩
    exact .outcome (quotient_renames n' d')
  | pow b p =>
    obtain ⟨hb, -, hp⟩ := he
    refine (h.renames b hb).bind ?_
    rintro b' _ ⟨hb', rfl⟩
    rw [hp.rename_eq]
    refine ((Bounded.matches_self _).and_ensures (h.whole p hp)).bind ?_
    rintro _ p' ⟨hp', rfl⟩
    exact power_renames h hb' hp'
  | log b a =>
    refine (h.renames b he.1).bind ?_
    rintro b' _ ⟨-, rfl⟩
    refine (h.renames a he.2).bind ?_
    rintro a' _ ⟨-, rfl⟩
    exact matches_pure rfl
  | neg u =>
    refine (h.renames u he).bind ?_
    rintro u' _ ⟨hu, rfl⟩
    exact opposite_renames h hu
  | other m k es => exact matches_throw _

lemma isSettled_of_simplify (hV : ∀ x, V x → x.length = 1) (he : e.IsOver V IsWholeTree)
    (h : simplify e = .ok r) : r.IsSettled V := by
  obtain ⟨hexact, hnames⟩ := isOver_iff.1 he
  have hover : r.IsOver V IsWholeConstant := isOver_iff.2
    ⟨simplify_isExactWith hexact h,
    fun x hx => hnames x (hx.trans_le (countOccurrences_simplify_le h))⟩
  exact ⟨hover, hover.isReadable (reduces_of_simplify h).2 hV⟩

lemma within_commutes (hg : IsRenaming V g) (n : Nat) : Commutes V g (within n) := by
  induction n with
  | zero => exact ⟨fun e _ => .nothing, fun e => within_whole 0⟩
  | succ n ih =>
    refine ⟨fun e he => ?_, fun e => within_whole (n + 1)⟩
    have hsettled : (within (n + 1) e).Ensures (IsSettled V) fun _ => True :=
      ⟨fun r hr => isSettled_of_simplify hg.single he (simplify_eq_iff.2 ⟨n + 1, hr⟩),
        fun _ _ => trivial⟩
    exact (step_renames hg ih he).and_ensures hsettled

end Simplify

/-- The renamed expression is simplified to the renamed result, or refused for the same reason. -/
lemma simplify_rename (hg : IsRenaming V g) (he : e.IsOver V IsWholeTree) :
    simplify (e.rename g) = (simplify e).map (rename g) := by
  obtain ⟨n, hn⟩ := simplify_eq_iff.1 (rfl : simplify e = simplify e)
  generalize simplify e = expected at hn ⊢
  obtain ⟨out, hout, hmatches⟩ := ((Simplify.within_commutes hg n).renames e he).exists_run hn
  rw [simplify_eq_iff.2 ⟨n, hout⟩]
  cases hmatches with
  | result h =>
    rw [h.2]
    rfl
  | refusal err => rfl

/-! ### Letters -/

/-- The expression with its variables renamed letter by letter. -/
def Expr.renameLetters (f : Char → Char) (e : Expr) : Expr :=
  e.rename fun x => String.ofList (x.toList.map f)

/-- A name that is one letter. -/
def IsLetterName (x : String) : Prop :=
  ∃ c, isLetter c = true ∧ x = String.ofList [c]

lemma isRenaming_of_letters {f : Char → Char} (hf : Set.InjOn f {c | isLetter c = true}) :
    IsRenaming IsLetterName fun x => String.ofList (x.toList.map f) where
  single := by
    rintro _ ⟨c, -, rfl⟩
    simp
  single_rename := by
    rintro _ ⟨c, -, rfl⟩
    simp
  injOn := by
    rintro _ ⟨c, hc, rfl⟩ _ ⟨d, hd, rfl⟩ h
    have hcd : f c = f d := by simpa using congrArg String.toList h
    rw [hf hc hd hcd]

/-- Simplification does not depend on the letters that stand for variables: whatever the letters of
an expression with exact constants and whole exponents are renamed to, as long as different ones
remain different, its renamed form is simplified to the renamed result, or refused for the same
reason. -/
theorem simplify_renameLetters {f : Char → Char} (hf : Set.InjOn f {c | isLetter c = true})
    (he : e.IsExactWith IsWholeTree) (hnames : ∀ x, 0 < e.countOccurrences x → IsLetterName x) :
    simplify (e.renameLetters f) = (simplify e).map (Expr.renameLetters f) :=
  simplify_rename (isRenaming_of_letters hf) (isOver_iff.2 ⟨he, hnames⟩)

/-- With `x` and `y` exchanged `2 * (x + y) + 3 * (y + x)` becomes a sum of other representatives,
and is simplified to five times the exchanged sum; `1 / (x - x)` is refused with `y` in place of `x`
as well. -/
theorem simplify_renameLetters_exchanged :
    let x : Expr := .var "x"
    let y : Expr := .var "y"
    let f : Char → Char := Equiv.swap 'x' 'y'
    let e : Expr := .add (.mul (.const 2) (.add x y)) (.mul (.const 3) (.add y x))
    let d : Expr := .div (.const 1) (.sub x x)
    simplify e = .ok (.mul (.const 5) (.add x y)) ∧
      e.renameLetters f = .add (.mul (.const 2) (.add y x)) (.mul (.const 3) (.add x y)) ∧
      simplify (e.renameLetters f) = .ok (.mul (.const 5) (.add y x)) ∧
      d.renameLetters f = .div (.const 1) (.sub y y) ∧
      simplify (d.renameLetters f) = .error (.divisionByZero "1") := by
  intro x y f e d
  have hf : Set.InjOn f {c | isLetter c = true} := (Equiv.swap 'x' 'y').injective.injOn
  have hx : IsLetterName "x" := ⟨'x', by decide +kernel, rfl⟩
  have hy : IsLetterName "y" := ⟨'y', by decide +kernel, rfl⟩
  have hnames {u : Expr} (hu : ∀ v ∈ u.variableNames, v = "x" ∨ v = "y") :
      ∀ v, 0 < u.countOccurrences v → IsLetterName v := by
    intro v hv
    rcases hu v (List.count_pos_iff.1 hv) with rfl | rfl
    · exact hx
    · exact hy
  have he : simplify e = .ok (.mul (.const 5) (.add x y)) := by decide +kernel
  have hd : simplify d = .error (.divisionByZero "1") := by decide +kernel
  have hexact : e.IsExactWith IsWholeTree := ⟨⟨rfl, trivial, trivial⟩, rfl, trivial, trivial⟩
  have hrenamed := simplify_renameLetters hf hexact (hnames (by decide))
  have hrefused := simplify_renameLetters hf (e := d) ⟨rfl, trivial, trivial⟩ (hnames (by decide))
  rw [he] at hrenamed
  rw [hd] at hrefused
  exact ⟨he, by decide +kernel, hrenamed.trans (by decide +kernel), by decide +kernel, hrefused⟩

end SymbolicAlgebra
