import Mathlib.Algebra.CharZero.Infinite
import Mathlib.Algebra.MvPolynomial.Funext
import SymbolicAlgebra.Proofs.Alike
import SymbolicAlgebra.Proofs.Evaluation
import SymbolicAlgebra.Proofs.Soundness

/-!
# Expanded polynomials

An expanded polynomial is made of monomials by sums, differences and opposites. In a collected one
each term stands for a monomial of its own, with a coefficient other than zero, and its factors are
powers of different variables. Lists of factors and of terms carry labels: a variable with its
exponent, or exponents with a coefficient. Terms of different exponents are different functions; so
collected polynomials with the same values have the same labels up to order
(`MvPolynomial.funext`), and are alike (`IsCollected.alike`).
-/

namespace SymbolicAlgebra

open Simplify

/-! ### Labels -/

section

variable {κ M : Type} [AddCommMonoid M] [DecidableEq κ] {ls ls' : List (κ × M)} {i : κ} {m : M}

/-- What the entries of a list with one key amount to. -/
def amountAt (ls : List (κ × M)) (i : κ) : M :=
  (ls.map fun p => if p.1 = i then p.2 else 0).sum

/-- Keys that differ, with amounts that matter. -/
structure AreLabels (ls : List (κ × M)) : Prop where
  nodup : (ls.map Prod.fst).Nodup
  ne_zero : ∀ p ∈ ls, p.2 ≠ 0

lemma amountAt_cons (p : κ × M) (ls : List (κ × M)) (i : κ) :
    amountAt (p :: ls) i = (if p.1 = i then p.2 else 0) + amountAt ls i := by
  rw [amountAt, List.map_cons, List.sum_cons, amountAt]

lemma amountAt_of_notMem (h : i ∉ ls.map Prod.fst) : amountAt ls i = 0 := by
  induction ls with
  | nil => rfl
  | cons p ls ih =>
    rw [List.map_cons, List.mem_cons, not_or] at h
    rw [amountAt_cons, if_neg (Ne.symm h.1), zero_add, ih h.2]

lemma amountAt_of_mem (hnodup : (ls.map Prod.fst).Nodup) (h : (i, m) ∈ ls) : amountAt ls i = m := by
  induction ls with
  | nil => cases h
  | cons p ls ih =>
    rw [List.map_cons, List.nodup_cons] at hnodup
    rw [amountAt_cons]
    rcases List.mem_cons.1 h with rfl | h
    · rw [if_pos rfl, amountAt_of_notMem hnodup.1, add_zero]
    · have hne : p.1 ≠ i := by
        rintro rfl
        exact hnodup.1 (List.mem_map.2 ⟨_, h, rfl⟩)
      rw [if_neg hne, zero_add, ih hnodup.2 h]

/-- Labels are known from their amounts. -/
lemma AreLabels.mem_iff (h : AreLabels ls) : (i, m) ∈ ls ↔ m ≠ 0 ∧ amountAt ls i = m := by
  constructor
  · intro hmem
    exact ⟨h.ne_zero _ hmem, amountAt_of_mem h.nodup hmem⟩
  · rintro ⟨hm, rfl⟩
    by_contra hmem
    by_cases hi : i ∈ ls.map Prod.fst
    · obtain ⟨⟨j, n⟩, hp, rfl⟩ := List.mem_map.1 hi
      rw [amountAt_of_mem h.nodup hp] at hmem
      exact hmem hp
    · exact hm (amountAt_of_notMem hi)

lemma AreLabels.perm (h : AreLabels ls) (h' : AreLabels ls')
    (heq : ∀ i, amountAt ls i = amountAt ls' i) : ls.Perm ls' := by
  rw [List.perm_ext_iff_of_nodup (.of_map _ h.nodup) (.of_map _ h'.nodup)]
  rintro ⟨i, m⟩
  rw [h.mem_iff, h'.mem_iff, heq]

end

/-! ### Lists of expressions that are alike -/

section

variable {c : Chain} {es es' : List Expr} {k k' : Number} {q : Rat}

/-- Lists of expressions that are alike up to their order. -/
def AlikeLists (es es' : List Expr) : Prop :=
  ∃ es'', es.Perm es'' ∧ List.Forall₂ Expr.Alike es'' es'

lemma AlikeLists.length_eq (h : AlikeLists es es') : es.length = es'.length := by
  obtain ⟨es'', hperm, hall⟩ := h
  exact hperm.length_eq.trans hall.length_eq

lemma AlikeLists.alike_of_singleton {e e' : Expr} (h : AlikeLists [e] [e']) : e.Alike e' := by
  obtain ⟨es, hperm, hall⟩ := h
  obtain rfl := List.singleton_perm.1 hperm
  obtain ⟨he, -⟩ := List.forall₂_cons.1 hall
  exact he

/-- Expressions with the same labels, up to order. -/
lemma alikeLists_of_perm {α : Type} {R R' : Expr → α → Prop} {ls ls' : List α}
    (h : List.Forall₂ R es ls) (h' : List.Forall₂ R' es' ls') (hperm : ls.Perm ls')
    (hR : ∀ e e' a, R e a → R' e' a → e.Alike e') : AlikeLists es es' := by
  have hcomp : Relation.Comp (List.Forall₂ R) List.Perm es ls' := ⟨ls, h, hperm⟩
  rw [List.forall₂_comp_perm_eq_perm_comp_forall₂] at hcomp
  obtain ⟨es'', hperm, h''⟩ := hcomp
  refine ⟨es'', hperm, forall₂_comp_iff.2 ⟨ls', h'', h'.flip⟩ |>.imp ?_⟩
  rintro e e' ⟨a, ha, ha'⟩
  exact hR e e' a ha ha'

lemma alike_link {e e' : Expr} (he : e.Alike e') (h : List.Forall₂ Expr.Alike es es') :
    (c.link e es).Alike (c.link e' es') := by
  induction h generalizing e e' with
  | nil => exact he
  | cons hx _ ih => exact .node c he (ih hx)

lemma AlikeLists.build (h : AlikeLists es es') : (c.build es).Alike (c.build es') := by
  obtain ⟨es'', hperm, hall⟩ := h
  refine .trans (Chain.reordered_build_of_perm hperm).alike ?_
  cases hall with
  | nil => exact .refl _
  | cons he h => exact alike_link he h

lemma AlikeLists.const_cons (hk : k.exactValue? = some q) (hk' : k'.exactValue? = some q)
    (h : AlikeLists es es') : AlikeLists (.const k :: es) (.const k' :: es') := by
  obtain ⟨es'', hperm, hall⟩ := h
  exact ⟨.const k :: es'', hperm.cons _, .cons (.const hk hk') hall⟩

end

lemma Expr.Alike.takesSign_eq {e e' : Expr} (h : e.Alike e') : takesSign e = takesSign e' := by
  induction h with
  | refl e => rfl
  | symm _ ih => exact ih.symm
  | trans _ _ ih ih' => exact ih.trans ih'
  | comm c | assoc c | node c => cases c <;> rfl
  | _ => rfl

/-! ### Monomials and expanded polynomials -/

/-- A product of exact constants, variables and powers of variables, with signs anywhere. -/
inductive IsMonomial : Expr → Prop
  | const {c : Number} (hc : c.isExact) : IsMonomial (.const c)
  | var {x : String} (hx : x.length = 1) : IsMonomial (.var x)
  | pow {x : String} {c : Number} {n : Nat} (hx : x.length = 1)
      (hc : c.exactValue? = some (n : Rat)) :
      IsMonomial (.pow (.var x) (.const c))
  | mul {l r : Expr} (hl : IsMonomial l) (hr : IsMonomial r) : IsMonomial (.mul l r)
  | neg {e : Expr} (he : IsMonomial e) : IsMonomial (.neg e)

/-- Monomials put together by sums, differences and opposites. -/
inductive IsExpanded : Expr → Prop
  | monomial {e : Expr} (he : IsMonomial e) : IsExpanded e
  | add {l r : Expr} (hl : IsExpanded l) (hr : IsExpanded r) : IsExpanded (.add l r)
  | sub {l r : Expr} (hl : IsExpanded l) (hr : IsExpanded r) : IsExpanded (.sub l r)
  | neg {e : Expr} (he : IsExpanded e) : IsExpanded (.neg e)

variable {e e' r r' t t' f : Expr} {es fs fs' ts ts' : List Expr} {k k' : Number}
    {c q q' : Rat} {n : Nat}

lemma exists_value_const (hc : k.isExact) (ν : Valuation) : ∃ v, (Expr.const k).value ν = some v :=
  Number.exists_exactValue?_of_isExact hc

lemma value_pow_var (x : String) (hk : k.exactValue? = some (n : Rat)) (ν : Valuation) :
    (Expr.pow (.var x) (.const k)).value ν = some (ν.letter x ^ n) := by
  refine Expr.value_pow_eq_some_iff.2 ⟨ν.letter x, n, rfl, hk, ?_⟩
  rw [← Int.cast_natCast, powValue_intCast]
  exact ⟨.inr (Int.natCast_nonneg n), zpow_natCast _ n⟩

lemma IsMonomial.exists_value (h : IsMonomial e) (ν : Valuation) : ∃ v, e.value ν = some v := by
  induction h with
  | const hc => exact exists_value_const hc ν
  | var => exact ⟨_, rfl⟩
  | pow _ hc => exact ⟨_, value_pow_var _ hc ν⟩
  | mul _ _ ihl ihr =>
    obtain ⟨x, hx⟩ := ihl
    obtain ⟨y, hy⟩ := ihr
    exact ⟨x * y, Expr.value_mul_eq_some_iff.2 ⟨x, y, hx, hy, rfl⟩⟩
  | neg _ ih =>
    obtain ⟨x, hx⟩ := ih
    exact ⟨-x, Expr.value_neg_eq_some_iff.2 ⟨x, hx, rfl⟩⟩

/-- An expanded polynomial has a value everywhere. -/
lemma IsExpanded.exists_value (h : IsExpanded e) (ν : Valuation) : ∃ v, e.value ν = some v := by
  induction h with
  | monomial he => exact he.exists_value ν
  | add _ _ ihl ihr =>
    obtain ⟨x, hx⟩ := ihl
    obtain ⟨y, hy⟩ := ihr
    exact ⟨x + y, Expr.value_add_eq_some_iff.2 ⟨x, y, hx, hy, rfl⟩⟩
  | sub _ _ ihl ihr =>
    obtain ⟨x, hx⟩ := ihl
    obtain ⟨y, hy⟩ := ihr
    exact ⟨x - y, Expr.value_sub_eq_some_iff.2 ⟨x, y, hx, hy, rfl⟩⟩
  | neg _ ih =>
    obtain ⟨x, hx⟩ := ih
    exact ⟨-x, Expr.value_neg_eq_some_iff.2 ⟨x, hx, rfl⟩⟩

/-! ### Factors and terms -/

/-- A variable, or a power of one. -/
inductive IsLetterPower : Expr → String × Nat → Prop
  | var {x : String} (hx : x.length = 1) : IsLetterPower (.var x) (x, 1)
  | pow {x : String} {c : Number} {n : Nat} (hx : x.length = 1)
      (hc : c.exactValue? = some (n : Rat))
      (hn : 2 ≤ n) : IsLetterPower (.pow (.var x) (.const c)) (x, n)

/-- Powers of different variables. -/
structure AreLetterPowers (fs : List Expr) (ls : List (String × Nat)) : Prop where
  powers : List.Forall₂ IsLetterPower fs ls
  nodup : (ls.map Prod.fst).Nodup

/-- The exponents of variables as a function. -/
noncomputable def exponents (ls : List (String × Nat)) : String →₀ Nat :=
  (ls.map fun p => Finsupp.single p.1 p.2).sum

/-- A term of a collected polynomial, with its exponents and its coefficient. -/
def IsTerm (t : Expr) (p : (String →₀ Nat) × Rat) : Prop :=
  ∃ k fs ls, t = Gathered.toProduct ⟨k, fs⟩ ∧ k.exactValue? = some p.2 ∧ p.2 ≠ 0 ∧ fs ≠ [] ∧
    AreLetterPowers fs ls ∧ exponents ls = p.1

/-- Terms with different exponents. -/
structure AreTerms (ts : List Expr) (ps : List ((String →₀ Nat) × Rat)) : Prop where
  terms : List.Forall₂ IsTerm ts ps
  nodup : (ps.map Prod.fst).Nodup

/-- What a monomial is simplified to. -/
def IsSummand (r : Expr) : Prop :=
  (∃ c, IsValue r c) ∨ ∃ p, IsTerm r p

/-- What an expanded polynomial is simplified to: a constant and terms, put together to a sum. -/
def IsCollected (r : Expr) (q : Rat) (ps : List ((String →₀ Nat) × Rat)) : Prop :=
  ∃ k ts, r = Gathered.toSum ⟨k, ts⟩ ∧ k.exactValue? = some q ∧ AreTerms ts ps

variable {p : (String →₀ Nat) × Rat} {ps ps' : List ((String →₀ Nat) × Rat)}
variable {ls ls' : List (String × Nat)} {l : String × Nat}

lemma exponents_cons (l : String × Nat) (ls : List (String × Nat)) :
    exponents (l :: ls) = Finsupp.single l.1 l.2 + exponents ls := by
  simp [exponents]

lemma exponents_apply (ls : List (String × Nat)) (x : String) : exponents ls x = amountAt ls x := by
  induction ls with
  | nil => rfl
  | cons l ls ih => rw [exponents_cons, Finsupp.add_apply, Finsupp.single_apply, ih, amountAt_cons]

lemma IsLetterPower.length_eq (h : IsLetterPower f l) : l.1.length = 1 := by
  cases h with
  | var hx => exact hx
  | pow hx => exact hx

lemma IsLetterPower.one_le (h : IsLetterPower f l) : 1 ≤ l.2 := by
  cases h with
  | var => exact Nat.le_refl 1
  | pow _ _ hn => exact Nat.le_of_succ_le hn

lemma IsLetterPower.takesSign (h : IsLetterPower f l) : takesSign f := by
  cases h <;> rfl

lemma IsLetterPower.operands (h : IsLetterPower f l) (c : Chain) : c.operands f = [f] := by
  cases h <;> cases c <;> rfl

lemma IsLetterPower.isMonomial (h : IsLetterPower f l) : IsMonomial f := by
  cases h with
  | var hx => exact .var hx
  | pow hx hc => exact .pow hx hc

lemma IsLetterPower.value_eq (h : IsLetterPower f l) (ν : Valuation) :
    f.value ν = some (ν.letter l.1 ^ l.2) := by
  cases h with
  | var => rw [Expr.value, pow_one]
  | pow _ hc => exact value_pow_var _ hc ν

lemma IsLetterPower.alike (h : IsLetterPower f l) {f' : Expr} (h' : IsLetterPower f' l) :
    f.Alike f' := by
  cases h with
  | var =>
    cases h' with
    | var => exact .refl _
    | pow _ _ hn => exact absurd hn (by decide)
  | pow _ hc hn =>
    cases h' with
    | var => exact absurd hn (by decide)
    | pow _ hc' => exact .pow (.refl _) (.const hc hc')

namespace AreLetterPowers

lemma areLabels (h : AreLetterPowers fs ls) : AreLabels ls where
  nodup := h.nodup
  ne_zero := forall_mem_of_forall₂ h.powers fun _ _ hf => Nat.ne_of_gt hf.one_le

lemma exists_of_mem (h : AreLetterPowers fs ls) : ∀ f ∈ fs, ∃ l, IsLetterPower f l :=
  forall_mem_of_forall₂ h.powers.flip fun l _ hf => ⟨l, hf⟩

/-- Factors with the same exponents. -/
lemma alikeLists (h : AreLetterPowers fs ls) (h' : AreLetterPowers fs' ls')
    (heq : exponents ls = exponents ls') : AlikeLists fs fs' := by
  have hperm : ls.Perm ls' := by
    apply h.areLabels.perm h'.areLabels
    intro x
    rw [← exponents_apply, ← exponents_apply, heq]
  apply alikeLists_of_perm h.powers h'.powers hperm
  intro f f' l hf hf'
  exact hf.alike hf'

lemma value_eq (h : AreLetterPowers fs ls) (ν : Valuation) :
    Chain.product.value ν fs = some ((exponents ls).prod fun x n => ν.letter x ^ n) := by
  obtain ⟨hpowers, -⟩ := h
  induction hpowers with
  | nil => simp [Chain.value, exponents, Chain.unit]
  | @cons f l fs ls hf _ ih =>
    rw [Chain.value_cons_eq_some_iff]
    refine ⟨_, _, hf.value_eq ν, ih, ?_⟩
    simp [exponents_cons, Finsupp.prod_add_index', pow_add, Chain.op]

lemma exponents_ne_zero (h : AreLetterPowers fs ls) (hne : fs ≠ []) : exponents ls ≠ 0 := by
  cases h.powers with
  | nil => exact absurd rfl hne
  | @cons f l fs ls hf hfs =>
    intro hzero
    have happly := DFunLike.congr_fun hzero l.1
    rw [exponents_cons, Finsupp.add_apply, Finsupp.single_eq_same, Finsupp.zero_apply,
      Nat.add_eq_zero_iff] at happly
    exact Nat.ne_of_gt hf.one_le happly.1

end AreLetterPowers

/-- How factors are put together, with a coefficient other than zero. -/
lemma toProduct_eq (hk : k.exactValue? = some c) (hc : c ≠ 0) (h : AreLetterPowers fs ls)
    (hne : fs ≠ []) : Gathered.toProduct ⟨k, fs⟩ =
      if c = -1 ∧ fs.length = 1 then .neg (Chain.product.build fs)
      else if c = 1 then Chain.product.build fs else Chain.product.build (.const k :: fs) := by
  have hz : ¬k.isZero := by
    rw [Number.isZero_iff hk]
    exact hc
  obtain ⟨f, fs, rfl⟩ := List.exists_cons_of_ne_nil hne
  obtain ⟨l, hf⟩ := h.exists_of_mem f List.mem_cons_self
  have hminus := Number.beq_iff hk (Number.exactValue?_integer (-1))
  rw [Gathered.toProduct, if_neg hz]
  simp only [hf.takesSign, Bool.and_true, Bool.and_eq_true, hminus, Number.isOne_iff hk,
    List.isEmpty_iff, List.length_cons, Nat.add_eq_right, List.length_eq_zero_iff]
  push_cast
  split
  · next hone => rw [hone.2]; rfl
  · rfl

/-- How a constant and factors are put together depends on the value of the constant and the classes
of the factors. -/
lemma toProduct_alike (hk : k.exactValue? = some q) (hk' : k'.exactValue? = some q)
    (h : AlikeLists fs fs') :
    (Gathered.toProduct ⟨k, fs⟩).Alike (Gathered.toProduct ⟨k', fs'⟩) := by
  have hlen := h.length_eq
  have hz : k.isZero = k'.isZero := by
    rw [Bool.eq_iff_iff, Number.isZero_iff hk, Number.isZero_iff hk']
  have hone : k.isOne = k'.isOne := by
    rw [Bool.eq_iff_iff, Number.isOne_iff hk, Number.isOne_iff hk']
  have hminus : (k == .integer (-1)) = (k' == .integer (-1)) := by
    rw [Bool.eq_iff_iff, Number.beq_iff hk (y := -1) rfl, Number.beq_iff hk' (y := -1) rfl]
  cases fs with
  | nil =>
    obtain rfl := List.length_eq_zero_iff.1 hlen.symm
    simp only [Gathered.toProduct, ite_self]
    exact .const hk hk'
  | cons f fs =>
    obtain ⟨f', fs', rfl⟩ := List.exists_cons_of_length_pos (l := fs') (by rw [← hlen]; simp)
    have hlen : fs.length = fs'.length := Nat.succ_inj.1 hlen
    have hempty : fs.isEmpty = fs'.isEmpty := by
      rw [Bool.eq_iff_iff, List.isEmpty_iff_length_eq_zero, List.isEmpty_iff_length_eq_zero, hlen]
    have hsingle (hfs : fs'.isEmpty) : f.Alike f' := by
      obtain rfl := List.isEmpty_iff.1 hfs
      obtain rfl := List.isEmpty_iff.1 (hempty.trans hfs)
      exact h.alike_of_singleton
    have hsign : (fs.isEmpty && takesSign f) = (fs'.isEmpty && takesSign f') := by
      rw [hempty]
      cases hfs : fs'.isEmpty with
      | true => rw [(hsingle hfs).takesSign_eq]
      | false => rfl
    simp only [Gathered.toProduct, Bool.and_assoc]
    rw [hz, hminus, hsign, hone]
    split
    · exact .const hk hk'
    split
    · next hneg =>
      simp only [Bool.and_eq_true] at hneg
      exact .neg (hsingle hneg.2.1)
    split
    · exact h.build
    · exact (h.const_cons hk hk').build

/-- Terms with the same label. -/
lemma IsTerm.alike (h : IsTerm t p) (h' : IsTerm t' p) : t.Alike t' := by
  obtain ⟨k, fs, ls, rfl, hk, hc, hne, hfs, hls⟩ := h
  obtain ⟨k', fs', ls', rfl, hk', -, hne', hfs', hls'⟩ := h'
  exact toProduct_alike hk hk' (hfs.alikeLists hfs' (hls.trans hls'.symm))

lemma IsTerm.coefficient_ne_zero (h : IsTerm t p) : p.2 ≠ 0 := by
  obtain ⟨k, fs, ls, -, -, hc, -⟩ := h
  exact hc

lemma IsTerm.exponents_ne_zero (h : IsTerm t p) : p.1 ≠ 0 := by
  obtain ⟨k, fs, ls, -, -, -, hne, hfs, hls⟩ := h
  rw [← hls]
  exact hfs.exponents_ne_zero hne

lemma IsTerm.value_eq (h : IsTerm t p) (ν : Valuation) :
    t.value ν = some (MvPolynomial.eval ν.letter (MvPolynomial.monomial p.1 p.2)) := by
  obtain ⟨k, fs, ls, rfl, hk, -, -, hfs, hls⟩ := h
  rw [MvPolynomial.eval_monomial, ← hls]
  exact Gathered.HasValue.toProduct ⟨_, _, hk, hfs.value_eq ν, rfl⟩

/-! ### Collected polynomials -/

/-- The sum of monomials. -/
noncomputable def polynomial (ps : List ((String →₀ Nat) × Rat)) : MvPolynomial String Rat :=
  (ps.map fun p => MvPolynomial.monomial p.1 p.2).sum

lemma polynomial_cons (p : (String →₀ Nat) × Rat) (ps : List ((String →₀ Nat) × Rat)) :
    polynomial (p :: ps) = MvPolynomial.monomial p.1 p.2 + polynomial ps := by
  simp [polynomial]

lemma coeff_polynomial (ps : List ((String →₀ Nat) × Rat)) (d : String →₀ Nat) :
    (polynomial ps).coeff d = amountAt ps d := by
  induction ps with
  | nil => rfl
  | cons p ps ih =>
    rw [polynomial_cons, MvPolynomial.coeff_add, MvPolynomial.coeff_monomial, ih, amountAt_cons]

namespace AreTerms

lemma areLabels (h : AreTerms ts ps) : AreLabels ps where
  nodup := h.nodup
  ne_zero := forall_mem_of_forall₂ h.terms fun _ _ ht => ht.coefficient_ne_zero

lemma amountAt_zero (h : AreTerms ts ps) : amountAt ps 0 = 0 := by
  apply amountAt_of_notMem
  intro hmem
  obtain ⟨p, hp, hzero⟩ := List.mem_map.1 hmem
  exact forall_mem_of_forall₂ h.terms (fun _ _ ht => ht.exponents_ne_zero) p hp hzero

lemma value_eq (h : AreTerms ts ps) (ν : Valuation) :
    Chain.sum.value ν ts = some (MvPolynomial.eval ν.letter (polynomial ps)) := by
  obtain ⟨hterms, -⟩ := h
  induction hterms with
  | nil => simp [Chain.value, polynomial, Chain.unit]
  | cons ht _ ih =>
    rw [Chain.value_cons_eq_some_iff]
    refine ⟨_, _, ht.value_eq ν, ih, ?_⟩
    rw [polynomial_cons, map_add]
    rfl

end AreTerms

/-- A rational gives a value to every variable. -/
lemma exists_valuation (f : String → Rat) : ∃ ν : Valuation, ν.letter = f :=
  ⟨⟨f, fun _ _ => none⟩, rfl⟩

lemma IsCollected.value_eq (h : IsCollected r q ps) (ν : Valuation) :
    r.value ν = some (MvPolynomial.eval ν.letter (MvPolynomial.C q + polynomial ps)) := by
  obtain ⟨k, ts, rfl, hk, hts⟩ := h
  rw [map_add, MvPolynomial.eval_C]
  exact Gathered.HasValue.toSum ⟨q, _, hk, hts.value_eq ν, rfl⟩

/-- Collected polynomials with the same values have the same labels. -/
lemma IsCollected.labels_of_value_eq (h : IsCollected r q ps) (h' : IsCollected r' q' ps')
    (heq : ∀ ν, r.value ν = r'.value ν) : q = q' ∧ ps.Perm ps' := by
  have hpolynomial : MvPolynomial.C q + polynomial ps = MvPolynomial.C q' + polynomial ps' := by
    apply MvPolynomial.funext
    intro f
    obtain ⟨ν, rfl⟩ := exists_valuation f
    have hν := heq ν
    rw [h.value_eq, h'.value_eq] at hν
    exact Option.some.inj hν
  obtain ⟨k, ts, -, -, hts⟩ := h
  obtain ⟨k', ts', -, -, hts'⟩ := h'
  have hcoeff (d : String →₀ Nat) := congrArg (MvPolynomial.coeff d) hpolynomial
  simp only [MvPolynomial.coeff_add, MvPolynomial.coeff_C, coeff_polynomial] at hcoeff
  have hzero := hcoeff 0
  rw [hts.amountAt_zero, hts'.amountAt_zero, if_pos rfl, add_zero, add_zero] at hzero
  refine ⟨hzero, hts.areLabels.perm hts'.areLabels fun d => ?_⟩
  have hd := hcoeff d
  rw [hzero] at hd
  exact add_left_cancel hd

lemma toSum_cons (k : Number) (t : Expr) (ts : List Expr) : Gathered.toSum ⟨k, t :: ts⟩ =
    if k.isZero then Chain.sum.build (t :: ts) else Chain.sum.build (.const k :: t :: ts) :=
  rfl

lemma toSum_alike (hk : k.exactValue? = some q) (hk' : k'.exactValue? = some q)
    (h : AlikeLists ts ts') : (Gathered.toSum ⟨k, ts⟩).Alike (Gathered.toSum ⟨k', ts'⟩) := by
  have hlen := h.length_eq
  have hz : k.isZero = k'.isZero := by
    rw [Bool.eq_iff_iff, Number.isZero_iff hk, Number.isZero_iff hk']
  cases ts <;> cases ts' <;>
    simp only [List.length_nil, List.length_cons, Nat.add_eq_zero_iff] at hlen
  · exact .const hk hk'
  · omega
  · omega
  · rw [toSum_cons, toSum_cons, hz]
    split
    · exact h.build
    · exact (h.const_cons hk hk').build

/-- Collected polynomials with the same values are alike. -/
theorem IsCollected.alike (h : IsCollected r q ps) (h' : IsCollected r' q' ps')
    (heq : ∀ ν, r.value ν = r'.value ν) : r.Alike r' := by
  obtain ⟨rfl, hperm⟩ := h.labels_of_value_eq h' heq
  obtain ⟨k, ts, rfl, hk, hts⟩ := h
  obtain ⟨k', ts', rfl, hk', hts'⟩ := h'
  apply toSum_alike hk hk'
  apply alikeLists_of_perm hts.terms hts'.terms hperm
  intro t t' p ht ht'
  exact ht.alike ht'

end SymbolicAlgebra
