import SymbolicAlgebra.Proofs.Evaluation
import SymbolicAlgebra.Proofs.Occurrences

/-!
# Exact expressions

An expression is computed without rounding as long as its constants are exact and its exponents are
whole numbers, since a whole power of an exact number is exact (`Number.isExact_pow`) and any other
power is rounded. The exponents may have to be worked out by sums, differences, products and
opposites (`Expr.IsWholeTree`), or be written out already (`Expr.IsWholeConstant`);
`Expr.IsExactWith` is stated for either.
-/

namespace SymbolicAlgebra

open SymbolicAlgebra.Expr

variable {E E' : Expr → Prop} {e e' l r t u : Expr} {x : String}

/-! ### Exact expressions -/

namespace Expr

/-- A whole number in an exact representation. -/
def IsWholeConstant : Expr → Prop
  | const c => c.isExact ∧ c.isWhole
  | _ => False

/-- Sums, differences, products and opposites of whole numbers in exact representations. -/
def IsWholeTree : Expr → Prop
  | const c => c.isExact ∧ c.isWhole
  | add l r | sub l r | mul l r => l.IsWholeTree ∧ r.IsWholeTree
  | neg e => e.IsWholeTree
  | var _ | div _ _ | pow _ _ | log _ _ | other _ _ _ => False

mutual

/-- All constants are exact, and all exponents are as `E` says. -/
def IsExactWith (E : Expr → Prop) : Expr → Prop
  | const c => c.isExact
  | var _ => True
  | add l r | sub l r | mul l r | div l r | log l r => l.IsExactWith E ∧ r.IsExactWith E
  | pow b p => b.IsExactWith E ∧ p.IsExactWith E ∧ E p
  | neg e => e.IsExactWith E
  | other _ _ es => AreExactWith E es

/-- The same of every expression of a list. -/
def AreExactWith (E : Expr → Prop) : List Expr → Prop
  | [] => True
  | e :: es => e.IsExactWith E ∧ AreExactWith E es

end

lemma areExactWith_iff {es : List Expr} : AreExactWith E es ↔ ∀ e ∈ es, e.IsExactWith E := by
  induction es with
  | nil => simp [AreExactWith]
  | cons e es ih => simp [AreExactWith, ih]

lemma IsExactWith.mono (he : e.IsExactWith E) (hE : ∀ p, E p → E' p) : e.IsExactWith E' := by
  induction e with
  | const c => exact he
  | var y => trivial
  | pow b p ihb ihp => exact ⟨ihb he.1, ihp he.2.1, hE p he.2.2⟩
  | neg e ih => exact ih he
  | other m k es ih =>
    exact areExactWith_iff.2 fun e hmem => ih e hmem (areExactWith_iff.1 he e hmem)
  | _ l r ihl ihr => exact ⟨ihl he.1, ihr he.2⟩

lemma isExactWith_node {c : Chain} :
    (c.node l r).IsExactWith E ↔ l.IsExactWith E ∧ r.IsExactWith E := by
  cases c <;> exact Iff.rfl

/-! ### Whole numbers -/

lemma isWholeConstant_iff :
    e.IsWholeConstant ↔ ∃ c, e = const c ∧ ∃ n : Int, c.exactValue? = some (n : Rat) := by
  cases e with
  | const c =>
    cases c with
    | integer n => exact iff_of_true ⟨rfl, rfl⟩ ⟨_, rfl, n, rfl⟩
    | rational q =>
      have hwhole : q.den = 1 ↔ ∃ n : Int, q = n :=
        ⟨exists_eq_intCast_of_den, fun ⟨n, hn⟩ => hn ▸ Rat.den_intCast n⟩
      simpa [IsWholeConstant, Number.isExact, Number.isWhole] using hwhole
    | float y p => simp [IsWholeConstant, Number.isExact, Number.exactValue?]
  | _ => simp [IsWholeConstant]

lemma IsWholeConstant.isWholeTree (he : e.IsWholeConstant) : e.IsWholeTree := by
  cases e with
  | const c => exact he
  | _ => exact he.elim

lemma IsWholeTree.isExactWith (he : e.IsWholeTree) : e.IsExactWith E := by
  induction e with
  | const c => exact he.1
  | neg e ih => exact ih he
  | add l r ihl ihr | sub l r ihl ihr | mul l r ihl ihr => exact ⟨ihl he.1, ihr he.2⟩
  | _ => exact he.elim

lemma IsWholeTree.isArithmetic (he : e.IsWholeTree) : e.IsArithmetic := by
  induction e with
  | const c => exact he.1
  | neg e ih => exact ih he
  | add l r ihl ihr | sub l r ihl ihr | mul l r ihl ihr => exact ⟨ihl he.1, ihr he.2⟩
  | _ => exact he.elim

lemma IsWholeTree.exists_value (he : e.IsWholeTree) (ν : Valuation) :
    ∃ n : Int, e.value ν = some (n : Rat) := by
  induction e with
  | const c =>
    have hc : (const c).IsWholeConstant := he
    obtain ⟨_, heq, n, hn⟩ := isWholeConstant_iff.1 hc
    cases heq
    exact ⟨n, hn⟩
  | add l r ihl ihr =>
    obtain ⟨m, hm⟩ := ihl he.1
    obtain ⟨n, hn⟩ := ihr he.2
    exact ⟨m + n, value_add_eq_some_iff.2 ⟨m, n, hm, hn, (Int.cast_add m n).symm⟩⟩
  | sub l r ihl ihr =>
    obtain ⟨m, hm⟩ := ihl he.1
    obtain ⟨n, hn⟩ := ihr he.2
    exact ⟨m - n, value_sub_eq_some_iff.2 ⟨m, n, hm, hn, (Int.cast_sub m n).symm⟩⟩
  | mul l r ihl ihr =>
    obtain ⟨m, hm⟩ := ihl he.1
    obtain ⟨n, hn⟩ := ihr he.2
    exact ⟨m * n, value_mul_eq_some_iff.2 ⟨m, n, hm, hn, (Int.cast_mul m n).symm⟩⟩
  | neg e ih =>
    obtain ⟨n, hn⟩ := ih he
    exact ⟨-n, value_neg_eq_some_iff.2 ⟨n, hn, (Int.cast_neg n).symm⟩⟩
  | _ => exact he.elim

lemma IsWholeTree.countOccurrences_eq_zero (he : e.IsWholeTree) : e.countOccurrences x = 0 := by
  induction e with
  | const c => rfl
  | neg e ih => rw [countOccurrences_neg, ih he]
  | add l r ihl ihr => rw [countOccurrences_add, ihl he.1, ihr he.2]
  | sub l r ihl ihr => rw [countOccurrences_sub, ihl he.1, ihr he.2]
  | mul l r ihl ihr => rw [countOccurrences_mul, ihl he.1, ihr he.2]
  | _ => exact he.elim

/-- An expression with whole constants for exponents is one whose exponents are to be worked out. -/
lemma IsExactWith.toTree (he : e.IsExactWith IsWholeConstant) : e.IsExactWith IsWholeTree :=
  he.mono fun _ => IsWholeConstant.isWholeTree

lemma isExactWith_pow (hb : l.IsExactWith IsWholeConstant) (hp : r.IsWholeConstant) :
    (pow l r).IsExactWith IsWholeConstant :=
  ⟨hb, hp.isWholeTree.isExactWith, hp⟩

end Expr

/-! ### Chains -/

namespace Chain

variable {c : Chain} {es : List Expr}

lemma isExactWith_of_mem_operands (he : e.IsExactWith E) (hu : u ∈ c.operands e) :
    u.IsExactWith E := by
  induction e using c.induct with
  | node l r ihl ihr =>
    rw [c.operands_node, List.mem_append] at hu
    obtain ⟨hl, hr⟩ := isExactWith_node.1 he
    exact hu.elim (ihl hl) (ihr hr)
  | leaf e hleaf =>
    rw [hleaf, List.mem_singleton] at hu
    rwa [hu]

lemma isExactWith_link (he : e.IsExactWith E) (hes : ∀ u ∈ es, u.IsExactWith E) :
    (c.link e es).IsExactWith E := by
  induction es generalizing e with
  | nil => exact he
  | cons u es ih =>
    obtain ⟨hu, hes⟩ := List.forall_mem_cons.1 hes
    exact isExactWith_node.2 ⟨he, ih hu hes⟩

lemma isExactWith_build (hes : ∀ u ∈ es, u.IsExactWith E) : (c.build es).IsExactWith E := by
  cases es with
  | nil => cases c <;> rfl
  | cons e es =>
    obtain ⟨he, hes⟩ := List.forall_mem_cons.1 hes
    exact isExactWith_link he hes

lemma isWholeTree_link (he : e.IsWholeConstant) (hes : ∀ u ∈ es, u.IsWholeConstant) :
    (sum.link e es).IsWholeTree := by
  induction es generalizing e with
  | nil => exact he.isWholeTree
  | cons u es ih =>
    obtain ⟨hu, hes⟩ := List.forall_mem_cons.1 hes
    exact ⟨he.isWholeTree, ih hu hes⟩

/-- The sum of whole constants is to be worked out. -/
lemma isWholeTree_build (hes : ∀ u ∈ es, u.IsWholeConstant) : (sum.build es).IsWholeTree := by
  cases es with
  | nil => exact ⟨rfl, rfl⟩
  | cons e es =>
    obtain ⟨he, hes⟩ := List.forall_mem_cons.1 hes
    exact isWholeTree_link he hes

end Chain

/-! ### Numbers -/

namespace Number

variable {a b c : Number}

lemma isExact_div (ha : a.isExact) (hb : b.isExact) (h : a.div b = .ok c) : c.isExact := by
  obtain ⟨p, hp⟩ := exists_exactValue?_of_isExact ha
  obtain ⟨q, hq⟩ := exists_exactValue?_of_isExact hb
  by_cases hzero : q = 0
  · subst hzero
    obtain ⟨err, herr, -⟩ := exists_div_eq_error hp hq
    rw [herr] at h
    cases h
  · rw [div_eq_ok hp hq hzero] at h
    cases h
    rfl

/-- A whole power of an exact number is exact. -/
lemma isExact_pow {n : Int} (ha : a.isExact) (hb : b.exactValue? = some (n : Rat))
    (h : a.pow b = .ok c) : c.isExact := by
  obtain ⟨q, hq⟩ := exists_exactValue?_of_isExact ha
  match hv : powValue q n with
  | some v =>
    obtain ⟨c', hc, hval⟩ := exactValue?_pow hq hb hv
    obtain rfl := Except.ok.inj (hc.symm.trans h)
    exact isExact_of_exactValue? hval
  | none =>
    obtain ⟨err, herr, -⟩ := exists_pow_eq_error hq hb (Rat.den_intCast n) hv
    rw [herr] at h
    cases h

end Number

/-! ### Reordering -/

lemma Expr.Reordered.isWholeConstant_iff (h : e.Reordered e') :
    e.IsWholeConstant ↔ e'.IsWholeConstant := by
  induction h with
  | refl e => exact Iff.rfl
  | symm _ ih => exact ih.symm
  | trans _ _ ih ih' => exact ih.trans ih'
  | comm c | assoc c | node c => cases c <;> exact Iff.rfl
  | _ => exact Iff.rfl

lemma Expr.Reordered.isExactWith_iff (h : e.Reordered e') :
    e.IsExactWith IsWholeConstant ↔ e'.IsExactWith IsWholeConstant := by
  induction h with
  | refl e => exact Iff.rfl
  | symm _ ih => exact ih.symm
  | trans _ _ ih ih' => exact ih.trans ih'
  | comm c l r => rw [isExactWith_node, isExactWith_node, and_comm]
  | assoc c e₁ e₂ e₃ => simp only [isExactWith_node, and_assoc]
  | node c _ _ ihl ihr => rw [isExactWith_node, isExactWith_node, ihl, ihr]
  | pow _ hp ihb ihp => exact and_congr ihb (and_congr ihp hp.isWholeConstant_iff)
  | neg _ ih => exact ih
  | _ _ _ ihl ihr => exact and_congr ihl ihr

end SymbolicAlgebra
