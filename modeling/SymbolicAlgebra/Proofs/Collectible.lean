import SymbolicAlgebra.Proofs.Exactness.Simplification

/-!
# Expressions whose terms and factors are collected at once

Like terms are collected once, before they are put together again, and a term that then loses its
coefficient is an operand whatever it is. Where it is a sum, its terms are not collected with those
around it, and so it is for the factors of a product that loses its exponent. Neither happens to an
expression of exact numbers in which no sum is a factor, and in which sums, products, opposites and
powers are raised to whole powers of at least two only (`Expr.IsCollectible`).

A number or a quotient may be raised to whole powers, so that no number has to be rounded, and a
variable or a logarithm to any power (`Expr.TakesExponent`). Exponents of one base are added up and
worked out, and are exponents of it still.
-/

namespace SymbolicAlgebra

namespace Expr

/-- A sum or a difference, whatever sign it has. -/
def isSumLike : Expr → Bool
  | add _ _ | sub _ _ => true
  | neg e => e.isSumLike
  | _ => false

/-- An exponent that is worked out to a whole number of at least two. -/
structure IsMultiple (p : Expr) : Prop where
  whole : p.IsWholeTree
  value : ∃ n : Int, 2 ≤ n ∧ ∀ ν, p.value ν = some (n : Rat)

/-- How a base behaves in a power: it stays what it is, it may become a number, or it may be taken
apart by a chain around it when it loses its exponent. -/
inductive BaseKind where
  | free
  | plain
  | composite

/-- The kind of an expression as a base. -/
def baseKind : Expr → BaseKind
  | var _ | log _ _ => .free
  | const _ | div _ _ => .plain
  | _ => .composite

/-- The exponents that a base may have. -/
def TakesExponent (b p : Expr) : Prop :=
  match b.baseKind with
  | .free => True
  | .plain => p.IsWholeTree
  | .composite => b.IsExactWith IsWholeTree ∧ p.IsMultiple

/-- An expression of exact numbers in which no sum is a factor, and only whole powers of at least
two are taken of anything that has factors or a sign itself. -/
def IsCollectible : Expr → Prop
  | const c => c.isExact
  | var _ => True
  | add l r | sub l r | div l r | log l r => l.IsCollectible ∧ r.IsCollectible
  | mul l r => (l.IsCollectible ∧ l.isSumLike = false) ∧ r.IsCollectible ∧ r.isSumLike = false
  | pow b p => b.IsCollectible ∧ p.IsCollectible ∧ b.TakesExponent p
  | neg e => e.IsCollectible
  | other _ _ _ => False

/-- An expression that can be an operand of a collectible chain. -/
def IsCollectibleOperand (c : Chain) (e : Expr) : Prop :=
  e.IsCollectible ∧ (c = .product → e.isSumLike = false)

end Expr

open SymbolicAlgebra.Expr

variable {b e l p q r x : Expr} {c : Chain} {es ps : List Expr}

/-! ### Chains -/

lemma isCollectible_node : (c.node l r).IsCollectible ↔
    l.IsCollectibleOperand c ∧ r.IsCollectibleOperand c := by
  cases c with
  | sum => simp [Chain.node, IsCollectible, IsCollectibleOperand]
  | product => simp [Chain.node, IsCollectible, IsCollectibleOperand]

lemma isCollectibleOperand_node (hl : l.IsCollectibleOperand c) (hr : r.IsCollectibleOperand c) :
    (c.node l r).IsCollectibleOperand c := by
  refine ⟨isCollectible_node.2 ⟨hl, hr⟩, ?_⟩
  rintro rfl
  rfl

/-- What is no sum is a term of a sum. -/
lemma operands_sum_of_isSumLike (h : e.isSumLike = false) : Chain.sum.operands e = [e] := by
  cases e <;> first | rfl | cases h

namespace Chain

lemma isCollectible_of_mem_operands (he : e.IsCollectibleOperand c) (hx : x ∈ c.operands e) :
    x.IsCollectibleOperand c := by
  induction e using c.induct with
  | node l r ihl ihr =>
    obtain ⟨hl, hr⟩ := isCollectible_node.1 he.1
    rw [Chain.operands_node, List.mem_append] at hx
    exact hx.elim (ihl hl) (ihr hr)
  | leaf e hleaf =>
    rw [hleaf, List.mem_singleton] at hx
    rwa [hx]

lemma isCollectible_link (he : e.IsCollectibleOperand c)
    (hes : ∀ x ∈ es, x.IsCollectibleOperand c) : (c.link e es).IsCollectibleOperand c := by
  induction es generalizing e with
  | nil => exact he
  | cons x es ih =>
    obtain ⟨hx, hes⟩ := List.forall_mem_cons.1 hes
    exact isCollectibleOperand_node he (ih hx hes)

lemma isCollectible_build (hes : ∀ x ∈ es, x.IsCollectibleOperand c) :
    (c.build es).IsCollectibleOperand c := by
  cases es with
  | nil => cases c <;> exact ⟨rfl, fun _ => rfl⟩
  | cons e es =>
    obtain ⟨he, hes⟩ := List.forall_mem_cons.1 hes
    exact isCollectible_link he hes

end Chain

/-! ### Exponents -/

namespace Expr

lemma IsMultiple.add (hp : p.IsMultiple) (hq : q.IsMultiple) : (add p q).IsMultiple := by
  obtain ⟨m, hm, hpv⟩ := hp.value
  obtain ⟨n, hn, hqv⟩ := hq.value
  refine ⟨⟨hp.whole, hq.whole⟩, m + n, by omega, fun ν => ?_⟩
  exact value_add_eq_some_iff.2 ⟨m, n, hpv ν, hqv ν, (Int.cast_add m n).symm⟩

lemma IsMultiple.mul (hp : p.IsMultiple) (hq : q.IsMultiple) : (mul p q).IsMultiple := by
  obtain ⟨m, hm, hpv⟩ := hp.value
  obtain ⟨n, hn, hqv⟩ := hq.value
  refine ⟨⟨hp.whole, hq.whole⟩, m * n, ?_, fun ν => ?_⟩
  · exact hm.trans (le_mul_of_one_le_right (by omega) (by omega))
  · exact value_mul_eq_some_iff.2 ⟨m, n, hpv ν, hqv ν, (Int.cast_mul m n).symm⟩

/-- A whole number is worked out to one. -/
lemma IsWholeTree.of_simplify (hp : p.IsWholeTree) (h : simplify p = .ok r) :
    r.IsWholeConstant := by
  obtain ⟨n, hn⟩ := simplify_eq_iff.1 h
  exact (Simplify.within_whole n hp).1 r hn

lemma IsMultiple.of_simplify (hp : p.IsMultiple) (h : simplify p = .ok r) : r.IsMultiple := by
  obtain ⟨n, hn, hpv⟩ := hp.value
  refine ⟨(hp.whole.of_simplify h).isWholeTree, n, hn, fun ν => ?_⟩
  obtain ⟨k, hk, hval⟩ := exists_simplify_of_value hp.whole.isArithmetic (hpv ν)
  obtain rfl := Except.ok.inj (hk.symm.trans h)
  exact hval

lemma IsMultiple.not_isOne {k : Number} (h : (const k).IsMultiple) : k.isOne = false := by
  obtain ⟨n, hn, hv⟩ := h.value
  have hk : k.exactValue? = some (n : Rat) := hv ⟨fun _ => 0, fun _ _ => none⟩
  by_contra hone
  have hone := (Number.isOne_iff hk).1 (by simpa using hone)
  have : n = 1 := by exact_mod_cast hone
  omega

/-- A whole exponent of at least two is one of any base without other exponents than whole ones. -/
lemma takesExponent_of_isMultiple (hb : b.IsExactWith IsWholeTree) (hp : p.IsMultiple) :
    b.TakesExponent p := by
  cases b with
  | var | log => trivial
  | const | div => exact hp.whole
  | _ => exact ⟨hb, hp⟩

lemma TakesExponent.add (hp : b.TakesExponent p) (hq : b.TakesExponent q) :
    b.TakesExponent (add p q) := by
  cases b with
  | var | log => trivial
  | const | div => exact ⟨hp, hq⟩
  | _ => exact ⟨hp.1, hp.2.add hq.2⟩

/-- Exponents are multiplied where a power is raised to a whole power of at least two. -/
lemma TakesExponent.mul (hp : p.IsMultiple) (hq : b.TakesExponent q) :
    b.TakesExponent (mul p q) := by
  cases b with
  | var | log => trivial
  | const | div => exact ⟨hp.whole, hq⟩
  | _ => exact ⟨hq.1, hp.mul hq.2⟩

lemma TakesExponent.of_simplify (hp : b.TakesExponent p) (h : simplify p = .ok r) :
    b.TakesExponent r := by
  cases b with
  | var | log => trivial
  | const | div => exact (IsWholeTree.of_simplify hp h).isWholeTree
  | _ => exact ⟨hp.1, hp.2.of_simplify h⟩

/-- A base takes the exponents of another one of its kind. -/
lemma TakesExponent.of_baseKind_eq {b' p' : Expr} (hp : b.TakesExponent p)
    (hp' : b'.TakesExponent p') (h : b'.baseKind = b.baseKind) : b.TakesExponent p' := by
  unfold TakesExponent at *
  rw [h] at hp'
  match hb : b.baseKind with
  | .free => trivial
  | .plain => rwa [hb] at hp'
  | .composite =>
    rw [hb] at hp hp'
    exact ⟨hp.1, hp'.2⟩

/-- A composite base does not lose its exponent. -/
lemma TakesExponent.not_composite {k : Number} (h : b.TakesExponent (const k)) (hk : k.isOne) :
    b.baseKind ≠ .composite := by
  intro hb
  unfold TakesExponent at h
  rw [hb] at h
  simp [h.2.not_isOne] at hk

lemma Reordered.baseKind_eq (h : b.Reordered r) : b.baseKind = r.baseKind := by
  induction h with
  | refl e => rfl
  | symm _ ih => exact ih.symm
  | trans _ _ ih ih' => exact ih.trans ih'
  | comm c | assoc c | node c => cases c <;> rfl
  | _ => rfl

lemma baseKind_eq_of_same (h : b.same r) : b.baseKind = r.baseKind := by
  cases b <;> cases r <;> first | rfl | cases h

end Expr

lemma takesExponent_link (hp : b.TakesExponent p) (hps : ∀ q ∈ ps, b.TakesExponent q) :
    b.TakesExponent (Chain.sum.link p ps) := by
  induction ps generalizing p with
  | nil => exact hp
  | cons q ps ih =>
    obtain ⟨hq, hps⟩ := List.forall_mem_cons.1 hps
    exact hp.add (ih hq hps)

end SymbolicAlgebra
