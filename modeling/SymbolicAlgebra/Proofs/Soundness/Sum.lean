import SymbolicAlgebra.Proofs.Refusals
import SymbolicAlgebra.Proofs.Value
import SymbolicAlgebra.Simplify.Termination.Sum

/-!
# Sums keep their values

A simplifier keeps the values of a valuation if an expression with a value is simplified to one with
the same value, or refused for another reason than a division by zero (`Keeps`). The collected terms
of a sum have the value of the sum (`CollectedSum.HasValue`) while terms are added and gathered
again.
-/

namespace SymbolicAlgebra.Simplify

open Bounded

/-- A refusal that is no division by zero. -/
def NoDivision (e : Error) : Prop :=
  ¬e.IsDivisionByZero

/-- A simplifier that keeps the values that expressions have. -/
def Keeps (ν : Valuation) (simp : Expr → Bounded Expr) : Prop :=
  ∀ e v, e.value ν = some v → (simp e).Ensures (fun r => r.value ν = some v) NoDivision

variable {ν : Valuation} {simp : Expr → Bounded Expr}

lemma ensures_of_onlyLimits {α : Type} {P : α → Prop} {x : Except Error α}
    (hx : RefusedOnly Error.IsLimit x) (h : ∀ a, x = .ok a → P a) :
    (ofExcept x).Ensures P NoDivision :=
  ensures_of_refusedOnly (hx.mono fun _ he => he.not_isDivisionByZero) h

/-! ### Operands -/

lemma operands_leaf_keeps (h : Keeps ν simp) (c : Chain) {e : Expr} {v : Rat}
    (hv : e.value ν = some v) :
    (do return c.operands (← simp e) : Bounded (List Expr)).Ensures
      (fun es => c.value ν es = some v) NoDivision := by
  refine (h e v hv).bind fun r hr => ensures_pure ?_
  rw [c.value_operands, hr]

/-- The simplified operands of a chain have its value. -/
lemma operands_keeps (h : Keeps ν simp) (c : Chain) {e : Expr} {v : Rat}
    (hv : e.value ν = some v) :
    (operands simp c e).Ensures (fun es => c.value ν es = some v) NoDivision := by
  induction e generalizing v with
  | add l r ihl ihr =>
    cases c with
    | sum =>
      obtain ⟨x, y, hx, hy, rfl⟩ := Expr.value_add_eq_some_iff.1 hv
      refine (ihl hx).bind fun es hes => (ihr hy).bind fun es' hes' => ensures_pure ?_
      rw [Chain.value_append, hes, hes']
      rfl
    | product => exact operands_leaf_keeps h .product hv
  | mul l r ihl ihr =>
    cases c with
    | sum => exact operands_leaf_keeps h .sum hv
    | product =>
      obtain ⟨x, y, hx, hy, rfl⟩ := Expr.value_mul_eq_some_iff.1 hv
      refine (ihl hx).bind fun es hes => (ihr hy).bind fun es' hes' => ensures_pure ?_
      rw [Chain.value_append, hes, hes']
      rfl
  | _ => cases c <;> exact operands_leaf_keeps h _ hv

/-! ### Collection -/

/-- Like terms that are worth `v` together. The representative has the value of the term. -/
def LikeTerms.HasValue (ν : Valuation) (t : LikeTerms) (v : Rat) : Prop :=
  ∃ q x, t.coefficient.exactValue? = some q ∧ t.term.value ν = some x ∧ t.key.value ν = some x ∧
    q * x = v

/-- Collected terms that are worth `v` together. -/
def TermsHaveValue (ν : Valuation) : List LikeTerms → Rat → Prop
  | [], v => v = 0
  | t :: ts, v => ∃ x y, t.HasValue ν x ∧ TermsHaveValue ν ts y ∧ x + y = v

/-- A collected sum that is worth `v`. -/
def CollectedSum.HasValue (ν : Valuation) (s : CollectedSum) (v : Rat) : Prop :=
  ∃ a b, s.constant.exactValue? = some a ∧ TermsHaveValue ν s.terms b ∧ a + b = v

lemma TermsHaveValue.addTerm {ts : List LikeTerms} {v q x : Rat} {key term : Expr} {c : Number}
    (h : TermsHaveValue ν ts v) (hc : c.exactValue? = some q) (hterm : term.value ν = some x)
    (hkey : key.value ν = some x) : TermsHaveValue ν (addTerm key term c ts) (v + q * x) := by
  induction ts generalizing v with
  | nil =>
    obtain rfl : v = 0 := h
    refine ⟨q * x, 0, ⟨q, x, ?_, hterm, hkey, rfl⟩, rfl, by ring⟩
    simpa using Number.exactValue?_add (Number.exactValue?_ofNat 0) hc
  | cons t ts ih =>
    obtain ⟨y, z, ⟨q', x', hq', hx', hk', rfl⟩, hts, rfl⟩ := h
    unfold Simplify.addTerm
    split
    · next hsame =>
      obtain rfl := Expr.value_eq_of_same hsame hk' hkey
      exact ⟨(q' + q) * x', z, ⟨_, _, Number.exactValue?_add hq' hc, hx', hk', rfl⟩, hts, by ring⟩
    · exact ⟨q' * x', z + q * x, ⟨q', x', hq', hx', hk', rfl⟩, ih hts, by ring⟩

/-- A term is the product of its coefficient and what is left of it. -/
lemma exists_value_of_splitCoefficient {e : Expr} {v : Rat} (hv : e.value ν = some v) :
    ∃ q x, (splitCoefficient e).2.exactValue? = some q ∧
      (splitCoefficient e).1.value ν = some x ∧ q * x = v := by
  unfold splitCoefficient
  split
  · obtain ⟨q, x, hq, hx, rfl⟩ := Expr.value_mul_eq_some_iff.1 hv
    exact ⟨q, x, hq, hx, rfl⟩
  · obtain ⟨x, q, hx, hq, rfl⟩ := Expr.value_mul_eq_some_iff.1 hv
    exact ⟨q, x, hq, hx, mul_comm q x⟩
  · obtain ⟨x, hx, rfl⟩ := Expr.value_neg_eq_some_iff.1 hv
    exact ⟨-1, x, by simp, hx, by ring⟩
  · exact ⟨1, v, rfl, hv, one_mul v⟩

lemma CollectedSum.onlyLimits_add (s : CollectedSum) (e : Expr) :
    RefusedOnly Error.IsLimit (s.add e) := by
  have hterm : RefusedOnly Error.IsLimit (s.addTerm e) :=
    (Expr.onlyLimits_likeKey _).bind fun _ _ => refusedOnly_ok _
  cases e with
  | const c => exact refusedOnly_ok _
  | _ => exact hterm

lemma CollectedSum.HasValue.add {s s' : CollectedSum} {v x : Rat} {e : Expr}
    (h : s.HasValue ν v) (hx : e.value ν = some x) (hs : s.add e = .ok s') :
    s'.HasValue ν (v + x) := by
  obtain ⟨a, b, ha, hb, rfl⟩ := h
  rcases s.add_eq e with ⟨c, rfl⟩ | hadd
  · obtain rfl := pure_eq_ok_iff.1 hs
    exact ⟨a + x, b, Number.exactValue?_add ha hx, hb, by ring⟩
  · rw [hadd] at hs
    obtain ⟨key, hkey, hs⟩ := bind_eq_ok_iff.1 hs
    obtain rfl := pure_eq_ok_iff.1 hs
    obtain ⟨q, y, hq, hy, rfl⟩ := exists_value_of_splitCoefficient hx
    have hk := (reordered_likeKey hkey).value_eq ν
    exact ⟨a, b + q * y, ha, hb.addTerm hq hy (hk ▸ hy), by ring⟩

lemma CollectedSum.HasValue.foldlM {es : List Expr} {s s' : CollectedSum} {v w : Rat}
    (h : s.HasValue ν v) (hes : Chain.sum.value ν es = some w)
    (hs : es.foldlM CollectedSum.add s = .ok s') : s'.HasValue ν (v + w) := by
  induction es generalizing s v w with
  | nil =>
    obtain rfl : 0 = w := Option.some.inj hes
    rw [← pure_eq_ok_iff.1 hs, add_zero]
    exact h
  | cons e es ih =>
    obtain ⟨x, y, hx, hy, rfl⟩ := Chain.value_cons_eq_some_iff.1 hes
    obtain ⟨s₁, hs₁, hs⟩ := bind_eq_ok_iff.1 hs
    have hsum := ih (h.add hx hs₁) hy hs
    rwa [add_assoc] at hsum

lemma onlyLimits_foldlM {es : List Expr} {s : CollectedSum} :
    RefusedOnly Error.IsLimit (es.foldlM CollectedSum.add s) := by
  induction es generalizing s with
  | nil => exact refusedOnly_ok _
  | cons e es ih => exact (s.onlyLimits_add e).bind fun _ _ => ih

/-! ### Gathering -/

/-- What was gathered for a chain is worth `v`. -/
def Gathered.HasValue (c : Chain) (ν : Valuation) (g : Gathered) (v : Rat) : Prop :=
  ∃ a b, g.constant.exactValue? = some a ∧ c.value ν g.operands = some b ∧ c.op a b = v

lemma Gathered.HasValue.add {c : Chain} {f : Number → Number → Number} {g : Gathered} {v x : Rat}
    {e : Expr} (hf : ∀ {a b : Number} {x y : Rat}, a.exactValue? = some x →
      b.exactValue? = some y → (f a b).exactValue? = some (c.op x y))
    (h : g.HasValue c ν v) (hx : e.value ν = some x) : (g.add f e).HasValue c ν (c.op v x) := by
  obtain ⟨a, b, ha, hb, rfl⟩ := h
  unfold Gathered.add
  split
  · refine ⟨c.op a x, b, hf ha hx, hb, ?_⟩
    rw [c.op_assoc, c.op_assoc, c.op_comm x b]
  · refine ⟨a, c.op b x, ha, ?_, (c.op_assoc a b x).symm⟩
    rw [Chain.value_append, Chain.value_singleton, hb, hx]
    rfl

lemma LikeTerms.HasValue.toTerm (h : Keeps ν simp) {t : LikeTerms} {v : Rat}
    (ht : t.HasValue ν v) : (t.toTerm simp).Ensures (fun r => r.value ν = some v) NoDivision := by
  obtain ⟨q, x, hq, hx, -, rfl⟩ := ht
  unfold LikeTerms.toTerm
  split
  · next hone =>
    obtain rfl := (Number.isOne_iff hq).1 hone
    exact ensures_pure (by rw [hx, one_mul])
  · exact h _ _ (Expr.value_mul_eq_some_iff.2 ⟨q, x, hq, hx, rfl⟩)

lemma gatherTerms_keeps (h : Keeps ν simp) {ts : List LikeTerms} {g : Gathered} {v w : Rat}
    (hts : TermsHaveValue ν ts w) (hg : g.HasValue .sum ν v) :
    (gatherTerms simp ts g).Ensures (fun g => g.HasValue .sum ν (v + w)) NoDivision := by
  induction ts generalizing g v w with
  | nil =>
    obtain rfl : w = 0 := hts
    exact ensures_pure (by rwa [add_zero])
  | cons t ts ih =>
    obtain ⟨x, y, ht, hts, rfl⟩ := hts
    unfold gatherTerms
    split
    · next hzero =>
      obtain ⟨q, z, hq, -, -, rfl⟩ := ht
      obtain rfl := (Number.isZero_iff hq).1 hzero
      rw [zero_mul, zero_add]
      exact ih hts hg
    · refine (ht.toTerm h).bind fun r hr => ?_
      rw [← add_assoc]
      exact ih hts (hg.add Number.exactValue?_add hr)

lemma Gathered.HasValue.toSum {g : Gathered} {v : Rat} (h : g.HasValue .sum ν v) :
    g.toSum.value ν = some v := by
  obtain ⟨a, b, ha, hb, rfl⟩ := h
  unfold Gathered.toSum
  split
  · next hnil =>
    rw [hnil] at hb
    obtain rfl : 0 = b := Option.some.inj hb
    exact ha.trans (congrArg some (add_zero a).symm)
  · split
    · next hzero =>
      obtain rfl := (Number.isZero_iff ha).1 hzero
      rw [Chain.value_build, hb]
      exact congrArg some (zero_add b).symm
    · rw [Chain.value_build, Chain.value_cons_eq_some_iff]
      exact ⟨a, b, ha, hb, rfl⟩

/-- A sum is simplified to an expression of its value. -/
lemma sum_keeps (h : Keeps ν simp) {l r : Expr} {v : Rat} (hv : (Expr.add l r).value ν = some v) :
    (sum simp l r).Ensures (fun r => r.value ν = some v) NoDivision := by
  refine (operands_keeps h .sum hv).bind fun es hes => ?_
  have h0 : CollectedSum.HasValue ν ⟨0, []⟩ 0 := ⟨0, 0, rfl, rfl, zero_add 0⟩
  refine Ensures.bind (P := fun s => s.HasValue ν v)
    (ensures_of_onlyLimits onlyLimits_foldlM fun s hs => ?_) fun s hs => ?_
  · have hsum := h0.foldlM hes hs
    rwa [zero_add] at hsum
  · obtain ⟨a, b, ha, hb, rfl⟩ := hs
    have hg : Gathered.HasValue .sum ν ⟨s.constant, []⟩ a := ⟨a, 0, ha, rfl, add_zero a⟩
    exact (gatherTerms_keeps h hb hg).bind fun g hg => ensures_pure hg.toSum

end SymbolicAlgebra.Simplify
