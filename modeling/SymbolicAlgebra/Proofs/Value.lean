import Mathlib.Data.Option.NAry
import SymbolicAlgebra.Proofs.ExactNumber
import SymbolicAlgebra.Proofs.Reordering

/-!
# Values of expressions

A `Valuation` gives a rational to every variable, and a partial function that stands for the
logarithm. Under it an expression has a value or none (`Expr.value`): all its parts must have
values, a divisor must not be zero, an exponent must be whole, and not negative over zero. A
floating point number has no value here.

A value does not depend on the order and the nesting of sums and products, so all reorderings of an
expression have its value (`Expr.Reordered.value_eq`).
-/

namespace SymbolicAlgebra

/-- What the variables of an expression and its logarithms stand for. -/
structure Valuation where
  letter : String → Rat
  log : Rat → Rat → Option Rat

/-- The quotient by a value other than zero. -/
def divValue (x y : Rat) : Option Rat :=
  if y = 0 then none else some (x / y)

/-- The value of an expression, if it has one. -/
def Expr.value (ν : Valuation) : Expr → Option Rat
  | const c => c.exactValue?
  | var x => some (ν.letter x)
  | add l r => Option.map₂ (· + ·) (l.value ν) (r.value ν)
  | sub l r => Option.map₂ (· - ·) (l.value ν) (r.value ν)
  | mul l r => Option.map₂ (· * ·) (l.value ν) (r.value ν)
  | div n d => do divValue (← n.value ν) (← d.value ν)
  | pow b p => do powValue (← b.value ν) (← p.value ν)
  | log b a => do ν.log (← b.value ν) (← a.value ν)
  | neg e => (e.value ν).map (- ·)
  | other _ _ _ => none

namespace Expr

variable {ν : Valuation} {l r e : Expr} {v : Rat}

/-- A partial operation has a value just when its operands have values where it has one. -/
lemma bind_bind_eq_some_iff {x y : Option Rat} {f : Rat → Rat → Option Rat} :
    (do f (← x) (← y)) = some v ↔ ∃ a b, x = some a ∧ y = some b ∧ f a b = some v := by
  cases x <;> cases y <;> simp

lemma value_add_eq_some_iff :
    (add l r).value ν = some v ↔ ∃ x y, l.value ν = some x ∧ r.value ν = some y ∧ x + y = v :=
  Option.map₂_eq_some_iff

lemma value_sub_eq_some_iff :
    (sub l r).value ν = some v ↔ ∃ x y, l.value ν = some x ∧ r.value ν = some y ∧ x - y = v :=
  Option.map₂_eq_some_iff

lemma value_mul_eq_some_iff :
    (mul l r).value ν = some v ↔ ∃ x y, l.value ν = some x ∧ r.value ν = some y ∧ x * y = v :=
  Option.map₂_eq_some_iff

lemma value_div_eq_some_iff :
    (div l r).value ν = some v ↔
      ∃ x y, l.value ν = some x ∧ r.value ν = some y ∧ divValue x y = some v :=
  bind_bind_eq_some_iff

lemma value_pow_eq_some_iff :
    (pow l r).value ν = some v ↔
      ∃ x y, l.value ν = some x ∧ r.value ν = some y ∧ powValue x y = some v :=
  bind_bind_eq_some_iff

lemma value_log_eq_some_iff :
    (log l r).value ν = some v ↔
      ∃ x y, l.value ν = some x ∧ r.value ν = some y ∧ ν.log x y = some v :=
  bind_bind_eq_some_iff

lemma value_neg_eq_some_iff : (neg e).value ν = some v ↔ ∃ x, e.value ν = some x ∧ -x = v :=
  Option.map_eq_some_iff

lemma divValue_eq_some_iff {x y : Rat} : divValue x y = some v ↔ y ≠ 0 ∧ x / y = v := by
  simp [divValue]

/-- Expressions that count as the same have one value, if both have any. -/
lemma value_eq_of_same {e' : Expr} {w : Rat} (h : e.same e') (hv : e.value ν = some v)
    (hw : e'.value ν = some w) : v = w := by
  induction e generalizing e' v w with
  | const c =>
    cases e' <;> simp [same] at h
    exact (Number.same_iff hv hw).1 h
  | var x =>
    cases e' <;> simp [same] at h
    subst h
    exact Option.some.inj (hv.symm.trans hw)
  | other m k es _ => simp [value] at hv
  | neg e ih =>
    cases e' <;> simp [same] at h
    obtain ⟨x, hx, rfl⟩ := value_neg_eq_some_iff.1 hv
    obtain ⟨y, hy, rfl⟩ := value_neg_eq_some_iff.1 hw
    rw [ih h hx hy]
  | add l r ihl ihr =>
    cases e' <;> simp [same] at h
    obtain ⟨x, y, hx, hy, rfl⟩ := value_add_eq_some_iff.1 hv
    obtain ⟨x', y', hx', hy', rfl⟩ := value_add_eq_some_iff.1 hw
    rw [ihl h.1 hx hx', ihr h.2 hy hy']
  | sub l r ihl ihr =>
    cases e' <;> simp [same] at h
    obtain ⟨x, y, hx, hy, rfl⟩ := value_sub_eq_some_iff.1 hv
    obtain ⟨x', y', hx', hy', rfl⟩ := value_sub_eq_some_iff.1 hw
    rw [ihl h.1 hx hx', ihr h.2 hy hy']
  | mul l r ihl ihr =>
    cases e' <;> simp [same] at h
    obtain ⟨x, y, hx, hy, rfl⟩ := value_mul_eq_some_iff.1 hv
    obtain ⟨x', y', hx', hy', rfl⟩ := value_mul_eq_some_iff.1 hw
    rw [ihl h.1 hx hx', ihr h.2 hy hy']
  | div n d ihn ihd =>
    cases e' <;> simp [same] at h
    obtain ⟨x, y, hx, hy, hv⟩ := value_div_eq_some_iff.1 hv
    obtain ⟨x', y', hx', hy', hw⟩ := value_div_eq_some_iff.1 hw
    rw [ihn h.1 hx hx', ihd h.2 hy hy'] at hv
    exact Option.some.inj (hv.symm.trans hw)
  | pow b p ihb ihp =>
    cases e' <;> simp [same] at h
    obtain ⟨x, y, hx, hy, hv⟩ := value_pow_eq_some_iff.1 hv
    obtain ⟨x', y', hx', hy', hw⟩ := value_pow_eq_some_iff.1 hw
    rw [ihb h.1 hx hx', ihp h.2 hy hy'] at hv
    exact Option.some.inj (hv.symm.trans hw)
  | log b a ihb iha =>
    cases e' <;> simp [same] at h
    obtain ⟨x, y, hx, hy, hv⟩ := value_log_eq_some_iff.1 hv
    obtain ⟨x', y', hx', hy', hw⟩ := value_log_eq_some_iff.1 hw
    rw [ihb h.1 hx hx', iha h.2 hy hy'] at hv
    exact Option.some.inj (hv.symm.trans hw)

end Expr

/-! ### Chains -/

namespace Chain

/-- The operation of a chain. -/
def op : Chain → Rat → Rat → Rat
  | sum => (· + ·)
  | product => (· * ·)

/-- The value of a chain without operands. -/
def unit : Chain → Rat
  | sum => 0
  | product => 1

/-- The value of a chain with the given operands, if they all have values. -/
def value (c : Chain) (ν : Valuation) : List Expr → Option Rat
  | [] => some c.unit
  | e :: es => Option.map₂ c.op (e.value ν) (c.value ν es)

variable {c : Chain} {ν : Valuation}

lemma op_assoc (c : Chain) (x y z : Rat) : c.op (c.op x y) z = c.op x (c.op y z) := by
  cases c
  · exact add_assoc x y z
  · exact mul_assoc x y z

lemma op_comm (c : Chain) (x y : Rat) : c.op x y = c.op y x := by
  cases c
  · exact add_comm x y
  · exact mul_comm x y

@[simp] lemma op_unit (c : Chain) (x : Rat) : c.op x c.unit = x := by
  cases c
  · exact add_zero x
  · exact mul_one x

@[simp] lemma unit_op (c : Chain) (x : Rat) : c.op c.unit x = x := by
  cases c
  · exact zero_add x
  · exact one_mul x

lemma value_node (c : Chain) (ν : Valuation) (l r : Expr) :
    (c.node l r).value ν = Option.map₂ c.op (l.value ν) (r.value ν) := by
  cases c <;> rfl

lemma value_cons_eq_some_iff {e : Expr} {es : List Expr} {v : Rat} :
    c.value ν (e :: es) = some v ↔
      ∃ x y, e.value ν = some x ∧ c.value ν es = some y ∧ c.op x y = v := by
  simp [value, Option.map₂_eq_some_iff]

@[simp] lemma value_singleton (e : Expr) : c.value ν [e] = e.value ν := by
  cases h : e.value ν <;> simp [value, h]

lemma value_append (es es' : List Expr) :
    c.value ν (es ++ es') = Option.map₂ c.op (c.value ν es) (c.value ν es') := by
  induction es with
  | nil => cases h : c.value ν es' <;> simp [value, h]
  | cons e es ih =>
    rw [List.cons_append, value, value, ih]
    exact (Option.map₂_assoc c.op_assoc).symm

/-- A chain has the value of its operands together. -/
lemma value_operands (c : Chain) (ν : Valuation) (e : Expr) :
    c.value ν (c.operands e) = e.value ν := by
  induction e with
  | add l r ihl ihr =>
    cases c with
    | sum =>
      rw [operands_sum_add, value_append, ihl, ihr]
      rfl
    | product => rw [operands] <;> simp
  | mul l r ihl ihr =>
    cases c with
    | sum => rw [operands] <;> simp
    | product =>
      rw [operands_product_mul, value_append, ihl, ihr]
      rfl
  | _ => rw [operands] <;> simp

lemma value_link (c : Chain) (ν : Valuation) (e : Expr) (es : List Expr) :
    (c.link e es).value ν = c.value ν (e :: es) := by
  induction es generalizing e with
  | nil => simp [link]
  | cons e' es ih =>
    rw [link, value_node, ih]
    rfl

@[simp] lemma value_build (c : Chain) (ν : Valuation) (es : List Expr) :
    (c.build es).value ν = c.value ν es := by
  cases es with
  | nil => cases c <;> rfl
  | cons e es => exact value_link c ν e es

end Chain

/-! ### Reordering -/

/-- A value does not depend on the order and the nesting of the operands of chains. -/
lemma Expr.Reordered.value_eq {e e' : Expr} (h : e.Reordered e') (ν : Valuation) :
    e.value ν = e'.value ν := by
  induction h with
  | refl e => rfl
  | symm _ ih => exact ih.symm
  | trans _ _ ih ih' => exact ih.trans ih'
  | comm c l r =>
    rw [c.value_node, c.value_node]
    exact Option.map₂_comm c.op_comm
  | assoc c e₁ e₂ e₃ =>
    rw [c.value_node, c.value_node, c.value_node, c.value_node]
    exact Option.map₂_assoc c.op_assoc
  | node c _ _ ihl ihr => rw [c.value_node, c.value_node, ihl, ihr]
  | neg _ ih => rw [value, value, ih]
  | _ _ _ ihl ihr => rw [value, value, ihl, ihr]

end SymbolicAlgebra
