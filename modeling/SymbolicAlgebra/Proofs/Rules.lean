import Mathlib.Control.Monad.Basic
import Mathlib.Data.List.Forall2
import SymbolicAlgebra.Simplify

/-!
# The rules of simplification as equations

`simplify` is what the rules give when `simplify` itself simplifies the expressions that come up on
the way. So each rule is an equation for `simplify`, in which no depth occurs.
-/

namespace SymbolicAlgebra

lemma mapM_eq_ok_iff {α β : Type} {f : α → Except Error β} {as : List α} {bs : List β} :
    as.mapM f = .ok bs ↔ List.Forall₂ (fun a b => f a = .ok b) as bs := by
  induction as generalizing bs with
  | nil => rw [List.mapM_nil, pure_eq_ok_iff, List.forall₂_nil_left_iff, eq_comm]
  | cons a as ih =>
    simp only [List.mapM_cons, bind_eq_ok_iff, pure_eq_ok_iff, List.forall₂_cons_left_iff, ih]
    constructor
    · rintro ⟨b, hb, bs, hbs, rfl⟩
      exact ⟨b, bs, hb, hbs, rfl⟩
    · rintro ⟨b, bs, hb, hbs, rfl⟩
      exact ⟨b, hb, bs, hbs, rfl⟩

/-- What holds of some outcome holds of the outcome. -/
lemma of_exists_eq_ok {α : Type} {x : Except Error α} {P : α → Prop} {a : α}
    (h : ∃ b, x = .ok b ∧ P b) (ha : x = .ok a) : P a := by
  obtain ⟨b, hb, hP⟩ := h
  rwa [← Except.ok.inj (hb.symm.trans ha)]

lemma exists_mapM_eq_ok {α β : Type} {f : α → Except Error β} {P : β → Prop} {as : List α}
    (h : ∀ a ∈ as, ∃ b, f a = .ok b ∧ P b) : ∃ bs, as.mapM f = .ok bs ∧ ∀ b ∈ bs, P b := by
  induction as with
  | nil => exact ⟨[], rfl, by simp⟩
  | cons a as ih =>
    obtain ⟨b, hb, hP⟩ := h a List.mem_cons_self
    obtain ⟨bs, hbs, hPs⟩ := ih fun x hx => h x (.tail a hx)
    exact ⟨b :: bs, by rw [List.mapM_cons, hb, hbs]; rfl, List.forall_mem_cons.2 ⟨hP, hPs⟩⟩

namespace Bounded

variable {α β : Type}

lemma ofExcept_bind (x : Except Error α) (f : α → Except Error β) :
    (ofExcept x >>= fun a => ofExcept (f a)) = ofExcept (x >>= f) := by
  cases x <;> rfl

lemma ofExcept_injective {x y : Except Error α} (h : ofExcept x = ofExcept y) : x = y :=
  Option.some.inj h

end Bounded

namespace Simplify

open Bounded

/-- The simplifier without a bound. -/
def unbounded (e : Expr) : Bounded Expr :=
  Bounded.ofExcept (simplify e)

lemma within_extends_unbounded (n : Nat) : AllExtend (within n) unbounded := by
  intro e out hout
  rw [← simplify_eq_iff.2 ⟨n, hout⟩]
  rfl

/-- One level of the rules above the simplifier is the simplifier. -/
lemma step_unbounded (e : Expr) : step unbounded e = Bounded.ofExcept (simplify e) := by
  have hrun : (within (depth e + 1) e).run = some (simplify e) :=
    (Option.some_get (isSome_run_within e)).symm
  exact step_extends (within_extends_unbounded (depth e)) e _ hrun

/-! ### The parts of the rules -/

namespace Rules

/-- The simplified operands of a chain; those that become such chains are taken apart. -/
def operands (c : Chain) (e : Expr) : Except Error (List Expr) := do
  return (← (c.operands e).mapM simplify).flatMap c.operands

/-- Like terms as one term. -/
def toTerm (t : LikeTerms) : Except Error Expr :=
  if t.coefficient.isOne then .ok t.term else simplify (.mul (.const t.coefficient) t.term)

/-- The terms that are left when the operands of a sum are collected, with its constant. -/
def gatherTerms (s : CollectedSum) : Except Error Gathered := do
  let es ← (s.terms.filter fun t => !t.coefficient.isZero).mapM toTerm
  return es.foldl (Gathered.add (· + ·)) ⟨s.constant, []⟩

/-- The sum of operands. -/
def sum (es : List Expr) : Except Error Expr := do
  let s ← es.foldlM CollectedSum.add ⟨0, []⟩
  return (← gatherTerms s).toSum

/-- Like factors as one factor. -/
def toFactor (f : LikeFactors) : Except Error Expr :=
  match f.exponents with
  | [p] => do
    refuseLongConstant p
    return if p == .const 1 then f.base else .pow f.base p
  | ps => simplify (.pow f.base (Chain.sum.build ps))

/-- The factors that are left when the operands of a product are collected, with its constant. -/
def gatherFactors (s : CollectedProduct) : Except Error Gathered := do
  let es ← s.factors.mapM toFactor
  return es.foldl (Gathered.add (· * ·)) ⟨s.constant, []⟩

/-- The product of what was collected. -/
def productOf : ProductOutcome → Except Error Expr
  | .zero c => .ok (.const c)
  | .collected s => do
    let g ← gatherFactors s
    g.refuseLong
    return g.toProduct

/-- The product of operands. -/
def product (es : List Expr) : Except Error Expr := do
  productOf (← collectFactors es ⟨1, []⟩)

/-- The sum or product of operands. -/
def chain : Chain → List Expr → Except Error Expr
  | .sum => sum
  | .product => product

/-- The power of two simplified expressions, where the exponent is neither zero nor one. -/
def powerOf : Expr → Expr → Except Error Expr
  | .pow b q, p => do simplify (.pow b (← simplify (.mul p q)))
  | .const b, .const p => constantPower b p
  | b, p => .ok (.pow b p)

/-- The power of two simplified expressions. -/
def power (b p : Expr) : Except Error Expr :=
  match p with
  | .const c => if c.isOne then .ok b else if c.isZero then .ok (.const 1) else powerOf b p
  | p => powerOf b p

/-- The opposite of a simplified expression. -/
def opposite : Expr → Except Error Expr
  | .const c => .ok (.const (-c))
  | .add l r => simplify (.add (.neg l) (.neg r))
  | .sub l r => simplify (.add (.neg l) r)
  | .mul l r => simplify (.mul (.neg l) r)
  | .div n d => simplify (.div (.neg n) d)
  | .neg e => .ok e
  | e => .ok (.neg e)

end Rules

/-! ### The rules above the simplifier -/

lemma Rules.operands_leaf {c : Chain} {e : Expr} (h : c.operands e = [e]) :
    Rules.operands c e = do return c.operands (← simplify e) := by
  rw [Rules.operands, h, List.mapM_cons, List.mapM_nil]
  cases simplify e <;> simp [bind, Except.bind, pure, Except.pure]

lemma operands_leaf_unbounded {c : Chain} {e : Expr} (h : c.operands e = [e]) :
    (do return c.operands (← unbounded e)) = Bounded.ofExcept (Rules.operands c e) := by
  rw [Rules.operands_leaf h]
  exact ofExcept_bind (simplify e) fun r => pure (c.operands r)

lemma Rules.operands_node (c : Chain) (l r : Expr) :
    Rules.operands c (c.node l r) = do return (← Rules.operands c l) ++ (← Rules.operands c r) := by
  simp only [Rules.operands, Chain.operands_node, List.mapM_append, bind_assoc, pure_bind,
    List.flatMap_append]

lemma operands_node_unbounded {c : Chain} {l r : Expr}
    (hl : operands unbounded c l = Bounded.ofExcept (Rules.operands c l))
    (hr : operands unbounded c r = Bounded.ofExcept (Rules.operands c r)) :
    (do return (← operands unbounded c l) ++ (← operands unbounded c r)) =
      Bounded.ofExcept (Rules.operands c (c.node l r)) := by
  rw [hl, hr, Rules.operands_node]
  cases Rules.operands c l with
  | error err => rfl
  | ok es => cases Rules.operands c r <;> rfl

lemma operands_unbounded (c : Chain) (e : Expr) :
    operands unbounded c e = Bounded.ofExcept (Rules.operands c e) := by
  induction e with
  | add l r ihl ihr =>
    cases c with
    | sum => exact operands_node_unbounded ihl ihr
    | product => exact operands_leaf_unbounded rfl
  | mul l r ihl ihr =>
    cases c with
    | sum => exact operands_leaf_unbounded rfl
    | product => exact operands_node_unbounded ihl ihr
  | _ => cases c <;> exact operands_leaf_unbounded rfl

lemma toTerm_unbounded (t : LikeTerms) :
    t.toTerm unbounded = Bounded.ofExcept (Rules.toTerm t) := by
  rw [LikeTerms.toTerm, Rules.toTerm]
  split <;> rfl

lemma gatherTerms_unbounded (ts : List LikeTerms) (g : Gathered) :
    gatherTerms unbounded ts g = Bounded.ofExcept (do
      let es ← (ts.filter fun t => !t.coefficient.isZero).mapM Rules.toTerm
      return es.foldl (Gathered.add (· + ·)) g) := by
  induction ts generalizing g with
  | nil => rfl
  | cons t ts ih =>
    rw [gatherTerms]
    split
    · next hz => simpa [hz] using ih g
    · next hz =>
      rw [List.filter_cons_of_pos (by simpa using hz), List.mapM_cons]
      simp only [ih, toTerm_unbounded, bind_assoc, pure_bind, List.foldl_cons]
      exact ofExcept_bind (Rules.toTerm t) _

theorem simplify_add (l r : Expr) : simplify (.add l r) = (do
    Rules.sum (← Rules.operands .sum (.add l r))) := by
  apply ofExcept_injective
  rw [← step_unbounded, step, sum, operands_unbounded]
  simp only [Rules.sum, Rules.gatherTerms, gatherTerms_unbounded, ← ofExcept_bind]
  rfl

lemma toFactor_unbounded (f : LikeFactors) :
    f.toFactor unbounded = Bounded.ofExcept (Rules.toFactor f) := by
  obtain ⟨key, base, exponents⟩ := f
  match exponents with
  | [p] => exact ofExcept_bind (refuseLongConstant p) fun _ => pure _
  | [] => rfl
  | _ :: _ :: _ => rfl

lemma gatherFactors_unbounded (fs : List LikeFactors) (g : Gathered) :
    gatherFactors unbounded fs g = Bounded.ofExcept (do
      let es ← fs.mapM Rules.toFactor
      return es.foldl (Gathered.add (· * ·)) g) := by
  induction fs generalizing g with
  | nil => rfl
  | cons f fs ih =>
    rw [gatherFactors, List.mapM_cons]
    simp only [ih, toFactor_unbounded, bind_assoc, pure_bind, List.foldl_cons]
    exact ofExcept_bind (Rules.toFactor f) _

theorem simplify_mul (l r : Expr) : simplify (.mul l r) = (do
    Rules.product (← Rules.operands .product (.mul l r))) := by
  apply ofExcept_injective
  rw [← step_unbounded, step, product, operands_unbounded]
  simp only [Rules.product, ← ofExcept_bind]
  apply bind_congr
  intro es
  apply bind_congr
  intro out
  cases out with
  | zero c => rfl
  | collected s =>
    simp only [Rules.productOf, Rules.gatherFactors, gatherFactors_unbounded, ← ofExcept_bind]
    rfl

theorem simplify_node (c : Chain) (l r : Expr) : simplify (c.node l r) = (do
    Rules.chain c (← Rules.operands c (c.node l r))) := by
  cases c with
  | sum => exact simplify_add l r
  | product => exact simplify_mul l r

lemma powerOf_unbounded (b p : Expr) :
    powerOf unbounded b p = Bounded.ofExcept (Rules.powerOf b p) := by
  cases b with
  | pow b q => exact ofExcept_bind (simplify (.mul p q)) fun r => simplify (.pow b r)
  | const b => cases p <;> rfl
  | _ => rfl

lemma power_unbounded (b p : Expr) : power unbounded b p = Bounded.ofExcept (Rules.power b p) := by
  cases p with
  | const c =>
    rw [power, Rules.power]
    split
    · rfl
    · split
      · rfl
      · exact powerOf_unbounded b (.const c)
  | _ => exact powerOf_unbounded b _

theorem simplify_const (c : Number) : simplify (.const c) = .ok (.const c) :=
  ofExcept_injective (step_unbounded _).symm

theorem simplify_var (x : String) : simplify (.var x) = .ok (.var x) :=
  ofExcept_injective (step_unbounded _).symm

theorem simplify_sub (l r : Expr) : simplify (.sub l r) = (do
    let lhs ← simplify l
    let negated ← simplify (.neg (← simplify r))
    simplify (.add lhs negated)) := by
  apply ofExcept_injective
  rw [← step_unbounded, step]
  simp only [unbounded, ← ofExcept_bind]

theorem simplify_div (n d : Expr) : simplify (.div n d) = (do
    let num ← simplify n
    let den ← simplify d
    quotient num den) := by
  apply ofExcept_injective
  rw [← step_unbounded, step]
  simp only [unbounded, ← ofExcept_bind]

theorem simplify_pow (b p : Expr) : simplify (.pow b p) = (do
    let base ← simplify b
    let exponent ← simplify p
    Rules.power base exponent) := by
  apply ofExcept_injective
  rw [← step_unbounded, step]
  simp only [unbounded, ← ofExcept_bind, power_unbounded]

theorem simplify_log (b a : Expr) : simplify (.log b a) = (do
    let base ← simplify b
    let argument ← simplify a
    return .log base argument) := by
  apply ofExcept_injective
  rw [← step_unbounded, step]
  simp only [unbounded, ← ofExcept_bind]
  rfl

theorem simplify_neg (e : Expr) : simplify (.neg e) = (do Rules.opposite (← simplify e)) := by
  apply ofExcept_injective
  rw [← step_unbounded, step]
  simp only [unbounded, ← ofExcept_bind]
  apply bind_congr
  intro r
  cases r <;> rfl

theorem simplify_other (m : Mark) (kind : String) (es : List Expr) :
    simplify (.other m kind es) = .error (.unsupported (lowerCase kind) .simplification) :=
  ofExcept_injective (step_unbounded _).symm

end Simplify

end SymbolicAlgebra
