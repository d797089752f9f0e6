import SymbolicAlgebra.Proofs.DecidableExpr
import SymbolicAlgebra.Proofs.NumeralLength
import SymbolicAlgebra.Proofs.Rules
import SymbolicAlgebra.Proofs.Value

/-!
# Simplification evaluates arithmetic expressions

An expression without variables and logarithms, over exact constants and with whole exponents, is
simplified to its value. `Expr.evaluate` is the evaluation that names a number where an operation
has no value: the dividend of a division by zero, or the negative exponent of a power of zero.
Simplification is then refused (`agrees_of_isArithmetic`), and the refusal quotes that number. It is
told as a division by zero unless the number is too long to be written.
-/

namespace SymbolicAlgebra

open Simplify

variable {ν : Valuation} {e l r : Expr} {a b : Number} {x y v q : Rat}

/-! ### Evaluation -/

/-- A result, or else the number that its absence is about. -/
def resultOr (q : Rat) : Option Rat → Except (Option Rat) Rat
  | some v => .ok v
  | none => .error (some q)

namespace Expr

/-- The value of an expression. Where the first operation without value is a quotient, a power or a
logarithm, the dividend, the exponent or the base is named instead. -/
def evaluate (ν : Valuation) : Expr → Except (Option Rat) Rat
  | const c => match c.exactValue? with
    | some v => .ok v
    | none => .error none
  | var x => .ok (ν.letter x)
  | add l r => do return (← l.evaluate ν) + (← r.evaluate ν)
  | sub l r => do return (← l.evaluate ν) - (← r.evaluate ν)
  | mul l r => do return (← l.evaluate ν) * (← r.evaluate ν)
  | div n d => do
    let x ← n.evaluate ν
    let y ← d.evaluate ν
    resultOr x (divValue x y)
  | pow b p => do
    let x ← b.evaluate ν
    let y ← p.evaluate ν
    resultOr y (powValue x y)
  | log b a => do
    let x ← b.evaluate ν
    let y ← a.evaluate ν
    resultOr x (ν.log x y)
  | neg e => do return -(← e.evaluate ν)
  | other _ _ _ => .error none

/-- Evaluation and value agree. -/
lemma toOption_evaluate (ν : Valuation) (e : Expr) : (e.evaluate ν).toOption = e.value ν := by
  induction e with
  | const c =>
    rw [evaluate, value]
    cases c.exactValue? <;> rfl
  | var | other => rfl
  | neg e ih =>
    rw [evaluate, value, ← ih]
    cases e.evaluate ν <;> rfl
  | add l r ihl ihr | sub l r ihl ihr | mul l r ihl ihr =>
    rw [evaluate, value, ← ihl, ← ihr]
    cases l.evaluate ν <;> cases r.evaluate ν <;> rfl
  | div l r ihl ihr =>
    rw [evaluate, value, ← ihl, ← ihr]
    rcases l.evaluate ν with _ | x
    · rfl
    rcases r.evaluate ν with _ | y
    · rfl
    show (resultOr x (divValue x y)).toOption = divValue x y
    cases divValue x y <;> rfl
  | pow l r ihl ihr =>
    rw [evaluate, value, ← ihl, ← ihr]
    rcases l.evaluate ν with _ | x
    · rfl
    rcases r.evaluate ν with _ | y
    · rfl
    show (resultOr y (powValue x y)).toOption = powValue x y
    cases powValue x y <;> rfl
  | log l r ihl ihr =>
    rw [evaluate, value, ← ihl, ← ihr]
    rcases l.evaluate ν with _ | x
    · rfl
    rcases r.evaluate ν with _ | y
    · rfl
    show (resultOr x (ν.log x y)).toOption = ν.log x y
    cases ν.log x y <;> rfl

/-- An expression of exact numbers alone, without logarithms, where no exponent is a fraction. -/
def IsArithmetic : Expr → Prop
  | const c => c.isExact
  | add l r | sub l r | mul l r | div l r => l.IsArithmetic ∧ r.IsArithmetic
  | pow b p => b.IsArithmetic ∧ p.IsArithmetic ∧ ∀ ν v, p.value ν = some v → v.den = 1
  | neg e => e.IsArithmetic
  | var _ | log _ _ | other _ _ _ => False

end Expr

/-! ### Refusals that quote a number -/

/-- A refusal that quotes a number: it is told as a division by zero, unless the number is too long
to be written. -/
structure Error.Quotes (err : Error) (q : Rat) : Prop where
  short : IsShort q → err.IsDivisionByZero
  long : ¬IsShort q → err = .fault .wrongValue

namespace Number

/-- A division by zero is refused with the dividend. -/
lemma exists_div_eq_error (ha : a.exactValue? = some x) (hb : b.exactValue? = some 0) :
    ∃ err, a.div b = .error err ∧ err.Quotes x := by
  have hz : b.isZero := (isZero_iff hb).2 rfl
  by_cases hx : IsShort x
  · obtain ⟨t, ht⟩ := text_eq_ok ha hx
    refine ⟨.divisionByZero t, ?_, fun _ => rfl, fun h => absurd hx h⟩
    rw [div, if_pos hz, ht]
    rfl
  · refine ⟨.fault .wrongValue, ?_, fun h => absurd h hx, fun _ => rfl⟩
    rw [div, if_pos hz, text_eq_error ha hx]
    rfl

/-- A negative power of zero is refused with the exponent. -/
lemma exists_pow_eq_error (ha : a.exactValue? = some x) (hb : b.exactValue? = some y)
    (hden : y.den = 1) (hv : powValue x y = none) :
    ∃ err, a.pow b = .error err ∧ err.Quotes y := by
  obtain ⟨n, rfl⟩ := exists_eq_intCast_of_den hden
  obtain ⟨rfl, hn⟩ : x = 0 ∧ n < 0 := by
    simpa [powValue] using hv
  have hpow : a.pow b = powExact 0 n := by simp [pow, ha, hb]
  by_cases hx : IsShort n
  · have ht := integerText_of_lt (isShort_intCast.1 hx)
    refine ⟨.zeroToNegativePower (toString n), ?_, fun _ => rfl, fun h => absurd hx h⟩
    rw [hpow, powExact, if_pos ⟨rfl, hn⟩, ht]
    rfl
  · have ht := integerText_of_le (not_lt.1 fun h => hx (isShort_intCast.2 h))
    refine ⟨.fault .wrongValue, ?_, fun h => absurd h hx, fun _ => rfl⟩
    rw [hpow, powExact, if_pos ⟨rfl, hn⟩, ht]
    rfl

end Number

/-! ### Agreement -/

/-- The first computation has a result where the second one has, and is refused where the second one
names a number, with a refusal that quotes it. -/
inductive Agrees {α β : Type} (R : α → β → Prop) :
    Except Error α → Except (Option Rat) β → Prop where
  | ok {a : α} {b : β} (h : R a b) : Agrees R (.ok a) (.ok b)
  | error {err : Error} {q : Rat} (h : err.Quotes q) : Agrees R (.error err) (.error (some q))

lemma Agrees.bind {α β γ δ : Type} {R : α → β → Prop} {S : γ → δ → Prop} {x : Except Error α}
    {y : Except (Option Rat) β} {f : α → Except Error γ} {g : β → Except (Option Rat) δ}
    (h : Agrees R x y) (hfg : ∀ a b, R a b → Agrees S (f a) (g b)) :
    Agrees S (x >>= f) (y >>= g) := by
  cases h with
  | ok h => exact hfg _ _ h
  | error h => exact .error h

lemma Agrees.bind_ok {α β γ : Type} {R : α → β → Prop} {S : γ → β → Prop} {x : Except Error α}
    {y : Except (Option Rat) β} {f : α → Except Error γ} (h : Agrees R x y)
    (hf : ∀ a b, R a b → ∃ c, f a = .ok c ∧ S c b) : Agrees S (x >>= f) y := by
  cases h with
  | ok h =>
    obtain ⟨c, hc, hS⟩ := hf _ _ h
    show Agrees S (f _) _
    rw [hc]
    exact .ok hS
  | error h => exact .error h

lemma Agrees.and_eq {α β : Type} {R : α → β → Prop} {x : Except Error α}
    {y : Except (Option Rat) β} (h : Agrees R x y) :
    Agrees (fun a b => R a b ∧ y = .ok b) x y := by
  cases h with
  | ok h => exact .ok ⟨h, rfl⟩
  | error h => exact .error h

/-- A constant with the given value. -/
def IsValue (e : Expr) (v : Rat) : Prop :=
  ∃ c, e = .const c ∧ c.exactValue? = some v

/-- Constants that are worth a value together, as operands of a chain. -/
inductive AreWorth (c : Chain) : List Expr → Rat → Prop where
  | nil : AreWorth c [] c.unit
  | cons {a : Number} {es : List Expr} {x y : Rat} (ha : a.exactValue? = some x)
      (hes : AreWorth c es y) : AreWorth c (.const a :: es) (c.op x y)

lemma AreWorth.append {c : Chain} {es es' : List Expr} (h : AreWorth c es x)
    (h' : AreWorth c es' y) : AreWorth c (es ++ es') (c.op x y) := by
  induction h with
  | nil => rwa [Chain.unit_op]
  | cons ha _ ih =>
    rw [Chain.op_assoc]
    exact .cons ha ih

lemma IsValue.areWorth (h : IsValue e v) (c : Chain) : AreWorth c (c.operands e) v := by
  obtain ⟨a, rfl, ha⟩ := h
  have hops : c.operands (.const a) = [.const a] := by cases c <;> rfl
  rw [hops, ← c.op_unit v]
  exact .cons ha .nil

/-! ### The rules on constants -/

namespace Simplify

/-- Constants are added to the constant of a collected sum. -/
lemma foldlM_add_of_areWorth {es : List Expr} (h : AreWorth .sum es y)
    (ha : a.exactValue? = some x) : ∃ k, k.exactValue? = some (x + y) ∧
      ∀ ts, es.foldlM CollectedSum.add ⟨a, ts⟩ = .ok ⟨k, ts⟩ := by
  induction h generalizing a x with
  | nil => exact ⟨a, ha.trans (congrArg some (add_zero x).symm), fun ts => rfl⟩
  | cons hb _ ih =>
    obtain ⟨k, hval, hk⟩ := ih (Number.exactValue?_add ha hb)
    exact ⟨k, hval.trans (congrArg some (add_assoc _ _ _)), hk⟩

lemma exists_foldlM_add_eq {es : List Expr} (h : AreWorth .sum es v) :
    ∃ k, k.exactValue? = some v ∧ ∀ ts, es.foldlM CollectedSum.add ⟨0, ts⟩ = .ok ⟨k, ts⟩ := by
  obtain ⟨k, hval, hk⟩ := foldlM_add_of_areWorth h (Number.exactValue?_ofNat 0)
  rw [Nat.cast_zero, zero_add] at hval
  exact ⟨k, hval, hk⟩

lemma exists_sum_eq {es : List Expr} (h : AreWorth .sum es v) :
    ∃ r, Rules.sum es = .ok r ∧ IsValue r v := by
  obtain ⟨k, hval, hk⟩ := exists_foldlM_add_eq h
  refine ⟨.const k, ?_, k, rfl, hval⟩
  rw [Rules.sum, hk]
  rfl

/-- Constants are multiplied to the constant of a collected product, unless one of them is zero. -/
lemma collectFactors_append {es : List Expr} (h : AreWorth .product es y)
    (ha : a.exactValue? = some x) :
    (y = 0 ∧ ∃ k, k.exactValue? = some 0 ∧
      ∀ fs rest, collectFactors (es ++ rest) ⟨a, fs⟩ = .ok (.zero k)) ∨
    (y ≠ 0 ∧ ∃ k, k.exactValue? = some (x * y) ∧
      ∀ fs rest, collectFactors (es ++ rest) ⟨a, fs⟩ = collectFactors rest ⟨k, fs⟩) := by
  induction h generalizing a x with
  | nil => exact .inr ⟨one_ne_zero, a, ha.trans (congrArg some (mul_one x).symm), fun _ _ => rfl⟩
  | @cons b es z y hb _ ih =>
    simp only [List.cons_append, collectFactors]
    split
    · next hz =>
      obtain rfl := (Number.isZero_iff hb).1 hz
      exact .inl ⟨zero_mul y, b, hb, fun _ _ => rfl⟩
    · next hz =>
      have hz : z ≠ 0 := fun h => hz ((Number.isZero_iff hb).2 h)
      rcases ih (Number.exactValue?_mul ha hb) with ⟨rfl, k, hk, hout⟩ | ⟨hy, k, hk, hout⟩
      · exact .inl ⟨mul_zero z, k, hk, hout⟩
      · exact .inr ⟨mul_ne_zero hz hy, k, hk.trans (congrArg some (mul_assoc x z y)), hout⟩

/-- What is collected from constants is a constant alone. -/
lemma collectFactors_of_areWorth {es : List Expr} (h : AreWorth .product es v) :
    ∃ k, k.exactValue? = some v ∧ (collectFactors es ⟨1, []⟩ = .ok (.zero k) ∨
      collectFactors es ⟨1, []⟩ = .ok (.collected ⟨k, []⟩)) := by
  rcases collectFactors_append h (Number.exactValue?_ofNat 1) with
    ⟨rfl, k, hk, hout⟩ | ⟨-, k, hk, hout⟩
  · exact ⟨k, hk, .inl (List.append_nil es ▸ hout [] [])⟩
  · rw [Nat.cast_one, one_mul] at hk
    exact ⟨k, hk, .inr (List.append_nil es ▸ hout [] [])⟩

lemma toProduct_nil (k : Number) : Gathered.toProduct ⟨k, []⟩ = .const k := by
  rw [Gathered.toProduct]
  split <;> rfl

lemma exists_product_eq {es : List Expr} (h : AreWorth .product es v) :
    ∃ r, Rules.product es = .ok r ∧ IsValue r v := by
  obtain ⟨k, hk, hout | hout⟩ := collectFactors_of_areWorth h
  · refine ⟨.const k, ?_, k, rfl, hk⟩
    rw [Rules.product, hout]
    rfl
  · refine ⟨.const k, ?_, k, rfl, hk⟩
    rw [Rules.product, hout]
    exact congrArg Except.ok (toProduct_nil k)

/-- Constants are put together to a constant. -/
lemma exists_chain_eq {c : Chain} {es : List Expr} (h : AreWorth c es v) :
    ∃ r, Rules.chain c es = .ok r ∧ IsValue r v := by
  cases c with
  | sum => exact exists_sum_eq h
  | product => exact exists_product_eq h

lemma quotient_agrees {m n : Expr} (hm : IsValue m x) (hn : IsValue n y) :
    Agrees IsValue (quotient m n) (resultOr x (divValue x y)) := by
  obtain ⟨a, rfl, ha⟩ := hm
  obtain ⟨b, rfl, hb⟩ := hn
  rw [quotient, divValue]
  split
  · next hy =>
    subst hy
    obtain ⟨err, herr, hquotes⟩ := Number.exists_div_eq_error ha hb
    rw [herr]
    exact .error hquotes
  · next hy =>
    rw [Number.div_eq_ok ha hb hy]
    exact .ok ⟨_, rfl, rfl⟩

lemma constantPower_agrees (ha : a.exactValue? = some x) (hb : b.exactValue? = some y)
    (hden : y.den = 1) : Agrees IsValue (constantPower a b) (resultOr y (powValue x y)) := by
  match hv : powValue x y with
  | some v =>
    obtain ⟨c, hc, hval⟩ := Number.exactValue?_pow ha hb hv
    rw [constantPower, hc]
    exact .ok ⟨c, rfl, hval⟩
  | none =>
    obtain ⟨err, herr, hquotes⟩ := Number.exists_pow_eq_error ha hb hden hv
    have hreal : ∀ s t, err ≠ .notReal s t := by
      rintro s t rfl
      by_cases hy : IsShort y
      · cases hquotes.short hy
      · cases hquotes.long hy
    have herr' : constantPower a b = .error err := by
      rw [constantPower, herr]
      cases err with
      | notReal s t => exact absurd rfl (hreal s t)
      | _ => rfl
    rw [herr']
    exact .error hquotes

lemma power_agrees {m n : Expr} (hm : IsValue m x) (hn : IsValue n y) (hden : y.den = 1) :
    Agrees IsValue (Rules.power m n) (resultOr y (powValue x y)) := by
  obtain ⟨a, rfl, ha⟩ := hm
  obtain ⟨b, rfl, hb⟩ := hn
  rw [Rules.power]
  split
  · next hone =>
    obtain rfl := (Number.isOne_iff hb).1 hone
    rw [powValue_one]
    exact .ok ⟨a, rfl, ha⟩
  split
  · next hzero =>
    obtain rfl := (Number.isZero_iff hb).1 hzero
    rw [powValue_zero]
    exact .ok ⟨1, rfl, rfl⟩
  · exact constantPower_agrees ha hb hden

lemma opposite_agrees (h : IsValue e v) : Agrees IsValue (Rules.opposite e) (.ok (-v)) := by
  obtain ⟨a, rfl, ha⟩ := h
  exact .ok ⟨-a, rfl, Number.exactValue?_neg ha⟩

/-! ### Simplification -/

lemma operandsAgree_leaf {y : Except (Option Rat) Rat} {c : Chain} (h : c.operands e = [e])
    (he : Agrees IsValue (simplify e) y) : Agrees (AreWorth c) (Rules.operands c e) y := by
  rw [Rules.operands_leaf h]
  exact he.bind_ok fun r v hr => ⟨_, rfl, hr.areWorth c⟩

lemma operandsAgree_node {c : Chain} {y z : Except (Option Rat) Rat}
    (hl : Agrees (AreWorth c) (Rules.operands c l) y)
    (hr : Agrees (AreWorth c) (Rules.operands c r) z) :
    Agrees (AreWorth c) (Rules.operands c (c.node l r)) (do return c.op (← y) (← z)) := by
  rw [Rules.operands_node]
  exact hl.bind fun es v hes => hr.bind fun es' w hes' => .ok (hes.append hes')

/-- A chain agrees where its operands do. -/
lemma node_agrees {c : Chain} {y : Except (Option Rat) Rat}
    (h : Agrees (AreWorth c) (Rules.operands c (c.node l r)) y) :
    Agrees IsValue (simplify (c.node l r)) y := by
  rw [simplify_node]
  exact h.bind_ok fun es v hes => exists_chain_eq hes

lemma operands_of_isValue {c : Chain} (h : IsValue e v) :
    Agrees (AreWorth c) (Rules.operands c e) (.ok v) := by
  obtain ⟨a, rfl, ha⟩ := h
  refine operandsAgree_leaf (by cases c <;> rfl) ?_
  rw [simplify_const]
  exact .ok ⟨a, rfl, ha⟩

lemma sub_agrees {y z : Except (Option Rat) Rat} (hl : Agrees IsValue (simplify l) y)
    (hr : Agrees IsValue (simplify r) z) :
    Agrees IsValue (simplify (.sub l r)) (do return (← y) - (← z)) := by
  rw [simplify_sub]
  refine hl.bind fun l' x hl' => ?_
  refine hr.bind fun r' y hr' => ?_
  have hneg : Agrees IsValue (simplify (.neg r')) (.ok (-y)) := by
    obtain ⟨a, rfl, ha⟩ := hr'
    rw [simplify_neg, simplify_const]
    exact opposite_agrees ⟨a, rfl, ha⟩
  show Agrees IsValue _ (.ok (x - y))
  rw [sub_eq_add_neg]
  refine hneg.bind (g := fun w => .ok (x + w)) fun m w hm => ?_
  exact node_agrees (c := .sum)
    (operandsAgree_node (c := .sum) (operands_of_isValue hl') (operands_of_isValue hm))

/-- The sum and the product of parts that agree, as a chain and as operands of a chain. -/
lemma chain_agrees {c : Chain} {y z : Except (Option Rat) Rat}
    (hl : ∀ c, Agrees (AreWorth c) (Rules.operands c l) y)
    (hr : ∀ c, Agrees (AreWorth c) (Rules.operands c r) z) :
    Agrees IsValue (simplify (c.node l r)) (do return c.op (← y) (← z)) ∧
      ∀ c', Agrees (AreWorth c') (Rules.operands c' (c.node l r)) (do return c.op (← y) (← z)) := by
  have hops := operandsAgree_node (hl c) (hr c)
  refine ⟨node_agrees hops, fun c' => ?_⟩
  by_cases hc : c' = c
  · rw [hc]
    exact hops
  · exact operandsAgree_leaf (Chain.operands_node_of_ne (Ne.symm hc) l r) (node_agrees hops)

/-- Simplification and evaluation agree on an arithmetic expression, and so they do on its
operands. -/
lemma agrees_of_isArithmetic (he : e.IsArithmetic) :
    Agrees IsValue (simplify e) (e.evaluate ν) ∧
      ∀ c, Agrees (AreWorth c) (Rules.operands c e) (e.evaluate ν) := by
  induction e with
  | const a =>
    obtain ⟨x, hx⟩ := Number.exists_exactValue?_of_isExact he
    rw [Expr.evaluate, hx]
    refine ⟨?_, fun c => operands_of_isValue ⟨a, rfl, hx⟩⟩
    rw [simplify_const]
    exact .ok ⟨a, rfl, hx⟩
  | var | log | other => exact he.elim
  | add l r ihl ihr => exact chain_agrees (c := .sum) (ihl he.1).2 (ihr he.2).2
  | mul l r ihl ihr => exact chain_agrees (c := .product) (ihl he.1).2 (ihr he.2).2
  | sub l r ihl ihr =>
    have h := sub_agrees (ihl he.1).1 (ihr he.2).1
    exact ⟨h, fun c => operandsAgree_leaf (by cases c <;> rfl) h⟩
  | div n d ihn ihd =>
    have h : Agrees IsValue (simplify (.div n d)) ((Expr.div n d).evaluate ν) := by
      rw [simplify_div]
      exact (ihn he.1).1.bind fun m x hm => (ihd he.2).1.bind fun k y hk => quotient_agrees hm hk
    exact ⟨h, fun c => operandsAgree_leaf (by cases c <;> rfl) h⟩
  | pow b p ihb ihp =>
    obtain ⟨hb, hp, hwhole⟩ := he
    have h : Agrees IsValue (simplify (.pow b p)) ((Expr.pow b p).evaluate ν) := by
      rw [simplify_pow, Expr.evaluate]
      refine (ihb hb).1.bind fun m x hm => (ihp hp).1.and_eq.bind fun k y hk => ?_
      refine power_agrees hm hk.1 (hwhole ν y ?_)
      rw [← Expr.toOption_evaluate, hk.2]
      rfl
    exact ⟨h, fun c => operandsAgree_leaf (by cases c <;> rfl) h⟩
  | neg e ih =>
    have h : Agrees IsValue (simplify (.neg e)) ((Expr.neg e).evaluate ν) := by
      rw [simplify_neg]
      exact (ih he).1.bind fun r v hr => opposite_agrees hr
    exact ⟨h, fun c => operandsAgree_leaf (by cases c <;> rfl) h⟩

end Simplify

lemma exists_simplify_of_value (he : e.IsArithmetic) (hv : e.value ν = some v) :
    ∃ c, simplify e = .ok (.const c) ∧ c.exactValue? = some v := by
  rw [← Expr.toOption_evaluate] at hv
  have h := (agrees_of_isArithmetic (ν := ν) he).1
  match hs : simplify e, hy : e.evaluate ν, h with
  | .ok _, .ok _, .ok ⟨c, hr, hc⟩ =>
    rw [hy] at hv
    exact ⟨c, congrArg Except.ok hr, hc.trans hv⟩
  | .error _, .error _, .error _ =>
    rw [hy] at hv
    cases hv

/-- Simplification evaluates an arithmetic expression. It returns the value, if there is one. If
there is none, it refuses the first operation without value as a division by zero, where the number
that the refusal quotes can be written, and for the length of that number otherwise. -/
theorem simplify_arithmetic (he : e.IsArithmetic) (ν : Valuation) :
    (∀ v, e.value ν = some v → ∃ c, simplify e = .ok (.const c) ∧ c.exactValue? = some v) ∧
      (e.value ν = none → ∃ q err, e.evaluate ν = .error (some q) ∧ simplify e = .error err ∧
        (IsShort q → err.IsDivisionByZero) ∧ (¬IsShort q → err = .fault .wrongValue)) := by
  refine ⟨fun v => exists_simplify_of_value he, fun hv => ?_⟩
  rw [← Expr.toOption_evaluate] at hv
  have h := (agrees_of_isArithmetic (ν := ν) he).1
  match hs : simplify e, hy : e.evaluate ν, h with
  | .ok _, .ok _, .ok _ =>
    rw [hy] at hv
    cases hv
  | .error err, .error _, .error (q := q) hq => exact ⟨q, err, rfl, rfl, hq.short, hq.long⟩

/-- A product with a zero factor is refused where another factor divides by zero. -/
theorem simplify_arithmetic_of_zero_factor :
    let e : Expr := .mul (.const 0) (.div (.const 1) (.sub (.pow (.const 2) (.const 3)) (.const 8)))
    let ν : Valuation := ⟨fun _ => 0, fun _ _ => none⟩
    e.IsArithmetic ∧ e.value ν = none ∧ IsShort 1 ∧
      ∃ err, simplify e = .error err ∧ err.IsDivisionByZero := by
  intro e ν
  have he : e.IsArithmetic := by
    refine ⟨rfl, rfl, ⟨rfl, rfl, ?_⟩, rfl⟩
    intro ν v hv
    cases hv
    rfl
  have hv : e.value ν = none := by decide +kernel
  have hq : e.evaluate ν = .error (some 1) := by decide +kernel
  have hshort : IsShort 1 := one_lt_numeralBound
  obtain ⟨q, err, hq', herr, hdivision, -⟩ := (simplify_arithmetic he ν).2 hv
  obtain rfl : q = 1 := Option.some.inj (Except.error.inj (hq'.symm.trans hq))
  exact ⟨he, hv, hshort, err, herr, hdivision hshort⟩

/-- The quotient of `10 ^ 4300` by zero has no value, and its refusal is none of a division by zero:
the dividend has more digits than can be written. -/
theorem not_isDivisionByZero_of_long_dividend :
    let e : Expr := .div (.pow (.const 10) (.const 4300)) (.const 0)
    e.IsArithmetic ∧ (∀ ν, e.value ν = none) ∧ simplify e = .error (.fault .wrongValue) ∧
      ¬(Error.fault .wrongValue).IsDivisionByZero := by
  refine ⟨⟨⟨rfl, rfl, ?_⟩, rfl⟩, ?_, by decide +kernel, not_isDivisionByZero_fault _⟩
  · intro ν v hv
    cases hv
    rfl
  intro ν
  refine Option.eq_none_iff_forall_ne_some.2 fun v hv => ?_
  obtain ⟨x, y, -, hy, hdiv⟩ := Expr.value_div_eq_some_iff.1 hv
  cases hy
  exact (Expr.divValue_eq_some_iff.1 hdiv).1 rfl

end SymbolicAlgebra
