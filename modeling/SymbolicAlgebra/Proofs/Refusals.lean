import Mathlib.Tactic.Common
import SymbolicAlgebra.Proofs.ExactNumber
import SymbolicAlgebra.Simplify.Step

/-!
# Refusals

What may come of a computation: `Bounded.Ensures` says what holds of its result and what of its
refusal, whichever it is, and `RefusedOnly` what holds of the refusal alone. Writing a number, and
looking up a representative, are refused for one reason only, that a number is too long
(`Error.IsLimit`).
-/

namespace SymbolicAlgebra

variable {α β : Type}

lemma bind_eq_error_iff {x : Except Error α} {f : α → Except Error β} {e : Error} :
    x >>= f = .error e ↔ x = .error e ∨ ∃ a, x = .ok a ∧ f a = .error e := by
  cases x <;> simp [bind, Except.bind]

namespace Bounded

/-- A result is as `P` says, and a refusal as `Q` does. -/
def Ensures (x : Bounded α) (P : α → Prop) (Q : Error → Prop) : Prop :=
  (∀ a, x.run = some (.ok a) → P a) ∧ ∀ e, x.run = some (.error e) → Q e

variable {P P' : α → Prop} {Q : Error → Prop}

lemma ensures_pure {a : α} (h : P a) : Ensures (pure a) P Q := by
  constructor
  · intro b hb
    cases hb
    exact h
  · intro e he
    cases he

lemma ensures_throw {e : Error} (h : Q e) : Ensures (throw e : Bounded α) P Q := by
  constructor
  · intro b hb
    cases hb
  · intro e he
    cases he
    exact h

lemma ensures_ofExcept {x : Except Error α} (h : ∀ a, x = .ok a → P a)
    (h' : ∀ e, x = .error e → Q e) : Ensures (ofExcept x) P Q :=
  ⟨fun a ha => h a (Option.some.inj ha), fun e he => h' e (Option.some.inj he)⟩

lemma Ensures.mono {x : Bounded α} (hx : x.Ensures P Q) (h : ∀ a, P a → P' a) :
    x.Ensures P' Q :=
  ⟨fun a ha => h a (hx.1 a ha), hx.2⟩

lemma Ensures.bind {R : β → Prop} {x : Bounded α} {f : α → Bounded β} (hx : x.Ensures P Q)
    (hf : ∀ a, P a → (f a).Ensures R Q) : (x >>= f).Ensures R Q := by
  match hrun : x.run with
  | none =>
    obtain rfl : x = none := hrun
    constructor
    · intro b hb
      cases hb
    · intro e he
      cases he
  | some (.error e) =>
    have he := hx.2 e hrun
    obtain rfl : x = some (.error e) := hrun
    exact ensures_throw he
  | some (.ok a) =>
    have hfa := hf a (hx.1 a hrun)
    obtain rfl : x = some (.ok a) := hrun
    exact ⟨hfa.1, hfa.2⟩

end Bounded

/-! ### Refusals of one kind -/

/-- A computation that is refused as `Q` says, if at all. -/
def RefusedOnly (Q : Error → Prop) (x : Except Error α) : Prop :=
  ∀ e, x = .error e → Q e

section

variable {Q Q' : Error → Prop} {x : Except Error α}

lemma refusedOnly_ok (a : α) : RefusedOnly Q (.ok a : Except Error α) := by
  intro e he
  cases he

lemma refusedOnly_error {e : Error} (h : Q e) : RefusedOnly Q (.error e : Except Error α) := by
  intro e' he
  cases he
  exact h

lemma RefusedOnly.mono (hx : RefusedOnly Q x) (h : ∀ e, Q e → Q' e) : RefusedOnly Q' x :=
  fun e he => h e (hx e he)

lemma RefusedOnly.bind {f : α → Except Error β} (hx : RefusedOnly Q x)
    (hf : ∀ a, x = .ok a → RefusedOnly Q (f a)) : RefusedOnly Q (x >>= f) := by
  intro e he
  rcases bind_eq_error_iff.1 he with he | ⟨a, ha, he⟩
  · exact hx e he
  · exact hf a ha e he

lemma RefusedOnly.mapM {f : α → Except Error β} {as : List α}
    (hf : ∀ a ∈ as, RefusedOnly Q (f a)) : RefusedOnly Q (as.mapM f) := by
  induction as with
  | nil => exact refusedOnly_ok _
  | cons a as ih =>
    obtain ⟨ha, has⟩ := List.forall_mem_cons.1 hf
    rw [List.mapM_cons]
    exact ha.bind fun b _ => (ih has).bind fun bs _ => refusedOnly_ok _

lemma refusedOnly_ite {p : Prop} [Decidable p] {y : Except Error α} (hx : RefusedOnly Q x)
    (hy : RefusedOnly Q y) : RefusedOnly Q (if p then x else y) := by
  split
  · exact hx
  · exact hy

lemma ensures_of_refusedOnly {P : α → Prop} (hx : RefusedOnly Q x) (h : ∀ a, x = .ok a → P a) :
    (Bounded.ofExcept x).Ensures P Q :=
  Bounded.ensures_ofExcept h hx

end

/-! ### Numbers that are too long -/

/-- A refusal because a number is too long: to be read from its numeral or written as one, to be
stored, or to have a form at all. -/
def Error.IsLimit (e : Error) : Prop :=
  e = .fault .wrongValue ∨ e = .fault .outOfMemory ∨ e = .fault .overflow

lemma not_isDivisionByZero_fault (f : Fault) : ¬(Error.fault f).IsDivisionByZero := by
  cases f <;> simp [Error.IsDivisionByZero, Error.report, Report.ofFault]

lemma Error.IsLimit.not_isDivisionByZero {e : Error} (h : e.IsLimit) : ¬e.IsDivisionByZero := by
  rcases h with rfl | rfl | rfl <;> exact not_isDivisionByZero_fault _

lemma onlyLimits_integerText (n : Int) : RefusedOnly Error.IsLimit (integerText n) :=
  refusedOnly_ite (refusedOnly_ok _) (refusedOnly_error (.inl rfl))

lemma onlyLimits_rationalText (q : Rat) : RefusedOnly Error.IsLimit (rationalText q) := by
  refine refusedOnly_ite (onlyLimits_integerText _) ?_
  exact (onlyLimits_integerText _).bind fun _ _ => (onlyLimits_integerText _).bind fun _ _ =>
    refusedOnly_ok _

lemma onlyLimits_refuseBits (n : Int) : RefusedOnly Error.IsLimit (refuseBits n) := by
  refine refusedOnly_ite (refusedOnly_ok _) (refusedOnly_error ?_)
  split
  · exact .inr (.inl rfl)
  · exact .inr (.inr rfl)

namespace BigFloat

lemma onlyLimits_refuseWideQuotient (p : Nat) (x y : BigFloat) :
    RefusedOnly Error.IsLimit (refuseWideQuotient p x y) := by
  unfold refuseWideQuotient
  split
  · exact refusedOnly_ite (refusedOnly_ok _) (onlyLimits_refuseBits _)
  · exact refusedOnly_ok _

lemma onlyLimits_boundedPow (p : Nat) (x y : BigFloat) :
    RefusedOnly Error.IsLimit (boundedPow p x y) := by
  unfold boundedPow
  split
  · split
    · exact (onlyLimits_refuseBits _).bind fun _ _ => refusedOnly_ok _
    · exact refusedOnly_ok _
  · exact refusedOnly_ok _

end BigFloat

lemma Number.onlyLimits_text (a : Number) : RefusedOnly Error.IsLimit a.text := by
  cases a with
  | integer n => exact onlyLimits_integerText n
  | rational q => exact onlyLimits_rationalText q
  | float x p =>
    refine RefusedOnly.bind ?_ fun _ _ => refusedOnly_ok _
    unfold BigFloat.refuseWideText
    split
    · exact onlyLimits_refuseBits p
    · exact refusedOnly_ok _

lemma Number.onlyLimits_refuseLong (a : Number) : RefusedOnly Error.IsLimit a.refuseLong := by
  unfold Number.refuseLong BigFloat.refuseLong
  split
  · split
    · exact onlyLimits_refuseBits _
    · exact refusedOnly_ok _
  · exact refusedOnly_ok _

namespace Expr

lemma onlyLimits_refuseLong (e : Expr) : RefusedOnly Error.IsLimit e.refuseLong := by
  induction e with
  | const c => exact c.onlyLimits_refuseLong
  | var | other => exact refusedOnly_ok _
  | neg e ih => exact ih
  | _ l r ihl ihr => exact ihl.bind fun _ _ => ihr

lemma onlyLimits_keyTextWithin (c : Option Chain) (e : Expr) :
    RefusedOnly Error.IsLimit (keyTextWithin c e) := by
  induction e generalizing c with
  | const n => exact n.onlyLimits_text.bind fun _ _ => refusedOnly_ok _
  | var | other => exact refusedOnly_ok _
  | neg e ih => exact (ih _).bind fun _ _ => refusedOnly_ok _
  | _ l r ihl ihr => exact (ihl _).bind fun _ _ => (ihr _).bind fun _ _ => refusedOnly_ok _

/-- Arranging a chain is refused as the keys of its operands are. -/
lemma refusedOnly_arrange {κ : Type} {Q : Error → Prop} {c : Chain} {e : Expr}
    {key : Expr → Except Error κ} {le : κ → κ → Bool}
    (h : ∀ x ∈ c.operands e, RefusedOnly Q (key x)) : RefusedOnly Q (c.arrange key le e) := by
  refine (RefusedOnly.mapM fun x hx => ?_).bind fun _ _ => refusedOnly_ok _
  exact (h x hx).bind fun _ _ => refusedOnly_ok _

lemma onlyLimits_likeKeyWithin (c : Option Chain) (e : Expr) :
    RefusedOnly Error.IsLimit (likeKeyWithin c e) := by
  induction e generalizing c with
  | const | var | other => exact refusedOnly_ok _
  | neg e ih => exact (ih _).bind fun _ _ => refusedOnly_ok _
  | add l r ihl ihr | mul l r ihl ihr =>
    exact (ihl _).bind fun _ _ => (ihr _).bind fun _ _ => refusedOnly_ite (refusedOnly_ok _)
      (refusedOnly_arrange fun x _ => onlyLimits_keyTextWithin none x)
  | _ l r ihl ihr => exact (ihl _).bind fun _ _ => (ihr _).bind fun _ _ => refusedOnly_ok _

/-- A representative is refused for the length of a number, if at all. -/
lemma onlyLimits_likeKey (e : Expr) : RefusedOnly Error.IsLimit e.likeKey :=
  (onlyLimits_likeKeyWithin none e).bind fun k _ => k.onlyLimits_refuseLong.bind fun _ _ =>
    refusedOnly_ok _

end Expr

end SymbolicAlgebra
