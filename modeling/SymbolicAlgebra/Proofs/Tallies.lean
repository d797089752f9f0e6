import SymbolicAlgebra.Proofs.AlikeClass
import SymbolicAlgebra.Proofs.NormalForm.Collection

/-!
# Tallies

Operands and the entries that collect them carry labels: what they are alike in, and an amount of
it. An operand adds its amount to the entry of its label (`Simplify.Collector.Tallies`). So the
entries are known, up to their order, from what the operands amount to, and do not depend on the
order of these (`Simplify.Collector.Tallies.collect`). The constants of a chain amount to a number
that does not depend on it either (`Chain.exactValue?_foldl_shift`, `Chain.exists_foldl_add`).
-/

namespace SymbolicAlgebra

open Simplify

/-! ### Amounts -/

section

variable {α κ M : Type} [AddCommMonoid M] [DecidableEq κ] {as : List α}
    {ls ls' : List (κ × M)} {i : κ}

lemma amountAt_append (ls ls' : List (κ × M)) (i : κ) :
    amountAt (ls ++ ls') i = amountAt ls i + amountAt ls' i := by
  simp [amountAt]

lemma amountAt_of_perm (h : ls.Perm ls') (i : κ) : amountAt ls i = amountAt ls' i :=
  (h.map _).sum_eq

/-- Entries without an amount may be left out. -/
lemma amountAt_filter {f : α → κ × M} {p : α → Bool}
    (h : ∀ a ∈ as, p a = false → (f a).2 = 0) (i : κ) :
    amountAt ((as.filter p).map f) i = amountAt (as.map f) i := by
  induction as with
  | nil => rfl
  | cons a as ih =>
    have ih := ih fun b hb => h b (.tail a hb)
    by_cases hp : p a
    · rw [List.filter_cons_of_pos hp, List.map_cons, List.map_cons, amountAt_cons,
        amountAt_cons, ih]
    · have hzero := h a List.mem_cons_self (by simpa using hp)
      rw [List.filter_cons_of_neg hp, List.map_cons, amountAt_cons, ih, hzero, ite_self, zero_add]

end

/-! ### Collectors -/

namespace Simplify.Collector

variable {α κ M : Type} [AddCommMonoid M] [DecidableEq κ]

/-- Labels of entries and of operands, for entries that are as `P` says and operands that are as `Q`
says: an operand has the key of an entry where their labels agree, and then adds its amount. -/
structure Tallies (C : Collector α) (P : α → Prop) (Q : Expr → Prop) (entry : α → κ × M)
    (operand : Expr → κ × M) : Prop where
  start {e k} : Q e → C.key e = .ok k → P (C.start k e) ∧ entry (C.start k e) = operand e
  push {a e k} : P a → Q e → C.key e = .ok k → C.keyOf a == k →
    P (C.push e a) ∧ entry (C.push e a) = ((entry a).1, (entry a).2 + (operand e).2)
  key_iff {a e k} : P a → Q e → C.key e = .ok k → (C.keyOf a == k ↔ (entry a).1 = (operand e).1)

variable {C : Collector α} {P : α → Prop} {Q : Expr → Prop} {entry : α → κ × M}
    {operand : Expr → κ × M} {as as' : List α} {es : List Expr} {e k : Expr}

namespace Tallies

lemma insert_keys (h : C.Tallies P Q entry operand) (has : ∀ a ∈ as, P a) (he : Q e)
    (hk : C.key e = .ok k) : ((C.insert k e as).map entry).map Prod.fst =
      if (operand e).1 ∈ (as.map entry).map Prod.fst then (as.map entry).map Prod.fst
      else (as.map entry).map Prod.fst ++ [(operand e).1] := by
  induction as with
  | nil => simp [Collector.insert, (h.start he hk).2]
  | cons a as ih =>
    obtain ⟨ha, has⟩ := List.forall_mem_cons.1 has
    have hiff := h.key_iff ha he hk
    rw [Collector.insert]
    split
    · next hsame =>
      have hmem : (operand e).1 ∈ ((a :: as).map entry).map Prod.fst := by simp [hiff.1 hsame]
      rw [if_pos hmem, List.map_cons, (h.push ha he hk hsame).2]
      rfl
    · next hdiff =>
      have hne : ¬(operand e).1 = (entry a).1 := fun heq => hdiff (hiff.2 heq.symm)
      rw [List.map_cons, List.map_cons, ih has]
      simp only [List.map_cons, List.mem_cons, hne, false_or]
      split <;> rfl

lemma insert_amount (h : C.Tallies P Q entry operand) (has : ∀ a ∈ as, P a) (he : Q e)
    (hk : C.key e = .ok k) (i : κ) : amountAt ((C.insert k e as).map entry) i =
      amountAt (as.map entry) i + if (operand e).1 = i then (operand e).2 else 0 := by
  induction as with
  | nil => simp [Collector.insert, amountAt, (h.start he hk).2]
  | cons a as ih =>
    obtain ⟨ha, has⟩ := List.forall_mem_cons.1 has
    rw [Collector.insert]
    split
    · next hsame =>
      have hkey := (h.key_iff ha he hk).1 hsame
      rw [List.map_cons, List.map_cons, amountAt_cons, amountAt_cons,
        (h.push ha he hk hsame).2, hkey]
      split
      · exact add_right_comm _ _ _
      · simp
    · rw [List.map_cons, List.map_cons, amountAt_cons, amountAt_cons, ih has, add_assoc]

/-- Collected entries have labels that differ, and amount to what the operands do. -/
theorem collect (h : C.Tallies P Q entry operand) (has : ∀ a ∈ as, P a) (hes : ∀ e ∈ es, Q e)
    (hnodup : ((as.map entry).map Prod.fst).Nodup) (hc : C.collect es as = .ok as') :
    (∀ a ∈ as', P a) ∧ ((as'.map entry).map Prod.fst).Nodup ∧
      ∀ i, amountAt (as'.map entry) i = amountAt (as.map entry) i +
        amountAt (es.map operand) i := by
  induction es generalizing as with
  | nil =>
    obtain rfl := pure_eq_ok_iff.1 hc
    exact ⟨has, hnodup, fun i => by simp [amountAt]⟩
  | cons e es ih =>
    obtain ⟨he, hes⟩ := List.forall_mem_cons.1 hes
    rw [collect_cons] at hc
    obtain ⟨as₁, hadd, hc⟩ := bind_eq_ok_iff.1 hc
    obtain ⟨k, hk, hadd⟩ := bind_eq_ok_iff.1 hadd
    obtain rfl := pure_eq_ok_iff.1 hadd
    have hP : ∀ a ∈ C.insert k e as, P a :=
      forall_mem_insert (h.start he hk).1 (fun a ha hsame => (h.push ha he hk hsame).1) has
    have hnodup' : (((C.insert k e as).map entry).map Prod.fst).Nodup := by
      rw [h.insert_keys has he hk]
      split
      · exact hnodup
      · next hnot => exact hnodup.append (List.nodup_singleton _) (List.disjoint_singleton.2 hnot)
    obtain ⟨hP', hnodup'', hamount⟩ := ih hP hes hnodup' hc
    refine ⟨hP', hnodup'', fun i => ?_⟩
    rw [hamount, h.insert_amount has he hk, List.map_cons, amountAt_cons, add_assoc]

end Tallies

end Simplify.Collector

/-! ### Constants -/

/-- The value of a number, and zero if it has no exact one. -/
def Number.valueOrZero (a : Number) : Rat :=
  a.exactValue?.getD 0

lemma Number.valueOrZero_eq {a : Number} {q : Rat} (h : a.exactValue? = some q) :
    a.valueOrZero = q := by
  rw [valueOrZero, h, Option.getD_some]

lemma Number.exactValue?_eq_valueOrZero {a : Number} (h : a.isExact) :
    a.exactValue? = some a.valueOrZero := by
  obtain ⟨q, hq⟩ := exists_exactValue?_of_isExact h
  rw [valueOrZero_eq hq, hq]

namespace Chain

variable {c : Chain} {k : Number} {q : Rat} {e e' : Expr} {es es' : List Expr}

/-- What a constant contributes to the value of a chain. -/
def constantValue (c : Chain) : Expr → Rat
  | .const a => a.valueOrZero
  | _ => c.unit

/-- What an operand contributes to the constant of a chain, with the signs of the factors of a
product. -/
def shiftValue : Chain → Expr → Rat
  | _, .const a => a.valueOrZero
  | product, .neg _ => -1
  | c, _ => c.unit

instance : RightCommutative (Chain.op c) where
  right_comm x y z := by rw [c.op_assoc, c.op_comm y, c.op_assoc]

lemma exactValue?_combine {a b : Number} {x y : Rat} (ha : a.exactValue? = some x)
    (hb : b.exactValue? = some y) : (c.combine a b).exactValue? = some (c.op x y) := by
  cases c with
  | sum => exact Number.exactValue?_add ha hb
  | product => exact Number.exactValue?_mul ha hb

/-- Gathered constants have their values together, and the other operands stay in their order. -/
lemma exists_foldl_add (os : List Expr) (hes : ∀ a, .const a ∈ es → a.isExact)
    (hk : k.exactValue? = some q) :
    ∃ k', es.foldl (Gathered.add c.combine) ⟨k, os⟩ = ⟨k', os ++ es.filter (!·.isConstant)⟩ ∧
      k'.exactValue? = some ((es.map c.constantValue).foldl c.op q) := by
  induction es generalizing k q os with
  | nil => exact ⟨k, by simp, hk⟩
  | cons e es ih =>
    have hrest : ∀ a, .const a ∈ es → a.isExact := fun a ha => hes a (.tail e ha)
    rw [List.foldl_cons, List.map_cons, List.foldl_cons]
    by_cases hc : e.isConstant
    · obtain ⟨a, rfl⟩ := Expr.eq_const_of_isConstant hc
      have ha := Number.exactValue?_eq_valueOrZero (hes a List.mem_cons_self)
      rw [List.filter_cons_of_neg (by simp [hc])]
      exact ih os hrest (exactValue?_combine hk ha)
    · have hadd : Gathered.add c.combine ⟨k, os⟩ e = ⟨k, os ++ [e]⟩ := by
        cases e <;> first | rfl | exact absurd rfl hc
      have hunit : c.constantValue e = c.unit := by
        cases e <;> first | rfl | exact absurd rfl hc
      rw [hadd, hunit, op_unit, List.filter_cons_of_pos (by simpa using hc),
        List.append_cons os e (es.filter _)]
      exact ih _ hrest hk

/-- The constants and signs of operands have their values together. -/
lemma exactValue?_foldl_shift (hes : ∀ a, .const a ∈ es → a.isExact) (hk : k.exactValue? = some q) :
    (es.foldl c.shift k).exactValue? = some ((es.map c.shiftValue).foldl c.op q) := by
  induction es generalizing k q with
  | nil => exact hk
  | cons e es ih =>
    rw [List.foldl_cons, List.map_cons, List.foldl_cons]
    refine ih (fun a ha => hes a (.tail e ha)) ?_
    cases e with
    | const a =>
      have ha := Number.exactValue?_eq_valueOrZero (hes a List.mem_cons_self)
      cases c with
      | sum => exact Number.exactValue?_add hk ha
      | product => exact Number.exactValue?_mul hk ha
    | neg x =>
      cases c with
      | sum => exact (congrArg some (add_zero q)) ▸ hk
      | product => simpa [shift, shiftValue, op] using Number.exactValue?_neg hk
    | _ => cases c <;> simpa [shift, shiftValue, op, unit] using hk

lemma constantValue_eq_of_alike (h : e.Alike e') : c.constantValue e = c.constantValue e' := by
  induction h with
  | refl e => rfl
  | symm _ ih => exact ih.symm
  | trans _ _ ih ih' => exact ih.trans ih'
  | const ha hb => exact (Number.valueOrZero_eq ha).trans (Number.valueOrZero_eq hb).symm
  | comm d | assoc d | node d => cases d <;> rfl
  | _ => rfl

lemma shiftValue_eq_of_alike (h : e.Alike e') : c.shiftValue e = c.shiftValue e' := by
  induction h with
  | refl e => rfl
  | symm _ ih => exact ih.symm
  | trans _ _ ih ih' => exact ih.trans ih'
  | const ha hb =>
    cases c <;> exact (Number.valueOrZero_eq ha).trans (Number.valueOrZero_eq hb).symm
  | comm d | assoc d | node d => cases c <;> cases d <;> rfl
  | _ => cases c <;> rfl

lemma foldl_constantValue_eq (h : AlikeLists es es') (q : Rat) :
    (es.map c.constantValue).foldl c.op q = (es'.map c.constantValue).foldl c.op q :=
  (h.map_perm fun _ _ _ _ => constantValue_eq_of_alike).foldl_eq q

lemma foldl_shiftValue_eq (h : AlikeLists es es') (q : Rat) :
    (es.map c.shiftValue).foldl c.op q = (es'.map c.shiftValue).foldl c.op q :=
  (h.map_perm fun _ _ _ _ => shiftValue_eq_of_alike).foldl_eq q

end Chain

end SymbolicAlgebra
