import SymbolicAlgebra.Proofs.NormalForm
import SymbolicAlgebra.Proofs.Polynomial

/-!
# Classes of expressions that are alike

Being alike is an equivalence, so expressions have classes (`Expr.alikeClass`), and lists of
expressions are alike up to their order when their classes are a permutation of each other
(`alikeLists_iff`). Expressions that are alike have operands that are alike in every chain
(`Expr.Alike.operands`), and the same kind of node with parts that are alike
(`Expr.Alike.frame_eq`).
-/

namespace SymbolicAlgebra

variable {c : Chain} {e e' l l' r r' x : Expr} {es es' es'' xs xs' ys ys' : List Expr}
    {a : Number} {q : Rat}

namespace Expr

/-- Being alike as an equivalence. -/
def alikeSetoid : Setoid Expr :=
  ⟨Alike, .refl, .symm, .trans⟩

/-- Expressions that are taken for one if they are alike. -/
def AlikeClass : Type :=
  Quotient alikeSetoid

/-- The class of the expressions that are alike to one. -/
def alikeClass (e : Expr) : AlikeClass :=
  Quotient.mk alikeSetoid e

@[simp] lemma alikeClass_eq_iff : e.alikeClass = e'.alikeClass ↔ e.Alike e' :=
  Quotient.eq (r := alikeSetoid)

noncomputable instance : DecidableEq AlikeClass :=
  Classical.decEq _

end Expr

open SymbolicAlgebra.Expr

/-! ### Lists -/

lemma alikeLists_iff : AlikeLists es es' ↔ (es.map alikeClass).Perm (es'.map alikeClass) := by
  constructor
  · rintro ⟨es'', hperm, hall⟩
    have heq : es''.map alikeClass = es'.map alikeClass := by
      rw [← List.forall₂_eq_eq_eq, List.forall₂_map_left_iff, List.forall₂_map_right_iff]
      exact hall.imp fun _ _ h => alikeClass_eq_iff.2 h
    exact heq ▸ hperm.map alikeClass
  · intro h
    have hclasses (es : List Expr) :
        List.Forall₂ (fun e a => e.alikeClass = a) es (es.map alikeClass) :=
      List.forall₂_map_right_iff.2 (List.forall₂_same.2 fun _ _ => rfl)
    refine alikeLists_of_perm (hclasses es) (hclasses es') h fun e e' a ha ha' => ?_
    exact alikeClass_eq_iff.1 (ha.trans ha'.symm)

namespace AlikeLists

lemma refl (es : List Expr) : AlikeLists es es :=
  alikeLists_iff.2 (.refl _)

lemma symm (h : AlikeLists es es') : AlikeLists es' es :=
  alikeLists_iff.2 (alikeLists_iff.1 h).symm

lemma trans (h : AlikeLists es es') (h' : AlikeLists es' es'') : AlikeLists es es'' :=
  alikeLists_iff.2 ((alikeLists_iff.1 h).trans (alikeLists_iff.1 h'))

lemma of_perm (h : es.Perm es') : AlikeLists es es' :=
  alikeLists_iff.2 (h.map _)

lemma append (h : AlikeLists xs xs') (h' : AlikeLists ys ys') :
    AlikeLists (xs ++ ys) (xs' ++ ys') := by
  rw [alikeLists_iff, List.map_append, List.map_append]
  exact (alikeLists_iff.1 h).append (alikeLists_iff.1 h')

lemma singleton (h : e.Alike e') : AlikeLists [e] [e'] :=
  ⟨[e], .refl _, .cons h .nil⟩

/-- Each of the expressions is alike to one of the others. -/
lemma exists_of_mem (h : AlikeLists es es') (hx : x ∈ es) : ∃ x' ∈ es', x.Alike x' := by
  have hmem := (alikeLists_iff.1 h).mem_iff.1 (List.mem_map_of_mem hx)
  obtain ⟨x', hx', heq⟩ := List.mem_map.1 hmem
  exact ⟨x', hx', (alikeClass_eq_iff.1 heq).symm⟩

/-- What expressions that are alike have in common is the same for lists of them, up to order. -/
lemma map_perm {β : Type} {f : Expr → β} (h : AlikeLists es es')
    (hf : ∀ e ∈ es, ∀ e' ∈ es', e.Alike e' → f e = f e') : (es.map f).Perm (es'.map f) := by
  obtain ⟨es'', hperm, hall⟩ := h
  replace hf : ∀ e ∈ es'', ∀ e' ∈ es', e.Alike e' → f e = f e' :=
    fun e he => hf e (hperm.mem_iff.2 he)
  have heq : es''.map f = es'.map f := by
    clear hperm
    induction hall with
    | nil => rfl
    | cons he _ ih =>
      rw [List.map_cons, List.map_cons, hf _ List.mem_cons_self _ List.mem_cons_self he,
        ih fun e he e' he' => hf e (.tail _ he) e' (.tail _ he')]
  exact heq ▸ hperm.map f

lemma filter (h : AlikeLists es es') {p : Expr → Bool} (hp : ∀ e e', e.Alike e' → p e = p e') :
    AlikeLists (es.filter p) (es'.filter p) := by
  obtain ⟨es'', hperm, hall⟩ := h
  refine ⟨es''.filter p, hperm.filter p, List.rel_filter (fun e e' he => ?_) hall⟩
  show p e = true ↔ p e' = true
  rw [hp e e' he]

/-- A list with the first of two parts, when the other ones are alike. -/
lemma of_cons (h : AlikeLists (e :: es) (e' :: es')) (he : e.Alike e') : AlikeLists es es' := by
  have hperm := alikeLists_iff.1 h
  rw [List.map_cons, List.map_cons, alikeClass_eq_iff.2 he] at hperm
  exact alikeLists_iff.2 hperm.cons_inv

end AlikeLists

/-! ### Operands -/

namespace Expr

lemma alikeLists_operands_node (hne : ∀ d, c ≠ d → (c.node l r).Alike (c.node l' r'))
    (h : AlikeLists (c.operands (c.node l r)) (c.operands (c.node l' r'))) (d : Chain) :
    AlikeLists (d.operands (c.node l r)) (d.operands (c.node l' r')) := by
  by_cases hd : c = d
  · exact hd ▸ h
  · rw [Chain.operands_node_of_ne hd, Chain.operands_node_of_ne hd]
    exact .singleton (hne d hd)

/-- Expressions that are alike have operands that are alike. -/
lemma Alike.operands (h : e.Alike e') (d : Chain) : AlikeLists (d.operands e) (d.operands e') := by
  induction h generalizing d with
  | refl e => exact .refl _
  | symm _ ih => exact (ih d).symm
  | trans _ _ ih ih' => exact (ih d).trans (ih' d)
  | comm c l r =>
    refine alikeLists_operands_node (fun _ _ => .comm c l r) ?_ d
    rw [Chain.operands_node, Chain.operands_node]
    exact .of_perm List.perm_append_comm
  | assoc c e₁ e₂ e₃ =>
    refine alikeLists_operands_node (fun _ _ => .assoc c e₁ e₂ e₃) ?_ d
    simp only [Chain.operands_node, List.append_assoc]
    exact .refl _
  | node c hl hr ihl ihr =>
    refine alikeLists_operands_node (fun _ _ => .node c hl hr) ?_ d
    rw [Chain.operands_node, Chain.operands_node]
    exact (ihl c).append (ihr c)
  | const ha hb => cases d <;> exact .singleton (.const ha hb)
  | sub hl hr => cases d <;> exact .singleton (.sub hl hr)
  | div hn hd => cases d <;> exact .singleton (.div hn hd)
  | pow hb hp => cases d <;> exact .singleton (.pow hb hp)
  | log hb ha => cases d <;> exact .singleton (.log hb ha)
  | neg he => cases d <;> exact .singleton (.neg he)

/-- Chains with operands that are alike are alike. -/
lemma alike_of_operands (h : AlikeLists (c.operands e) (c.operands e')) : e.Alike e' :=
  ((c.reordered_build_operands e).alike.symm.trans h.build).trans
    (c.reordered_build_operands e').alike

/-- Expressions that are alike have operands that are alike when they are all taken apart. -/
lemma alikeLists_flatMap_operands (h : AlikeLists es es') (d : Chain) :
    AlikeLists (es.flatMap d.operands) (es'.flatMap d.operands) := by
  obtain ⟨es'', hperm, hall⟩ := h
  refine (AlikeLists.of_perm (hperm.flatMap_right _)).trans ?_
  clear hperm
  induction hall with
  | nil => exact .refl _
  | cons he _ ih => exact (he.operands d).append ih

/-! ### Kinds of nodes -/

/-- The kind of a node with the classes of its parts, and of its operands if it is a chain. -/
inductive Frame where
  | const (q : Option Rat)
  | var (x : String)
  | chain (c : Chain) (xs : Multiset AlikeClass)
  | sub (a b : AlikeClass)
  | div (a b : AlikeClass)
  | pow (a b : AlikeClass)
  | log (a b : AlikeClass)
  | neg (a : AlikeClass)
  | other

/-- The outermost node of an expression. -/
def frame : Expr → Frame
  | const a => .const a.exactValue?
  | var x => .var x
  | add l r => .chain .sum ((Chain.sum.operands (add l r)).map alikeClass)
  | mul l r => .chain .product ((Chain.product.operands (mul l r)).map alikeClass)
  | sub l r => .sub l.alikeClass r.alikeClass
  | div n d => .div n.alikeClass d.alikeClass
  | pow b p => .pow b.alikeClass p.alikeClass
  | log b a => .log b.alikeClass a.alikeClass
  | neg e => .neg e.alikeClass
  | other _ _ _ => .other

lemma frame_node_eq (h : AlikeLists (c.operands (c.node l r)) (c.operands (c.node l' r'))) :
    (c.node l r).frame = (c.node l' r').frame := by
  have hxs := Quot.sound (alikeLists_iff.1 h)
  cases c <;> exact congrArg (Frame.chain _) hxs

/-- Expressions that are alike have the same node outermost. -/
lemma Alike.frame_eq (h : e.Alike e') : e.frame = e'.frame := by
  induction h with
  | refl e => rfl
  | symm _ ih => exact ih.symm
  | trans _ _ ih ih' => exact ih.trans ih'
  | const ha hb => rw [frame, frame, ha, hb]
  | comm c l r => exact frame_node_eq ((Alike.comm c l r).operands c)
  | assoc c e₁ e₂ e₃ => exact frame_node_eq ((Alike.assoc c e₁ e₂ e₃).operands c)
  | node c hl hr => exact frame_node_eq ((Alike.node c hl hr).operands c)
  | sub hl hr => rw [frame, frame, alikeClass_eq_iff.2 hl, alikeClass_eq_iff.2 hr]
  | div hn hd => rw [frame, frame, alikeClass_eq_iff.2 hn, alikeClass_eq_iff.2 hd]
  | pow hb hp => rw [frame, frame, alikeClass_eq_iff.2 hb, alikeClass_eq_iff.2 hp]
  | log hb ha => rw [frame, frame, alikeClass_eq_iff.2 hb, alikeClass_eq_iff.2 ha]
  | neg he => rw [frame, frame, alikeClass_eq_iff.2 he]

variable {b d n p u : Expr} {y : String}

lemma Alike.eq_const (h : (Expr.const a).Alike e') :
    ∃ a', e' = .const a' ∧ a'.exactValue? = a.exactValue? := by
  have h := h.frame_eq
  cases e' <;> simp only [frame, Frame.const.injEq, reduceCtorEq] at h
  exact ⟨_, rfl, h.symm⟩

lemma Alike.eq_var (h : (Expr.var y).Alike e') : e' = .var y := by
  have h := h.frame_eq
  cases e' <;> simp only [frame, Frame.var.injEq, reduceCtorEq] at h
  rw [h]

lemma Alike.eq_node (h : (c.node l r).Alike e') : ∃ l' r', e' = c.node l' r' := by
  have h := h.frame_eq
  cases c <;> cases e' <;>
    simp only [Chain.node, frame, Frame.chain.injEq, reduceCtorEq, false_and] at h <;>
    exact ⟨_, _, rfl⟩

lemma Alike.eq_sub (h : (Expr.sub l r).Alike e') :
    ∃ l' r', e' = .sub l' r' ∧ l.Alike l' ∧ r.Alike r' := by
  have h := h.frame_eq
  cases e' <;> simp only [frame, Frame.sub.injEq, alikeClass_eq_iff, reduceCtorEq] at h
  exact ⟨_, _, rfl, h⟩

lemma Alike.eq_div (h : (Expr.div n d).Alike e') :
    ∃ n' d', e' = .div n' d' ∧ n.Alike n' ∧ d.Alike d' := by
  have h := h.frame_eq
  cases e' <;> simp only [frame, Frame.div.injEq, alikeClass_eq_iff, reduceCtorEq] at h
  exact ⟨_, _, rfl, h⟩

lemma Alike.eq_pow (h : (Expr.pow b p).Alike e') :
    ∃ b' p', e' = .pow b' p' ∧ b.Alike b' ∧ p.Alike p' := by
  have h := h.frame_eq
  cases e' <;> simp only [frame, Frame.pow.injEq, alikeClass_eq_iff, reduceCtorEq] at h
  exact ⟨_, _, rfl, h⟩

lemma Alike.eq_log (h : (Expr.log b n).Alike e') :
    ∃ b' n', e' = .log b' n' ∧ b.Alike b' ∧ n.Alike n' := by
  have h := h.frame_eq
  cases e' <;> simp only [frame, Frame.log.injEq, alikeClass_eq_iff, reduceCtorEq] at h
  exact ⟨_, _, rfl, h⟩

lemma Alike.eq_neg (h : (Expr.neg u).Alike e') : ∃ u', e' = .neg u' ∧ u.Alike u' := by
  have h := h.frame_eq
  cases e' <;> simp only [frame, Frame.neg.injEq, alikeClass_eq_iff, reduceCtorEq] at h
  exact ⟨_, rfl, h⟩

lemma Alike.isConstant_eq (h : e.Alike e') : e.isConstant = e'.isConstant := by
  induction h with
  | refl e => rfl
  | symm _ ih => exact ih.symm
  | trans _ _ ih ih' => exact ih.trans ih'
  | comm c | assoc c | node c => cases c <;> rfl
  | _ => rfl

end Expr

end SymbolicAlgebra
