import SymbolicAlgebra.Proofs.Sameness
import SymbolicAlgebra.Proofs.WeighedOperands
import SymbolicAlgebra.Proofs.WeightOrder

/-!
# What the canonical order forgets

Expressions have the same canonical order just when one can be rearranged to the other
(`order_same_iff`): by regrouping the operands of chains, by exchanging neighbours that differ in
weight, and by replacing constants by the same ones. Neighbours of one weight keep their places, so
the order in which they were written stays visible.
-/

namespace SymbolicAlgebra

variable {c : Chain} {e e' p q p' q' : Expr}

namespace Expr

/-- Whether two operands get different weights. -/
def DifferInWeight (e e' : Expr) : Prop :=
  ∃ w w', Weighs e w ∧ Weighs e' w' ∧ (w.1.lt w'.1 ∨ w'.1.lt w.1)

/-- Equality up to the values of constants, the grouping of chains, and exchanges of neighbours that
differ in weight. -/
inductive Rearranged : Expr → Expr → Prop
  | symm {e e' : Expr} : Rearranged e e' → Rearranged e' e
  | trans {e e' e'' : Expr} : Rearranged e e' → Rearranged e' e'' → Rearranged e e''
  | const {a b : Number} : a.same b → Rearranged (const a) (const b)
  | var (x : String) : Rearranged (var x) (var x)
  | node (c : Chain) {l l' r r' : Expr} :
      Rearranged l l' → Rearranged r r' → Rearranged (c.node l r) (c.node l' r')
  | sub {l l' r r' : Expr} : Rearranged l l' → Rearranged r r' → Rearranged (sub l r) (sub l' r')
  | div {n n' d d' : Expr} : Rearranged n n' → Rearranged d d' → Rearranged (div n d) (div n' d')
  | pow {b b' p p' : Expr} : Rearranged b b' → Rearranged p p' → Rearranged (pow b p) (pow b' p')
  | log {b b' a a' : Expr} : Rearranged b b' → Rearranged a a' → Rearranged (log b a) (log b' a')
  | neg {e e' : Expr} : Rearranged e e' → Rearranged (neg e) (neg e')
  | other {m m' : Mark} {k k' : String} {es es' : List Expr} :
      m.agrees m' → Rearranged (other m k es) (other m' k' es')
  | regroup (c : Chain) {e₁ e₂ e₃ : Expr} :
      Rearranged e₁ e₁ → Rearranged e₂ e₂ → Rearranged e₃ e₃ →
      Rearranged (c.node (c.node e₁ e₂) e₃) (c.node e₁ (c.node e₂ e₃))
  | exchange (c : Chain) {e e' : Expr} :
      Rearranged e e → Rearranged e' e' → c.operands e = [e] → c.operands e' = [e'] →
      DifferInWeight e e' → Rearranged (c.node e e') (c.node e' e)

lemma Rearranged.of_same (h : e.same e') : Rearranged e e' := by
  induction e generalizing e' with
  | const a =>
    cases e' <;> simp only [same, Bool.false_eq_true] at h
    exact .const h
  | var x =>
    cases e' <;> simp only [same, beq_iff_eq, Bool.false_eq_true] at h
    rw [h]
    exact .var _
  | other m k es _ =>
    cases e' <;> simp only [same, Bool.false_eq_true] at h
    exact .other h
  | neg e ih =>
    cases e' <;> simp only [same, Bool.false_eq_true] at h
    exact .neg (ih h)
  | add l r ihl ihr =>
    cases e' <;> simp only [same, Bool.and_eq_true, Bool.false_eq_true] at h
    exact .node .sum (ihl h.1) (ihr h.2)
  | mul l r ihl ihr =>
    cases e' <;> simp only [same, Bool.and_eq_true, Bool.false_eq_true] at h
    exact .node .product (ihl h.1) (ihr h.2)
  | sub l r ihl ihr =>
    cases e' <;> simp only [same, Bool.and_eq_true, Bool.false_eq_true] at h
    exact .sub (ihl h.1) (ihr h.2)
  | div n d ihn ihd =>
    cases e' <;> simp only [same, Bool.and_eq_true, Bool.false_eq_true] at h
    exact .div (ihn h.1) (ihd h.2)
  | pow b p ihb ihp =>
    cases e' <;> simp only [same, Bool.and_eq_true, Bool.false_eq_true] at h
    exact .pow (ihb h.1) (ihp h.2)
  | log b a ihb iha =>
    cases e' <;> simp only [same, Bool.and_eq_true, Bool.false_eq_true] at h
    exact .log (ihb h.1) (iha h.2)

lemma Rearranged.left (h : Rearranged e e') : Rearranged e e :=
  .trans h (.symm h)

end Expr

open SymbolicAlgebra.Expr

/-! ### Weighed operands that are sorted alike -/

/-- Weighed operands of one weight that are the same. -/
structure SameWeighed (w w' : BigFloat × Expr) : Prop where
  weight : w.1 = w'.1
  isNaN : w.1.isNaN = false
  expr : w.2.same w'.2

lemma SameWeighed.symm {w w' : BigFloat × Expr} (h : SameWeighed w w') : SameWeighed w' w :=
  ⟨h.weight.symm, h.weight ▸ h.isNaN, same_symm h.expr⟩

lemma SameWeighed.trans {w w' w'' : BigFloat × Expr} (h : SameWeighed w w')
    (h' : SameWeighed w' w'') : SameWeighed w w'' :=
  ⟨h.weight.trans h'.weight, h.isNaN, same_trans h.expr h'.expr⟩

lemma forall₂_sameWeighed_symm {ws ws' : List (BigFloat × Expr)}
    (h : List.Forall₂ SameWeighed ws ws') : List.Forall₂ SameWeighed ws' ws :=
  (h.imp fun _ _ hw => hw.symm).flip

lemma forall₂_sameWeighed_trans {ws ws' ws'' : List (BigFloat × Expr)}
    (h : List.Forall₂ SameWeighed ws ws') (h' : List.Forall₂ SameWeighed ws' ws'') :
    List.Forall₂ SameWeighed ws ws'' := by
  refine (forall₂_comp_iff.2 ⟨ws', h, h'⟩).imp ?_
  rintro w w'' ⟨w', hw, hw'⟩
  exact hw.trans hw'

lemma forall₂_sameWeighed_sort {ws ws' : List (BigFloat × Expr)}
    (h : List.Forall₂ SameWeighed ws ws') :
    List.Forall₂ SameWeighed (stableSort (fun a b => heavierOrEqual a.1 b.1) ws)
      (stableSort (fun a b => heavierOrEqual a.1 b.1) ws') :=
  forall₂_stableSort (fun ha hb => by rw [ha.weight, hb.weight]) h

/-- What is known of weighed operands that are sorted alike among others. -/
structure Interchangeable (ws ws' : List (BigFloat × Expr)) : Prop where
  left : List.Forall₂ SameWeighed ws ws
  right : List.Forall₂ SameWeighed ws' ws'
  sorted {as as' bs bs'} : List.Forall₂ SameWeighed as as' → List.Forall₂ SameWeighed bs bs' →
    List.Forall₂ SameWeighed (stableSort (fun a b => heavierOrEqual a.1 b.1) (as ++ (ws ++ bs)))
      (stableSort (fun a b => heavierOrEqual a.1 b.1) (as' ++ (ws' ++ bs')))

namespace Interchangeable

variable {w w' : BigFloat × Expr} {vs vs' ws ws' ws'' : List (BigFloat × Expr)}

lemma of_forall₂ (h : List.Forall₂ SameWeighed ws ws') : Interchangeable ws ws' where
  left := forall₂_sameWeighed_trans h (forall₂_sameWeighed_symm h)
  right := forall₂_sameWeighed_trans (forall₂_sameWeighed_symm h) h
  sorted has hbs := forall₂_sameWeighed_sort (List.rel_append has (List.rel_append h hbs))

lemma trans (h : Interchangeable ws ws') (h' : Interchangeable ws' ws'') :
    Interchangeable ws ws'' where
  left := h.left
  right := h'.right
  sorted has hbs := by
    have has' := forall₂_sameWeighed_trans (forall₂_sameWeighed_symm has) has
    have hbs' := forall₂_sameWeighed_trans (forall₂_sameWeighed_symm hbs) hbs
    exact forall₂_sameWeighed_trans (h.sorted has hbs) (h'.sorted has' hbs')

lemma symm (h : Interchangeable ws ws') : Interchangeable ws' ws where
  left := h.right
  right := h.left
  sorted has hbs := forall₂_sameWeighed_symm
    (h.sorted (forall₂_sameWeighed_symm has) (forall₂_sameWeighed_symm hbs))

lemma append (h : Interchangeable ws ws') (h' : Interchangeable vs vs') :
    Interchangeable (ws ++ vs) (ws' ++ vs') where
  left := List.rel_append h.left h'.left
  right := List.rel_append h.right h'.right
  sorted {as as' bs bs'} has hbs := by
    have has' := forall₂_sameWeighed_trans (forall₂_sameWeighed_symm has) has
    have hfirst := h.sorted has (List.rel_append h'.left hbs)
    have hsecond := h'.sorted (List.rel_append has' h.right)
      (forall₂_sameWeighed_trans (forall₂_sameWeighed_symm hbs) hbs)
    simp only [List.append_assoc] at hfirst hsecond ⊢
    exact forall₂_sameWeighed_trans hfirst hsecond

lemma sort_exchange {as bs : List (BigFloat × Expr)} (hlt : w'.1.lt w.1)
    (h : ∀ x ∈ as ++ w :: w' :: bs, x.1.isNaN = false) :
    stableSort (fun a b => heavierOrEqual a.1 b.1) (as ++ w :: w' :: bs) =
      stableSort (fun a b => heavierOrEqual a.1 b.1) (as ++ w' :: w :: bs) := by
  have hw := h w (by simp)
  have hw' := h w' (by simp)
  refine stableSort_exchange (P := fun x => x.1.isNaN = false) heavierOrEqual_trans ?_ ?_ h
  · rw [heavierOrEqual_iff_place hw hw']
    exact le_of_lt ((BigFloat.lt_iff_place hw' hw).1 hlt)
  · simp [heavierOrEqual, hlt]

/-- Neighbours that differ in weight are sorted alike in both orders. -/
lemma exchange (hw : SameWeighed w w) (hw' : SameWeighed w' w') (hlt : w'.1.lt w.1) :
    Interchangeable [w, w'] [w', w] where
  left := .cons hw (.cons hw' .nil)
  right := .cons hw' (.cons hw .nil)
  sorted {as as' bs bs'} has hbs := by
    have hboth := List.rel_append has (.cons hw (.cons hw' hbs))
    have hnumbers := forall_mem_of_forall₂ hboth fun _ _ h => h.weight ▸ h.isNaN
    have hsorted := forall₂_sameWeighed_sort hboth
    rw [sort_exchange hlt hnumbers] at hsorted
    exact hsorted

end Interchangeable

/-! ### Rearranging keeps the order -/

/-- What is known of expressions of which the first can be rearranged to the second. -/
structure Follows (p q : Expr) : Prop where
  ordered {p' : Expr} : order p = .ok p' → ∃ q', order q = .ok q' ∧ p'.same q'
  weighed (c : Chain) {ws : List (BigFloat × Expr)} : List.Forall₂ Weighs (c.operands p) ws →
    ∃ ws', List.Forall₂ Weighs (c.operands q) ws' ∧ Interchangeable ws ws'

namespace Follows

lemma trans {r : Expr} (h : Follows p q) (h' : Follows q r) : Follows p r where
  ordered hp := by
    obtain ⟨q', hq, hsame⟩ := h.ordered hp
    obtain ⟨r', hr, hsame'⟩ := h'.ordered hq
    exact ⟨r', hr, same_trans hsame hsame'⟩
  weighed c ws hws := by
    obtain ⟨ws', hws', hi⟩ := h.weighed c hws
    obtain ⟨ws'', hws'', hi'⟩ := h'.weighed c hws'
    exact ⟨ws'', hws'', hi.trans hi'⟩

lemma weighed_of_leaf (hp : c.operands p = [p]) (hq : c.operands q = [q])
    (h : ∀ {p'}, order p = .ok p' → ∃ q', order q = .ok q' ∧ p'.same q')
    {ws : List (BigFloat × Expr)} (hws : List.Forall₂ Weighs (c.operands p) ws) :
    ∃ ws', List.Forall₂ Weighs (c.operands q) ws' ∧ Interchangeable ws ws' := by
  rw [hp] at hws
  obtain ⟨w, _, hw, hnil, rfl⟩ := List.forall₂_cons_left_iff.1 hws
  obtain rfl := List.forall₂_nil_left_iff.1 hnil
  obtain ⟨q', hq', hsame⟩ := h hw.1
  rw [hq]
  exact ⟨[(w.1, q')], .cons ⟨hq', weight_of_same hsame hw.2⟩ .nil,
    .of_forall₂ (.cons ⟨rfl, isNaN_weight hw.2, hsame⟩ .nil)⟩

lemma of_leaf (hp : ∀ c : Chain, c.operands p = [p]) (hq : ∀ c : Chain, c.operands q = [q])
    (h : ∀ {p'}, order p = .ok p' → ∃ q', order q = .ok q' ∧ p'.same q') : Follows p q where
  ordered := h
  weighed c _ hws := weighed_of_leaf (hp c) (hq c) h hws

/-- Nodes that are no chains keep their shape. -/
lemma binary {f : Expr → Expr → Expr} {l r l' r' : Expr}
    (hsum : ∀ l r, Chain.sum.operands (f l r) = [f l r])
    (hproduct : ∀ l r, Chain.product.operands (f l r) = [f l r])
    (horder : ∀ l r, order (f l r) = do return f (← order l) (← order r))
    (hsame : ∀ l r l' r', (f l r).same (f l' r') = (l.same l' && r.same r'))
    (hl : Follows l l') (hr : Follows r r') : Follows (f l r) (f l' r') := by
  have hleaf (l r : Expr) (c : Chain) : c.operands (f l r) = [f l r] := by
    cases c
    · exact hsum l r
    · exact hproduct l r
  refine of_leaf (hleaf l r) (hleaf l' r') fun {p'} hp => ?_
  rw [horder] at hp
  obtain ⟨x, hx, hp⟩ := bind_eq_ok_iff.1 hp
  obtain ⟨y, hy, hp⟩ := bind_eq_ok_iff.1 hp
  obtain rfl := pure_eq_ok_iff.1 hp
  obtain ⟨x', hx', hsamex⟩ := hl.ordered hx
  obtain ⟨y', hy', hsamey⟩ := hr.ordered hy
  refine ⟨f x' y', ?_, ?_⟩
  · rw [horder, hx', hy']
    rfl
  · rw [hsame, hsamex, hsamey]
    rfl

lemma binary_both {f : Expr → Expr → Expr} {l r l' r' : Expr}
    (hsum : ∀ l r, Chain.sum.operands (f l r) = [f l r])
    (hproduct : ∀ l r, Chain.product.operands (f l r) = [f l r])
    (horder : ∀ l r, order (f l r) = do return f (← order l) (← order r))
    (hsame : ∀ l r l' r', (f l r).same (f l' r') = (l.same l' && r.same r'))
    (hl : Follows l l' ∧ Follows l' l) (hr : Follows r r' ∧ Follows r' r) :
    Follows (f l r) (f l' r') ∧ Follows (f l' r') (f l r) :=
  ⟨binary hsum hproduct horder hsame hl.1 hr.1, binary hsum hproduct horder hsame hl.2 hr.2⟩

lemma const {a b : Number} (h : a.same b) : Follows (.const a) (.const b) := by
  refine of_leaf (fun c => by cases c <;> rfl) (fun c => by cases c <;> rfl) fun {p'} hp => ?_
  obtain rfl := Except.ok.inj hp
  exact ⟨.const b, rfl, h⟩

lemma var (x : String) : Follows (.var x) (.var x) := by
  refine of_leaf (fun c => by cases c <;> rfl) (fun c => by cases c <;> rfl) fun {p'} hp => ?_
  obtain rfl := Except.ok.inj hp
  exact ⟨.var x, rfl, by simp [same]⟩

/-- Nodes of another kind have no canonical order. -/
lemma other (m m' : Mark) (k k' : String) (es es' : List Expr) :
    Follows (.other m k es) (.other m' k' es') :=
  of_leaf (fun c => by cases c <;> rfl) (fun c => by cases c <;> rfl) fun hp => by cases hp

lemma neg (h : Follows e e') : Follows (.neg e) (.neg e') := by
  refine of_leaf (fun c => by cases c <;> rfl) (fun c => by cases c <;> rfl) fun {p'} hp => ?_
  obtain ⟨x, hx, hp⟩ := bind_eq_ok_iff.1 hp
  obtain rfl := pure_eq_ok_iff.1 hp
  obtain ⟨x', hx', hsame⟩ := h.ordered hx
  refine ⟨.neg x', ?_, hsame⟩
  show (do return Expr.neg (← order e')) = _
  rw [hx']
  rfl

/-- Chains with operands that are sorted alike have the same order. -/
lemma node {l r l' r' : Expr}
    (h : ∀ {ws}, List.Forall₂ Weighs (c.operands (c.node l r)) ws →
      ∃ ws', List.Forall₂ Weighs (c.operands (c.node l' r')) ws' ∧ Interchangeable ws ws') :
    Follows (c.node l r) (c.node l' r') := by
  have hordered {p'} (hp : order (c.node l r) = .ok p') :
      ∃ q', order (c.node l' r') = .ok q' ∧ p'.same q' := by
    obtain ⟨ws, hws, rfl⟩ := order_node_iff.1 hp
    obtain ⟨ws', hws', hi⟩ := h hws
    refine ⟨c.buildSorted ws', order_node_iff.2 ⟨ws', hws', rfl⟩, same_build ?_⟩
    have hsorted := hi.sorted .nil .nil
    simp only [List.nil_append, List.append_nil] at hsorted
    exact List.forall₂_map_left_iff.2
      (List.forall₂_map_right_iff.2 (hsorted.imp fun _ _ hw => hw.expr))
  refine ⟨hordered, fun d ws hws => ?_⟩
  by_cases hd : c = d
  · subst hd
    exact h hws
  · exact weighed_of_leaf (Chain.operands_node_of_ne hd l r)
      (Chain.operands_node_of_ne hd l' r') hordered hws

lemma append {l r l' r' : Expr} (hl : Follows l l') (hr : Follows r r') :
    Follows (c.node l r) (c.node l' r') := by
  refine node fun {ws} hws => ?_
  rw [Chain.operands_node] at hws ⊢
  obtain ⟨ws₁, ws₂, h₁, h₂, rfl⟩ := forall₂_append_left_iff.1 hws
  obtain ⟨ws₁', h₁', hi₁⟩ := hl.weighed c h₁
  obtain ⟨ws₂', h₂', hi₂⟩ := hr.weighed c h₂
  exact ⟨ws₁' ++ ws₂', List.rel_append h₁' h₂', hi₁.append hi₂⟩

/-- Operands that follow themselves have weights that follow themselves. -/
lemma weighs_self {ws : List (BigFloat × Expr)} (h : Follows e e)
    (hws : List.Forall₂ Weighs (c.operands e) ws) : List.Forall₂ SameWeighed ws ws := by
  obtain ⟨ws', hws', hi⟩ := h.weighed c hws
  exact hi.left

lemma of_operands_eq {l r l' r' : Expr} (h : Follows (c.node l r) (c.node l r))
    (heq : c.operands (c.node l r) = c.operands (c.node l' r')) :
    Follows (c.node l r) (c.node l' r') := by
  refine node fun {ws} hws => ⟨ws, ?_, .of_forall₂ (h.weighs_self hws)⟩
  rwa [← heq]

lemma exchange (he : Follows e e) (he' : Follows e' e') (hleaf : c.operands e = [e])
    (hleaf' : c.operands e' = [e']) (hdiffer : DifferInWeight e e') :
    Follows (c.node e e') (c.node e' e) := by
  refine node fun {ws} hws => ?_
  obtain ⟨w, w', hw, hw', hlt⟩ := hdiffer
  have hpair : List.Forall₂ Weighs (c.operands (c.node e e')) [w, w'] := by
    rw [Chain.operands_node, hleaf, hleaf']
    exact .cons hw (.cons hw' .nil)
  obtain rfl := forall₂_weighs_unique hpair hws
  have hself : SameWeighed w w := by
    have hone : List.Forall₂ Weighs (c.operands e) [w] := hleaf ▸ .cons hw .nil
    simpa using he.weighs_self hone
  have hself' : SameWeighed w' w' := by
    have hone : List.Forall₂ Weighs (c.operands e') [w'] := hleaf' ▸ .cons hw' .nil
    simpa using he'.weighs_self hone
  refine ⟨[w', w], ?_, ?_⟩
  · rw [Chain.operands_node, hleaf, hleaf']
    exact .cons hw' (.cons hw .nil)
  · rcases hlt with hlt | hlt
    · exact (Interchangeable.exchange hself' hself hlt).symm
    · exact .exchange hself hself' hlt

end Follows

lemma differInWeight_symm (h : DifferInWeight e e') : DifferInWeight e' e := by
  obtain ⟨w, w', hw, hw', hlt⟩ := h
  exact ⟨w', w, hw', hw, hlt.symm⟩

/-- A rearranged expression has the same canonical order. -/
lemma follows_of_rearranged (h : Rearranged p q) : Follows p q ∧ Follows q p := by
  induction h with
  | symm _ ih => exact ih.symm
  | trans _ _ ih ih' => exact ⟨ih.1.trans ih'.1, ih'.2.trans ih.2⟩
  | const h => exact ⟨.const h, .const (Number.same_symm h)⟩
  | var x => exact ⟨.var x, .var x⟩
  | other _ => exact ⟨.other _ _ _ _ _ _, .other _ _ _ _ _ _⟩
  | node c _ _ ihl ihr => exact ⟨ihl.1.append ihr.1, ihl.2.append ihr.2⟩
  | sub _ _ ihl ihr =>
    exact Follows.binary_both (fun _ _ => rfl) (fun _ _ => rfl) (fun _ _ => rfl)
      (fun _ _ _ _ => rfl) ihl ihr
  | div _ _ ihn ihd =>
    exact Follows.binary_both (fun _ _ => rfl) (fun _ _ => rfl) (fun _ _ => rfl)
      (fun _ _ _ _ => rfl) ihn ihd
  | pow _ _ ihb ihp =>
    exact Follows.binary_both (fun _ _ => rfl) (fun _ _ => rfl) (fun _ _ => rfl)
      (fun _ _ _ _ => rfl) ihb ihp
  | log _ _ ihb iha =>
    exact Follows.binary_both (fun _ _ => rfl) (fun _ _ => rfl) (fun _ _ => rfl)
      (fun _ _ _ _ => rfl) ihb iha
  | neg _ ih => exact ⟨ih.1.neg, ih.2.neg⟩
  | regroup c _ _ _ ih₁ ih₂ ih₃ =>
    have hops (e₁ e₂ e₃ : Expr) : c.operands (c.node (c.node e₁ e₂) e₃) =
        c.operands (c.node e₁ (c.node e₂ e₃)) := by
      simp only [Chain.operands_node, List.append_assoc]
    exact ⟨((ih₁.1.append ih₂.1).append ih₃.1).of_operands_eq (hops _ _ _),
      (ih₁.1.append (ih₂.1.append ih₃.1)).of_operands_eq (hops _ _ _).symm⟩
  | exchange c _ _ hleaf hleaf' hdiffer ih ih' =>
    exact ⟨ih.1.exchange ih'.1 hleaf hleaf' hdiffer,
      ih'.1.exchange ih.1 hleaf' hleaf (differInWeight_symm hdiffer)⟩

end SymbolicAlgebra
