import SymbolicAlgebra.Proofs.Collectible
import SymbolicAlgebra.Proofs.NormalForm.Terms

/-!
# Sums of collectible terms

A sum of collectible operands in normal form is in normal form (`sum_isReady`). What is left of a
term without its coefficient is no sum, so the collected terms are terms still when they are put
together again, with the keys by which they were collected.
-/

namespace SymbolicAlgebra

open SymbolicAlgebra.Expr

variable {e r t x : Expr} {c : Chain} {k : Number} {es rs : List Expr}

/-- A collectible expression in normal form. -/
structure Expr.IsReady (e : Expr) : Prop where
  normal : e.Normal
  collectible : e.IsCollectible

/-- An operand of a collectible chain, in normal form. -/
structure Expr.IsReadyOperand (c : Chain) (e : Expr) : Prop where
  normal : e.NormalOperand c
  collectible : e.IsCollectibleOperand c

lemma Expr.IsReady.mem_operands (h : e.IsReady) (he : c = .product → e.isSumLike = false)
    (hx : x ∈ c.operands e) : x.IsReadyOperand c where
  normal := (h.normal.operands c).1 x hx
  collectible := Chain.isCollectible_of_mem_operands ⟨h.collectible, he⟩ hx

namespace Chain

/-- The constant of a chain of exact numbers is exact. -/
lemma isExact_foldl_shift (hk : k.isExact) (hes : ∀ d, .const d ∈ es → d.isExact) :
    (es.foldl c.shift k).isExact := by
  induction es generalizing k with
  | nil => exact hk
  | cons e es ih =>
    have hrest : ∀ d, .const d ∈ es → d.isExact := fun d hd => hes d (.tail e hd)
    refine ih ?_ hrest
    cases e with
    | const d =>
      have hd := hes d List.mem_cons_self
      cases c with
      | sum => exact Number.isExact_add hk hd
      | product => exact Number.isExact_mul hk hd
    | neg x =>
      cases c with
      | sum => exact hk
      | product => exact Number.isExact_neg hk
    | _ => cases c <;> exact hk

end Chain

namespace Simplify

/-! ### Terms -/

/-- What is left of a term without its coefficient. -/
structure IsBareTerm (t : Expr) : Prop where
  ready : t.IsReady
  notSum : t.isSumLike = false
  notConstant : t.isConstant = false
  split : splitCoefficient t = (t, 1)

lemma IsBareTerm.isTermBody (h : IsBareTerm t) : IsTermBody t :=
  ⟨h.ready.normal, h.notConstant, h.split⟩

lemma IsTermBody.isBareTerm (h : IsTermBody t) (hc : t.IsCollectible) (hs : t.isSumLike = false) :
    IsBareTerm t :=
  ⟨⟨h.normal, hc⟩, hs, h.notConstant, h.split⟩

lemma isBareTerm_splitCoefficient (he : e.IsReadyOperand .sum) (hc : e.isConstant = false) :
    IsBareTerm (splitCoefficient e).1 ∧ (splitCoefficient e).2.isExact := by
  obtain ⟨⟨hn, hops⟩, hcollect, -⟩ := he
  have hbody := isTermBody_splitCoefficient hn hc
  rcases splitCoefficient_of_normal hn with hsplit | ⟨c, m, rfl⟩ | ⟨x, rfl⟩
  · rw [hsplit] at hbody ⊢
    refine ⟨hbody.isBareTerm hcollect ?_, rfl⟩
    cases e with
    | add l m => exact absurd hops (Chain.sum.operands_node_ne l m _)
    | sub l m => exact hn.elim
    | neg x => cases hsplit
    | _ => rfl
  · obtain ⟨⟨hexact, -⟩, hm, hsum⟩ := hcollect
    exact ⟨hbody.isBareTerm hm hsum, hexact⟩
  · have hsign := hn.1
    refine ⟨hbody.isBareTerm hcollect ?_, rfl⟩
    show x.isSumLike = false
    cases x <;> first | rfl | cases hsign

/-- Like terms with their key and an exact coefficient. -/
structure LikeTerms.IsReady (t : LikeTerms) : Prop where
  term : IsBareTerm t.term
  key : t.term.likeKey = .ok t.key
  coefficient : t.coefficient.isExact

/-- Like terms become a term with their key. -/
lemma LikeTerms.IsReady.toTerm {t : LikeTerms} (ht : t.IsReady) (hz : t.coefficient.isZero = false)
    (h : Rules.toTerm t = .ok r) :
    r.IsReadyOperand .sum ∧ r.isConstant = false ∧ termKey r = .ok t.key := by
  obtain ⟨⟨⟨hn, hcollect⟩, hsum, hconst, hsplit⟩, hkey, hc⟩ := ht
  rw [Rules.toTerm] at h
  split at h
  · obtain rfl := Except.ok.inj h
    refine ⟨⟨⟨hn, operands_sum_of_isSumLike hsum⟩, hcollect, by simp⟩, hconst, ?_⟩
    rw [termKey, hsplit]
    exact hkey
  · next hone =>
    have hterm : IsBareTerm t.term := ⟨⟨hn, hcollect⟩, hsum, hconst, hsplit⟩
    rcases hterm.isTermBody.simplify_mul hkey hc hz (by simpa using hone) with
      ⟨-, hsign, hneg⟩ | hmul
    · obtain rfl := Except.ok.inj (hneg.symm.trans h)
      exact ⟨⟨⟨⟨hsign, hn⟩, rfl⟩, hcollect, by simp⟩, rfl, hkey⟩
    · obtain rfl := Except.ok.inj ((simplify_of_normal hmul).symm.trans h)
      exact ⟨⟨⟨hmul, rfl⟩, ⟨⟨hc, rfl⟩, hcollect, hsum⟩, by simp⟩, rfl, hkey⟩

lemma isReady_collect {ts : List LikeTerms}
    (hes : ∀ e ∈ es, e.IsReadyOperand .sum ∧ e.isConstant = false)
    (h : termCollector.collect es [] = .ok ts) :
    termCollector.Distinct ts ∧ ∀ t ∈ ts, t.IsReady := by
  refine Collector.collect_spec (fun _ _ => rfl) (fun e k he hk => ?_) (fun t e k ht he _ _ => ?_)
    hes (by simp) .nil h
  · obtain ⟨hterm, hc⟩ := isBareTerm_splitCoefficient he.1 he.2
    exact ⟨hterm, hk, Number.isExact_add rfl hc⟩
  · obtain ⟨-, hc⟩ := isBareTerm_splitCoefficient he.1 he.2
    exact ⟨ht.term, ht.key, Number.isExact_add ht.coefficient hc⟩

/-! ### Sums -/

/-- What was gathered of unlike terms is put together to a sum in normal form. -/
lemma toSum_isReady (hk : k.isExact) (hrs : ∀ e ∈ rs, e.IsReadyOperand .sum ∧ e.isConstant = false)
    (hunlike : Unlike termKey rs) : (Gathered.toSum ⟨k, rs⟩).IsReady := by
  have hconst := fun e he => (hrs e he).2
  have hops : ∀ e ∈ .const k :: rs, e.IsReadyOperand .sum :=
    List.forall_mem_cons.2 ⟨⟨⟨trivial, rfl⟩, hk, by simp⟩, fun e he => (hrs e he).1⟩
  have hcollect := Chain.isCollectible_build fun e he => (hops e he).collectible
  unfold Gathered.toSum
  split
  · exact ⟨trivial, hk⟩
  · next hne =>
    split
    · refine ⟨normal_build (fun e he => (hrs e he).1.normal)
        (isNormalSum_of_unlike hconst hunlike) hne, ?_⟩
      exact (Chain.isCollectible_build fun e he => (hrs e he).1.collectible).1
    · next hz =>
      have hsum : IsNormalSum (.const k :: rs) :=
        isNormalSum_const (by simpa using hz) (Number.rounded_of_isExact hk) hconst hunlike
      exact ⟨normal_build (fun e he => (hops e he).normal) hsum (by simp), hcollect.1⟩

/-- A sum of collectible operands in normal form is one in normal form. -/
theorem sum_isReady (hes : ∀ e ∈ es, e.IsReadyOperand .sum) (h : Rules.sum es = .ok r) :
    r.IsReady := by
  obtain ⟨s, hs, h⟩ := bind_eq_ok_iff.1 h
  obtain ⟨g, hg, h⟩ := bind_eq_ok_iff.1 h
  obtain rfl := pure_eq_ok_iff.1 h
  rw [foldlM_add_eq] at hs
  obtain ⟨ts, hts, hs⟩ := bind_eq_ok_iff.1 hs
  obtain rfl := pure_eq_ok_iff.1 hs
  obtain ⟨rs, hrs, hg⟩ := bind_eq_ok_iff.1 hg
  have hrest : ∀ e ∈ es.filterMap Chain.sum.rest?, e.IsReadyOperand .sum ∧ e.isConstant = false :=
    fun e he => ⟨hes e (mem_of_mem_rest_sum he), not_isConstant_of_mem_rest he⟩
  obtain ⟨hdistinct, hready⟩ := isReady_collect hrest hts
  have hterms : List.Forall₂ (fun t r => (r.IsReadyOperand .sum ∧ r.isConstant = false) ∧
      termKey r = .ok t.key) (ts.filter fun t => !t.coefficient.isZero) rs := by
    have hfilter : ∀ t ∈ ts.filter fun t => !t.coefficient.isZero,
        t.IsReady ∧ t.coefficient.isZero = false := fun t ht =>
      ⟨hready t (List.mem_of_mem_filter ht), by simpa using (List.mem_filter.1 ht).2⟩
    refine ((List.forall₂_and_left _ _).2 ⟨hfilter, mapM_eq_ok_iff.1 hrs⟩).imp fun t r htr => ?_
    obtain ⟨hr, hconst, hkey⟩ := htr.1.1.toTerm htr.1.2 htr.2
    exact ⟨⟨hr, hconst⟩, hkey⟩
  have hops := forall_mem_of_forall₂ hterms fun _ _ h => h.1
  have hunlike := Collector.Distinct.unlike (hdistinct.sublist List.filter_sublist)
    (hterms.imp fun t r htr => .inr htr.2)
  rw [filter_of_not_isConstant fun e he => (hops e he).2] at hunlike
  rw [Gathered.foldl_add _ fun e he => (hops e he).2] at hg
  obtain rfl := pure_eq_ok_iff.1 hg
  exact toSum_isReady (Chain.isExact_foldl_shift rfl fun d hd => (hes _ hd).collectible.1)
    hops hunlike

end Simplify

end SymbolicAlgebra
