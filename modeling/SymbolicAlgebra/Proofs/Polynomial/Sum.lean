import SymbolicAlgebra.Proofs.NormalForm.Sum
import SymbolicAlgebra.Proofs.Polynomial.Product
import SymbolicAlgebra.Proofs.Representative

/-!
# Simplification of expanded polynomials

The operands of a simplified sum of monomials are constants and terms. Terms of the same exponents
are alike but for their coefficients, so they have one key and are collected
(`areLabelled_addTerm`); what is left are terms of different exponents. So an expanded polynomial is
simplified to a collected one (`isCollected_of_simplify`).
-/

namespace SymbolicAlgebra

open Simplify

variable {e k r t u l m x : Expr} {es ts : List Expr} {c : Number} {q v : Rat}
variable {p : (String →₀ Nat) × Rat} {ps : List ((String →₀ Nat) × Rat)} {d : String →₀ Nat}

/-! ### Terms without their coefficients -/

lemma IsMonomial.isReadable (h : IsMonomial e) : e.IsReadable := by
  induction h with
  | const hc => exact hc
  | var hx => exact hx
  | pow hx hc => exact ⟨hx, Number.isExact_of_exactValue? hc⟩
  | mul _ _ ihl ihr => exact ⟨ihl, ihr⟩
  | neg _ ih => exact ih

lemma IsExpanded.isReadable (h : IsExpanded e) : e.IsReadable := by
  induction h with
  | monomial he => exact he.isReadable
  | neg _ ih => exact ih
  | _ _ _ ihl ihr => exact ⟨ihl, ihr⟩

lemma isMonomial_link (he : IsMonomial e) (hes : ∀ x ∈ es, IsMonomial x) :
    IsMonomial (Chain.product.link e es) := by
  induction es generalizing e with
  | nil => exact he
  | cons x es ih => exact .mul he (ih (hes x List.mem_cons_self) fun y hy => hes y (.tail x hy))

lemma IsSummand.isMonomial (h : IsSummand r) : IsMonomial r := by
  rcases h.cases with ⟨k, hk, rfl⟩ | ⟨f, p, hf, rfl | rfl⟩ | ⟨e, e', es, rfl, he, hes⟩
  · exact .const hk
  · exact hf.isMonomial
  · exact .neg hf.isMonomial
  · have hes (f : Expr) (hf : f ∈ e' :: es) : IsMonomial f := by
      obtain ⟨p, hp⟩ := hes f hf
      exact hp.isMonomial
    refine .mul ?_ (isMonomial_link (hes e' List.mem_cons_self) fun x hx => hes x (.tail e' hx))
    rcases he with ⟨k, hk, rfl⟩ | ⟨p, hp⟩
    · exact .const hk
    · exact hp.isMonomial

lemma IsTerm.isMonomial (h : IsTerm t p) : IsMonomial t :=
  IsSummand.isMonomial (.inr ⟨p, h⟩)

/-- Powers of different variables are a term of the coefficient one. -/
lemma isTerm_build {fs : List Expr} {ls : List (String × Nat)} (hne : fs ≠ [])
    (h : AreLetterPowers fs ls) : IsTerm (Chain.product.build fs) (exponents ls, 1) := by
  have hone := toProduct_eq (Number.exactValue?_ofNat 1) (by simp) h hne
  rw [if_neg (by norm_num), if_pos (by simp)] at hone
  exact ⟨1, fs, ls, hone.symm, rfl, one_ne_zero, hne, h, rfl⟩

lemma splitCoefficient_build {fs : List Expr} {ls : List (String × Nat)} (hne : fs ≠ [])
    (h : AreLetterPowers fs ls) :
    splitCoefficient (Chain.product.build fs) = (Chain.product.build fs, 1) := by
  have hpowers := h.exists_of_mem
  match fs, hne with
  | [f], _ =>
    obtain ⟨l, hf⟩ := hpowers f (by simp)
    cases hf <;> rfl
  | f :: f' :: fs, _ =>
    obtain ⟨l, hf⟩ := hpowers f (by simp)
    obtain ⟨l', hf'⟩ := hpowers f' (by simp)
    cases fs <;> cases hf <;> cases hf' <;> rfl

/-- What a term is among the operands of a sum. -/
structure IsSplit (t : Expr) (p : (String →₀ Nat) × Rat) : Prop where
  isConstant : t.isConstant = false
  operands : Chain.sum.operands t = [t]
  coefficient : (splitCoefficient t).2.exactValue? = some p.2
  term : IsTerm (splitCoefficient t).1 (p.1, 1)

lemma IsTerm.isSplit (h : IsTerm t p) : IsSplit t p := by
  obtain ⟨k, fs, ls, rfl, hk, hc, hne, hfs, hls⟩ := h
  have hbuild := isTerm_build hne hfs
  rw [hls] at hbuild
  have hsplit := splitCoefficient_build hne hfs
  rw [toProduct_eq hk hc hfs hne]
  obtain ⟨f, fs, rfl⟩ := List.exists_cons_of_ne_nil hne
  split
  · next hminus => exact ⟨rfl, rfl, congrArg some (by rw [hminus.1]; rfl), hbuild⟩
  split
  · next hone =>
    obtain ⟨l, hf⟩ := hfs.exists_of_mem f List.mem_cons_self
    constructor
    · cases fs with
      | nil => cases hf <;> rfl
      | cons => rfl
    · cases fs with
      | nil => exact hf.operands .sum
      | cons => rfl
    · rw [hsplit, hone]
      rfl
    · rw [hsplit]
      exact hbuild
  · exact ⟨rfl, rfl, hk, hbuild⟩

/-- A term with another coefficient. -/
lemma IsTerm.exists_scaled (h : IsTerm t p) (hq : q ≠ 0) : ∃ t', IsTerm t' (p.1, q) := by
  obtain ⟨k, fs, ls, -, -, -, hne, hfs, hls⟩ := h
  exact ⟨_, .rational q, fs, ls, rfl, rfl, hq, hne, hfs, hls⟩

lemma IsTerm.isCollected (h : IsTerm t p) : IsCollected t 0 [p] :=
  ⟨0, [t], rfl, rfl, .cons h .nil, by simp⟩

lemma isCollected_of_isValue (h : IsValue e q) : IsCollected e q [] := by
  obtain ⟨k, rfl, hk⟩ := h
  exact ⟨k, [], rfl, hk, .nil, .nil⟩

lemma IsSummand.isCollected (h : IsSummand r) : ∃ q ps, IsCollected r q ps := by
  rcases h with ⟨q, hq⟩ | ⟨p, hp⟩
  · exact ⟨q, [], isCollected_of_isValue hq⟩
  · exact ⟨0, [p], hp.isCollected⟩

/-- A collected polynomial with one value is a constant. -/
lemma IsCollected.isValue (h : IsCollected r q ps) (hv : ∀ ν, r.value ν = some v) :
    IsValue r v := by
  have hconst : IsValue (.const (.rational v)) v := ⟨.rational v, rfl, rfl⟩
  obtain ⟨rfl, hperm⟩ := h.labels_of_value_eq (isCollected_of_isValue hconst) hv
  obtain ⟨k, ts, rfl, hk, hts⟩ := h
  have hps := List.perm_nil.1 hperm
  obtain rfl := List.forall₂_nil_right_iff.1 (hps ▸ hts.terms)
  exact ⟨k, rfl, hk⟩

/-- A constant or a term with the values of a term has its label. -/
lemma IsSummand.isTerm (h : IsSummand r) (ht : IsTerm t p) (heq : ∀ ν, r.value ν = t.value ν) :
    IsTerm r p := by
  rcases h with ⟨c, hc⟩ | ⟨p', hp'⟩
  · obtain ⟨-, hperm⟩ := (isCollected_of_isValue hc).labels_of_value_eq ht.isCollected heq
    exact absurd hperm.length_eq (by simp)
  · obtain ⟨-, hperm⟩ := hp'.isCollected.labels_of_value_eq ht.isCollected heq
    rwa [← List.singleton_inj.1 (List.perm_singleton.1 hperm)]

/-- An expanded polynomial is simplified to one with the same values. -/
lemma IsExpanded.value_eq_of_simplify (h : IsExpanded e) (hr : simplify e = .ok r) (ν : Valuation) :
    r.value ν = e.value ν := by
  obtain ⟨v, hv⟩ := h.exists_value ν
  rw [hv]
  exact (simplify_ensures hv).1 r (congrArg some hr)

/-- A monomial with the values of a term is simplified to a term with its label. -/
lemma exists_simplify_isTerm (h : IsMonomial e) (ht : IsTerm t p)
    (heq : ∀ ν, e.value ν = t.value ν) : ∃ r, simplify e = .ok r ∧ IsTerm r p := by
  obtain ⟨r, hr, hsummand⟩ := exists_simplify_isSummand h
  refine ⟨r, hr, hsummand.isTerm ht fun ν => ?_⟩
  rw [(IsExpanded.monomial h).value_eq_of_simplify hr, heq]

/-! ### Representatives of terms -/

/-- Exponents whose terms have representatives. -/
def IsKeyed (d : String →₀ Nat) : Prop :=
  ∃ t, IsTerm t (d, 1) ∧ t.HasKey

lemma IsTerm.isKeyed (h : IsTerm t (d, 1)) (hk : t.likeKey = .ok k) : IsKeyed d :=
  ⟨t, h, (Expr.exists_likeKey_iff h.isMonomial.isReadable.isExact).1 ⟨k, hk⟩⟩

namespace Simplify

/-! ### Collecting terms -/

/-- Like terms that have the same exponents. -/
structure IsLikeTerm (t : LikeTerms) (d : String →₀ Nat) : Prop where
  term : IsTerm t.term (d, 1)
  key : t.term.likeKey = .ok t.key
  coefficient : t.coefficient.isExact

/-- A term is added to those of the same exponents, because its key is theirs. -/
lemma areLabelled_addTerm {s s' : CollectedSum} (h : AreLabelled IsLikeTerm s.terms)
    (ht : IsSplit t p) (hs : s.add t = .ok s') :
    s'.constant = s.constant ∧ AreLabelled IsLikeTerm s'.terms := by
  obtain ⟨hconst, -, hq, hterm⟩ := ht
  rw [s.add_eq_add hconst, Collector.add] at hs
  obtain ⟨as, has, hs⟩ := bind_eq_ok_iff.1 hs
  obtain ⟨key, hkey, has⟩ := bind_eq_ok_iff.1 has
  obtain rfl := pure_eq_ok_iff.1 hs
  obtain rfl := pure_eq_ok_iff.1 has
  have hexact := Number.isExact_of_exactValue? hq
  refine ⟨rfl, h.insert ⟨hterm, hkey, Number.isExact_add rfl hexact⟩ ?_ ?_⟩
  · intro u d hu
    exact ⟨hu.term, hu.key, Number.isExact_add hu.coefficient hexact⟩
  · intro u hu
    exact Expr.same_of_alike (hu.term.alike hterm) hu.term.isMonomial.isReadable
      hterm.isMonomial.isReadable hu.key hkey

lemma areLabelled_foldlM {s s' : CollectedSum} (hes : ∀ x ∈ es, IsSummand x)
    (hk : s.constant.isExact) (hs : AreLabelled IsLikeTerm s.terms)
    (h : es.foldlM CollectedSum.add s = .ok s') :
    s'.constant.isExact ∧ AreLabelled IsLikeTerm s'.terms := by
  induction es generalizing s with
  | nil =>
    obtain rfl := pure_eq_ok_iff.1 h
    exact ⟨hk, hs⟩
  | cons e es ih =>
    have hrest (x : Expr) (hx : x ∈ es) := hes x (.tail e hx)
    obtain ⟨s₁, hs₁, h⟩ := bind_eq_ok_iff.1 h
    rcases hes e List.mem_cons_self with ⟨q, c, rfl, hc⟩ | ⟨p, hp⟩
    · obtain rfl := pure_eq_ok_iff.1 hs₁
      exact ih (s := { s with constant := s.constant + c }) hrest
        (Number.isExact_add hk (Number.isExact_of_exactValue? hc)) hs h
    · obtain ⟨hconst, hs⟩ := areLabelled_addTerm hs hp.isSplit hs₁
      exact ih hrest (hconst ▸ hk) hs h

/-! ### Gathering terms -/

/-- Like terms are put together to a term of the same exponents. -/
lemma IsLikeTerm.exists_toTerm {u : LikeTerms} (h : IsLikeTerm u d)
    (hq : u.coefficient.exactValue? = some q) (hne : q ≠ 0) :
    ∃ r, Rules.toTerm u = .ok r ∧ IsTerm r (d, q) := by
  rw [Rules.toTerm]
  split
  · next hone =>
    obtain rfl := (Number.isOne_iff hq).1 hone
    exact ⟨u.term, rfl, h.term⟩
  · have hmonomial : IsMonomial (.mul (.const u.coefficient) u.term) :=
      .mul (.const h.coefficient) h.term.isMonomial
    obtain ⟨t, ht⟩ := h.term.exists_scaled hne
    refine exists_simplify_isTerm hmonomial ht fun ν => ?_
    rw [ht.value_eq, Expr.value_mul_eq_some_iff]
    refine ⟨q, _, hq, h.term.value_eq ν, ?_⟩
    rw [MvPolynomial.eval_monomial, MvPolynomial.eval_monomial, one_mul]

lemma exists_mapM_toTerm {us : List LikeTerms} (h : AreLabelled IsLikeTerm us) :
    ∃ ts ps, (us.filter fun u => !u.coefficient.isZero).mapM Rules.toTerm = .ok ts ∧
      AreTerms ts ps ∧ ∀ p ∈ ps, IsKeyed p.1 := by
  obtain ⟨ds, hds, hnodup⟩ := h
  suffices ∃ ts ps, (us.filter fun u => !u.coefficient.isZero).mapM Rules.toTerm = .ok ts ∧
      List.Forall₂ IsTerm ts ps ∧ (ps.map Prod.fst).Sublist ds ∧ ∀ p ∈ ps, IsKeyed p.1 by
    obtain ⟨ts, ps, hts, hps, hsub, hkeyed⟩ := this
    exact ⟨ts, ps, hts, ⟨hps, hnodup.sublist hsub⟩, hkeyed⟩
  clear hnodup
  induction hds with
  | nil => exact ⟨[], [], rfl, .nil, .slnil, by simp⟩
  | @cons u d us ds hu _ ih =>
    obtain ⟨ts, ps, hts, hps, hsub, hkeyed⟩ := ih
    by_cases hzero : u.coefficient.isZero
    · rw [List.filter_cons_of_neg (by simpa using hzero)]
      exact ⟨ts, ps, hts, hps, hsub.cons d, hkeyed⟩
    · rw [List.filter_cons_of_pos (by simpa using hzero)]
      obtain ⟨q, hq⟩ := Number.exists_exactValue?_of_isExact hu.coefficient
      have hne : q ≠ 0 := fun h => hzero ((Number.isZero_iff hq).2 h)
      obtain ⟨t, ht, hterm⟩ := hu.exists_toTerm hq hne
      refine ⟨t :: ts, (d, q) :: ps, ?_, .cons hterm hps, hsub.cons_cons d, ?_⟩
      · rw [List.mapM_cons, ht, hts]
        rfl
      · exact List.forall_mem_cons.2 ⟨hu.term.isKeyed hu.key, hkeyed⟩

/-- A sum of constants and terms is collected, once the representatives are found. -/
lemma exists_sum_isCollected {s : CollectedSum} (hes : ∀ x ∈ es, IsSummand x)
    (hs : es.foldlM CollectedSum.add ⟨0, []⟩ = .ok s) :
    ∃ r, Rules.sum es = .ok r ∧ ∃ q ps, IsCollected r q ps ∧ ∀ p ∈ ps, IsKeyed p.1 := by
  obtain ⟨hk, hterms⟩ := areLabelled_foldlM hes rfl ⟨[], .nil, .nil⟩ hs
  obtain ⟨ts, ps, hts, hps, hkeyed⟩ := exists_mapM_toTerm hterms
  obtain ⟨q, hq⟩ := Number.exists_exactValue?_of_isExact hk
  have hconst : ∀ t ∈ ts, t.isConstant = false :=
    forall_mem_of_forall₂ hps.terms.flip fun _ _ ht => (IsTerm.isSplit ht).isConstant
  have hgather : Rules.gatherTerms s = .ok ⟨s.constant, ts⟩ := by
    rw [Rules.gatherTerms, hts]
    exact congrArg Except.ok (Gathered.foldl_add _ hconst)
  refine ⟨Gathered.toSum ⟨s.constant, ts⟩, ?_, q, ps, ⟨s.constant, ts, rfl, hq, hps⟩, hkeyed⟩
  exact bind_eq_ok_iff.2 ⟨s, hs, bind_eq_ok_iff.2 ⟨_, hgather, rfl⟩⟩

lemma isCollected_of_sum (hes : ∀ x ∈ es, IsSummand x) (h : Rules.sum es = .ok r) :
    ∃ q ps, IsCollected r q ps := by
  obtain ⟨s, hs, -⟩ := bind_eq_ok_iff.1 h
  obtain ⟨q, ps, hcollected, -⟩ := of_exists_eq_ok (exists_sum_isCollected hes hs) h
  exact ⟨q, ps, hcollected⟩

end Simplify

/-! ### Expanded polynomials -/

lemma operands_build_of_leaves (hes : ∀ x ∈ es, Chain.sum.operands x = [x]) (hne : es ≠ []) :
    Chain.sum.operands (Chain.sum.build es) = es := by
  rw [Chain.operands_build _ hne, Chain.flatMap_operands hes]

/-- The operands of a collected polynomial are constants and its terms. -/
lemma IsCollected.mem_operands (h : IsCollected r q ps) :
    ∀ x ∈ Chain.sum.operands r, (∃ c, IsValue x c) ∨ ∃ p ∈ ps, IsTerm x p := by
  obtain ⟨k, ts, rfl, hk, hts⟩ := h
  have hlabels := (List.forall₂_and_left ps ts).2 ⟨fun _ hp => hp, hts.terms.flip⟩
  have hterms : ∀ t ∈ ts, ∃ p ∈ ps, IsTerm t p :=
    forall_mem_of_forall₂ hlabels fun p _ ⟨hp, ht⟩ => ⟨p, hp, ht⟩
  have hleaf (t : Expr) (ht : t ∈ ts) : Chain.sum.operands t = [t] := by
    obtain ⟨p, -, hp⟩ := hterms t ht
    exact hp.isSplit.operands
  have hleaf' : ∀ x ∈ .const k :: ts, Chain.sum.operands x = [x] :=
    List.forall_mem_cons.2 ⟨rfl, hleaf⟩
  have hsummand : ∀ x ∈ .const k :: ts, (∃ c, IsValue x c) ∨ ∃ p ∈ ps, IsTerm x p :=
    List.forall_mem_cons.2 ⟨.inl ⟨q, k, rfl, hk⟩, fun t ht => .inr (hterms t ht)⟩
  cases ts with
  | nil =>
    intro x hx
    exact hsummand x hx
  | cons t ts =>
    rw [toSum_cons]
    split
    · rw [operands_build_of_leaves hleaf (by simp)]
      intro x hx
      exact .inr (hterms x hx)
    · rw [operands_build_of_leaves hleaf' (by simp)]
      exact hsummand

lemma IsCollected.operands (h : IsCollected r q ps) : ∀ x ∈ Chain.sum.operands r, IsSummand x := by
  intro x hx
  exact (h.mem_operands x hx).imp_right fun ⟨p, _, hp⟩ => ⟨p, hp⟩

lemma isExpanded_of_operands (h : ∀ x ∈ Chain.sum.operands e, IsMonomial x) : IsExpanded e := by
  induction e using Chain.induct .sum with
  | leaf e hops => exact .monomial (h e (by simp [hops]))
  | node l m ihl ihm =>
    rw [Chain.operands_node] at h
    refine .add (ihl fun x hx => h x (by simp [hx])) (ihm fun x hx => h x (by simp [hx]))

lemma IsCollected.isExpanded (h : IsCollected r q ps) : IsExpanded r :=
  isExpanded_of_operands fun x hx => (h.operands x hx).isMonomial

lemma isExpanded_add_iff : IsExpanded (.add l m) ↔ IsExpanded l ∧ IsExpanded m := by
  constructor
  · intro h
    cases h with
    | monomial he => cases he
    | add hl hm => exact ⟨hl, hm⟩
  · rintro ⟨hl, hm⟩
    exact .add hl hm

lemma IsExpanded.of_mem_operands (h : IsExpanded e) (hx : x ∈ Chain.sum.operands e) :
    IsExpanded x := by
  induction e using Chain.induct .sum with
  | leaf e hops =>
    rw [hops, List.mem_singleton] at hx
    exact hx ▸ h
  | node l m ihl ihm =>
    obtain ⟨hl, hm⟩ := isExpanded_add_iff.1 h
    rw [Chain.operands_node, List.mem_append] at hx
    exact hx.elim (ihl hl) (ihm hm)

/-- Expanded polynomials below a rank are simplified to collected ones. -/
def CollectsBelow (n : Nat) : Prop :=
  ∀ e r, e.rank < n → IsExpanded e → simplify e = .ok r → ∃ q ps, IsCollected r q ps

lemma isCollected_of_add (hl : IsExpanded l) (hm : IsExpanded m)
    (ih : CollectsBelow (Expr.add l m).rank) (hr : simplify (.add l m) = .ok r) :
    ∃ q ps, IsCollected r q ps := by
  rw [simplify_add] at hr
  obtain ⟨es, hes, hr⟩ := bind_eq_ok_iff.1 hr
  obtain ⟨rs, hrs, hes⟩ := bind_eq_ok_iff.1 hes
  have hparts (x : Expr) (hx : x ∈ Chain.sum.operands (.add l m)) :
      IsExpanded x ∧ x.rank < (Expr.add l m).rank :=
    ⟨(IsExpanded.add hl hm).of_mem_operands hx, Chain.rank_lt_of_mem_operands (c := .sum) hx⟩
  have hrs := (List.forall₂_and_left _ _).2 ⟨hparts, mapM_eq_ok_iff.1 hrs⟩
  have hcollected : ∀ y ∈ rs, ∃ q ps, IsCollected y q ps :=
    forall_mem_of_forall₂ hrs fun x y ⟨⟨hx, hlt⟩, hy⟩ => ih x y hlt hx hy
  refine isCollected_of_sum (fun z hz => ?_) hr
  rw [← pure_eq_ok_iff.1 hes] at hz
  obtain ⟨y, hy, hz⟩ := List.mem_flatMap.1 hz
  obtain ⟨q, ps, hy⟩ := hcollected y hy
  exact hy.operands z hz

lemma isCollected_of_sub (hl : IsExpanded l) (hm : IsExpanded m)
    (ih : CollectsBelow (Expr.sub l m).rank) (hr : simplify (.sub l m) = .ok r) :
    ∃ q ps, IsCollected r q ps := by
  rw [simplify_sub] at hr
  obtain ⟨l', hl', hr⟩ := bind_eq_ok_iff.1 hr
  obtain ⟨m', hm', hr⟩ := bind_eq_ok_iff.1 hr
  obtain ⟨n', hn', hr⟩ := bind_eq_ok_iff.1 hr
  have hrankl := (reduces_of_simplify hl').1
  have hrankm := (reduces_of_simplify hm').1
  have hrankn := (reduces_of_simplify hn').1
  simp only [CollectsBelow, Expr.rank] at ih hrankn
  obtain ⟨_, _, hl'⟩ := ih l l' (by omega) hl hl'
  obtain ⟨_, _, hm'⟩ := ih m m' (by omega) hm hm'
  obtain ⟨_, _, hn'⟩ := ih (.neg m') n' (by simp only [Expr.rank]; omega) (.neg hm'.isExpanded) hn'
  exact ih (.add l' n') r (by simp only [Expr.rank]; omega) (.add hl'.isExpanded hn'.isExpanded) hr

lemma isCollected_of_neg (hu : IsExpanded u) (ih : CollectsBelow (Expr.neg u).rank)
    (hr : simplify (.neg u) = .ok r) : ∃ q ps, IsCollected r q ps := by
  rw [simplify_neg] at hr
  obtain ⟨u', hu', hr⟩ := bind_eq_ok_iff.1 hr
  have hrank := (reduces_of_simplify hu').1
  have hpos := u.two_le_rank
  simp only [CollectsBelow, Expr.rank] at ih
  obtain ⟨_, _, hu'⟩ := ih u u' (by omega) hu hu'
  cases u' using Chain.induct .sum with
  | leaf u' hops =>
    have hsummand := hu'.operands u' (by simp [hops])
    exact (of_exists_eq_ok (exists_opposite_isSummand hsummand) hr).isCollected
  | node l m =>
    obtain ⟨hl, hm⟩ := isExpanded_add_iff.1 hu'.isExpanded
    have hnode : (Chain.sum.node l m).rank = l.rank + m.rank + 1 := rfl
    exact ih (.add (.neg l) (.neg m)) r (by simp only [Expr.rank]; omega)
      (.add (.neg hl) (.neg hm)) hr

/-- An expanded polynomial is simplified to a collected one. -/
theorem isCollected_of_simplify (h : IsExpanded e) (hr : simplify e = .ok r) :
    ∃ q ps, IsCollected r q ps := by
  induction hn : e.rank using Nat.strong_induction_on generalizing e r with
  | h n ih =>
    subst hn
    have ih : CollectsBelow e.rank := fun x y hlt hx hy => ih x.rank hlt hx hy rfl
    cases h with
    | monomial he => exact (of_exists_eq_ok (exists_simplify_isSummand he) hr).isCollected
    | add hl hm => exact isCollected_of_add hl hm ih hr
    | sub hl hm => exact isCollected_of_sub hl hm ih hr
    | neg hu => exact isCollected_of_neg hu ih hr

end SymbolicAlgebra
