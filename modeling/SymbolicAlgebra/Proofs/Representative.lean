import SymbolicAlgebra.Proofs.Alike
import SymbolicAlgebra.Proofs.DecidableExpr
import SymbolicAlgebra.Proofs.Rules

/-!
# Which expressions have representatives

The operands of a chain are sorted by their texts, and a text is refused when it holds a numeral
that is too long. So an expression over exact constants has a representative just when all that
stands in its chains can be written (`exists_likeKey_iff`), which it has in common with expressions
that are alike (`Alike.hasKey_iff`). Where all names are single characters, representatives decide
which expressions are alike (`same_likeKey_iff`).
-/

namespace SymbolicAlgebra

namespace Expr

/-- An expression of known kinds whose constants are exact and short enough to be written. -/
def IsWritable : Expr → Prop
  | const c => ∃ q, c.exactValue? = some q ∧ IsShort q
  | var _ => True
  | add l r | sub l r | mul l r | div l r | pow l r | log l r => l.IsWritable ∧ r.IsWritable
  | neg e => e.IsWritable
  | other _ _ _ => False

/-- An expression of known kinds over exact constants whose chains can be written. -/
def HasKey : Expr → Prop
  | const c => c.isExact
  | var _ => True
  | add l r | mul l r => l.IsWritable ∧ r.IsWritable
  | sub l r | div l r | pow l r | log l r => l.HasKey ∧ r.HasKey
  | neg e => e.HasKey
  | other _ _ _ => False

variable {c : Chain} {d : Option Chain} {e e' k k' l r : Expr} {t : String}

lemma isWritable_node : (c.node l r).IsWritable ↔ l.IsWritable ∧ r.IsWritable := by
  cases c <;> rfl

lemma hasKey_node : (c.node l r).HasKey ↔ (c.node l r).IsWritable := by
  cases c <;> rfl

lemma IsWritable.hasKey (h : e.IsWritable) : e.HasKey := by
  induction e with
  | const c =>
    obtain ⟨q, hq, -⟩ := h
    exact Number.isExact_of_exactValue? hq
  | var x => trivial
  | add l r | mul l r => exact h
  | neg e ih => exact ih h
  | other => exact h.elim
  | _ l r ihl ihr => exact ⟨ihl h.1, ihr h.2⟩

lemma IsWritable.isExact (h : e.IsWritable) : e.IsExact := by
  induction e with
  | const c =>
    obtain ⟨q, hq, -⟩ := h
    exact Number.isExact_of_exactValue? hq
  | var x => trivial
  | neg e ih => exact ih h
  | other => exact h.elim
  | _ l r ihl ihr => exact ⟨ihl h.1, ihr h.2⟩

lemma HasKey.isExact (h : e.HasKey) : e.IsExact := by
  induction e with
  | const c => exact h
  | var x => trivial
  | add l r | mul l r => exact ⟨h.1.isExact, h.2.isExact⟩
  | neg e ih => exact ih h
  | other => exact h.elim
  | _ l r ihl ihr => exact ⟨ihl h.1, ihr h.2⟩

/-- A chain can be written if its operands can. -/
lemma isWritable_iff_operands (c : Chain) : e.IsWritable ↔ ∀ x ∈ c.operands e, x.IsWritable := by
  induction e using Chain.induct c with
  | leaf e hops => rw [hops, List.forall_mem_singleton]
  | node l r ihl ihr => rw [isWritable_node, Chain.operands_node, List.forall_mem_append, ihl, ihr]

/-- What stands in a chain has a representative if the chain has one. -/
lemma HasKey.of_mem_operands {x : Expr} (h : e.HasKey) (hx : x ∈ c.operands e) : x.HasKey := by
  cases e using Chain.induct c with
  | leaf e hops =>
    rw [hops, List.mem_singleton] at hx
    exact hx ▸ h
  | node l r => exact ((isWritable_iff_operands c).1 (hasKey_node.1 h) x hx).hasKey

lemma Alike.isWritable_iff (h : Alike e e') : e.IsWritable ↔ e'.IsWritable := by
  induction h with
  | refl e => rfl
  | symm _ ih => exact ih.symm
  | trans _ _ ih ih' => exact ih.trans ih'
  | const ha hb => rw [IsWritable, IsWritable, ha, hb]
  | comm c l r => rw [isWritable_node, isWritable_node, and_comm]
  | assoc c e₁ e₂ e₃ => simp only [isWritable_node, and_assoc]
  | node c _ _ ihl ihr => rw [isWritable_node, isWritable_node, ihl, ihr]
  | neg _ ih => rw [IsWritable, IsWritable, ih]
  | _ _ _ ihl ihr => rw [IsWritable, IsWritable, ihl, ihr]

/-- Whether there is a representative does not depend on what it forgets. -/
lemma Alike.hasKey_iff (h : Alike e e') : e.HasKey ↔ e'.HasKey := by
  induction h with
  | refl e => rfl
  | symm _ ih => exact ih.symm
  | trans _ _ ih ih' => exact ih.trans ih'
  | const ha hb =>
    exact iff_of_true (Number.isExact_of_exactValue? ha) (Number.isExact_of_exactValue? hb)
  | comm c l r => rw [hasKey_node, hasKey_node, (Alike.comm c l r).isWritable_iff]
  | assoc c e₁ e₂ e₃ => rw [hasKey_node, hasKey_node, (Alike.assoc c e₁ e₂ e₃).isWritable_iff]
  | node c hl hr => rw [hasKey_node, hasKey_node, (Alike.node c hl hr).isWritable_iff]
  | neg _ ih => rw [HasKey, HasKey, ih]
  | _ _ _ ihl ihr => rw [HasKey, HasKey, ihl, ihr]

/-! ### Texts -/

/-- What can be written has a text. -/
lemma exists_keyTextWithin (h : e.IsWritable) (c : Option Chain) :
    ∃ t, keyTextWithin c e = .ok t := by
  induction e generalizing c with
  | const a =>
    obtain ⟨q, hq, hshort⟩ := h
    obtain ⟨t, ht⟩ := Number.text_eq_ok hq hshort
    exact ⟨_, by rw [keyTextWithin, ht]; rfl⟩
  | var x => exact ⟨_, rfl⟩
  | neg e ih =>
    obtain ⟨t, ht⟩ := ih h none
    exact ⟨_, by rw [keyTextWithin, ht]; rfl⟩
  | other => exact h.elim
  | add l r ihl ihr =>
    obtain ⟨s, hs⟩ := ihl h.1 (some .sum)
    obtain ⟨t, ht⟩ := ihr h.2 (some .sum)
    exact ⟨_, by rw [keyTextWithin, hs, ht]; rfl⟩
  | mul l r ihl ihr =>
    obtain ⟨s, hs⟩ := ihl h.1 (some .product)
    obtain ⟨t, ht⟩ := ihr h.2 (some .product)
    exact ⟨_, by rw [keyTextWithin, hs, ht]; rfl⟩
  | sub l r ihl ihr | div l r ihl ihr | pow l r ihl ihr | log l r ihl ihr =>
    obtain ⟨s, hs⟩ := ihl h.1 none
    obtain ⟨t, ht⟩ := ihr h.2 none
    exact ⟨_, by rw [keyTextWithin, hs, ht]; rfl⟩

/-- What has a text can be written. -/
lemma isWritable_of_keyTextWithin {c : Option Chain} (he : e.IsExact)
    (h : keyTextWithin c e = .ok t) : e.IsWritable := by
  induction e generalizing c t with
  | const a =>
    obtain ⟨q, hq⟩ := Number.exists_exactValue?_of_isExact he
    refine ⟨q, hq, ?_⟩
    by_contra hlong
    rw [keyTextWithin, Number.text_eq_error hq hlong] at h
    cases h
  | var x => trivial
  | neg e ih =>
    obtain ⟨t, ht, -⟩ := bind_eq_ok_iff.1 h
    exact ih he ht
  | other => exact he.elim
  | _ l r ihl ihr =>
    obtain ⟨s, hs, h⟩ := bind_eq_ok_iff.1 h
    obtain ⟨t, ht, -⟩ := bind_eq_ok_iff.1 h
    exact ⟨ihl he.1 hs, ihr he.2 ht⟩

/-! ### Representatives -/

lemma exists_arrange (h : e.IsWritable) : ∃ k, c.arrange keyText (· ≤ ·) e = .ok k := by
  have hkeys : ∀ x ∈ c.operands e, ∃ p, Chain.withKey keyText x = .ok p ∧ True := by
    intro x hx
    obtain ⟨t, ht⟩ := exists_keyTextWithin ((isWritable_iff_operands c).1 h x hx) none
    exact ⟨(t, x), by rw [Chain.withKey, keyText, ht]; rfl, trivial⟩
  obtain ⟨keyed, hkeyed, -⟩ := exists_mapM_eq_ok hkeys
  exact ⟨_, by rw [Chain.arrange, hkeyed]; rfl⟩

lemma isWritable_of_arrange (he : e.IsExact) (h : c.arrange keyText (· ≤ ·) e = .ok k) :
    e.IsWritable := by
  obtain ⟨keyed, hkeyed, -⟩ := bind_eq_ok_iff.1 h
  rw [isWritable_iff_operands c]
  have hexact (x : Expr) (hx : x ∈ c.operands e) : x.IsExact := (he.of_mem_operands hx).1
  have hkeyed := (List.forall₂_and_left _ _).2 ⟨hexact, mapM_eq_ok_iff.1 hkeyed⟩
  refine forall_mem_of_forall₂ (P := IsWritable) hkeyed.flip ?_
  rintro p x ⟨hx, hp⟩
  obtain ⟨t, ht, -⟩ := bind_eq_ok_iff.1 hp
  exact isWritable_of_keyTextWithin hx ht

lemma exists_likeKeyWithin_node (d : Option Chain) (h : (c.node l r).IsWritable)
    (ihl : ∃ l', likeKeyWithin (some c) l = .ok l')
    (ihr : ∃ r', likeKeyWithin (some c) r = .ok r') :
    ∃ k, likeKeyWithin d (c.node l r) = .ok k := by
  obtain ⟨l', hl⟩ := ihl
  obtain ⟨r', hr⟩ := ihr
  have hnode := Alike.node c (reordered_likeKeyWithin hl).alike (reordered_likeKeyWithin hr).alike
  obtain ⟨k, hk⟩ := exists_arrange (c := c) (hnode.isWritable_iff.1 h)
  rw [likeKeyWithin_node, hl, hr]
  by_cases hd : d = some c
  · exact ⟨_, if_pos hd⟩
  · exact ⟨k, (if_neg hd).trans hk⟩

lemma exists_likeKeyWithin (h : e.IsWritable) (d : Option Chain) :
    ∃ k, likeKeyWithin d e = .ok k := by
  induction e generalizing d with
  | const | var | other => exact ⟨_, rfl⟩
  | add l r ihl ihr =>
    exact exists_likeKeyWithin_node (c := .sum) d h (ihl h.1 (some .sum)) (ihr h.2 (some .sum))
  | mul l r ihl ihr =>
    exact exists_likeKeyWithin_node (c := .product) d h (ihl h.1 (some .product))
      (ihr h.2 (some .product))
  | neg e ih =>
    obtain ⟨k, hk⟩ := ih h none
    exact ⟨_, by rw [likeKeyWithin, hk]; rfl⟩
  | sub l r ihl ihr | div l r ihl ihr | pow l r ihl ihr | log l r ihl ihr =>
    obtain ⟨l', hl⟩ := ihl h.1 none
    obtain ⟨r', hr⟩ := ihr h.2 none
    exact ⟨_, by rw [likeKeyWithin, hl, hr]; rfl⟩

lemma exists_likeKeyWithin_none (h : e.HasKey) : ∃ k, likeKeyWithin none e = .ok k := by
  induction e with
  | const | var | other => exact ⟨_, rfl⟩
  | add l r => exact exists_likeKeyWithin (e := .add l r) h none
  | mul l r => exact exists_likeKeyWithin (e := .mul l r) h none
  | neg e ih =>
    obtain ⟨k, hk⟩ := ih h
    exact ⟨_, by rw [likeKeyWithin, hk]; rfl⟩
  | sub l r ihl ihr | div l r ihl ihr | pow l r ihl ihr | log l r ihl ihr =>
    obtain ⟨l', hl⟩ := ihl h.1
    obtain ⟨r', hr⟩ := ihr h.2
    exact ⟨_, by rw [likeKeyWithin, hl, hr]; rfl⟩

lemma isWritable_of_likeKeyWithin (he : (c.node l r).IsExact)
    (h : likeKeyWithin none (c.node l r) = .ok k) : (c.node l r).IsWritable := by
  rw [likeKeyWithin_node] at h
  obtain ⟨l', hl, h⟩ := bind_eq_ok_iff.1 h
  obtain ⟨r', hr, h⟩ := bind_eq_ok_iff.1 h
  have hnode : Reordered (c.node l r) (c.node l' r') :=
    .node c (reordered_likeKeyWithin hl) (reordered_likeKeyWithin hr)
  rw [if_neg nofun] at h
  exact hnode.alike.isWritable_iff.2 (isWritable_of_arrange (hnode.isExact_iff.1 he) h)

lemma hasKey_of_likeKeyWithin (he : e.IsExact) (h : likeKeyWithin none e = .ok k) : e.HasKey := by
  induction e generalizing k with
  | const c => exact he
  | var x => trivial
  | add l r => exact isWritable_of_likeKeyWithin (c := .sum) he h
  | mul l r => exact isWritable_of_likeKeyWithin (c := .product) he h
  | neg e ih =>
    obtain ⟨k, hk, -⟩ := bind_eq_ok_iff.1 h
    exact ih he hk
  | other => exact he.elim
  | _ l r ihl ihr =>
    obtain ⟨l', hl, h⟩ := bind_eq_ok_iff.1 h
    obtain ⟨r', hr, -⟩ := bind_eq_ok_iff.1 h
    exact ⟨ihl he.1 hl, ihr he.2 hr⟩

/-- An expression over exact constants has a representative just when its chains can be written. -/
theorem exists_likeKey_iff (he : e.IsExact) : (∃ k, e.likeKey = .ok k) ↔ e.HasKey := by
  constructor
  · rintro ⟨k, hk⟩
    exact hasKey_of_likeKeyWithin he (likeKeyWithin_of_likeKey hk)
  · intro h
    obtain ⟨k, hk⟩ := exists_likeKeyWithin_none h
    have hlong := refuseLong_of_isExact ((reordered_likeKeyWithin hk).isExact_iff.1 he)
    exact ⟨k, bind_eq_ok_iff.2 ⟨k, hk, bind_eq_ok_iff.2 ⟨(), hlong, rfl⟩⟩⟩

/-! ### What representatives decide -/

/-- Exact expressions that are the same are alike. -/
lemma alike_of_same (hk : k.IsExact) (hk' : k'.IsExact) (h : k.same k') : k.Alike k' := by
  induction k generalizing k' with
  | const a =>
    cases k' <;> simp only [same, Bool.false_eq_true] at h
    obtain ⟨q, hq⟩ := Number.exists_exactValue?_of_isExact hk
    obtain ⟨q', hq'⟩ := Number.exists_exactValue?_of_isExact hk'
    obtain rfl := (Number.same_iff hq hq').1 h
    exact .const hq hq'
  | var x =>
    cases k' <;> simp only [same, beq_iff_eq, Bool.false_eq_true] at h
    rw [h]
    exact .refl _
  | other m k es => exact hk.elim
  | neg e ih =>
    cases k' <;> simp only [same, Bool.false_eq_true] at h
    exact .neg (ih hk hk' h)
  | add l r ihl ihr =>
    cases k' <;> simp only [same, Bool.and_eq_true, Bool.false_eq_true] at h
    exact .node .sum (ihl hk.1 hk'.1 h.1) (ihr hk.2 hk'.2 h.2)
  | mul l r ihl ihr =>
    cases k' <;> simp only [same, Bool.and_eq_true, Bool.false_eq_true] at h
    exact .node .product (ihl hk.1 hk'.1 h.1) (ihr hk.2 hk'.2 h.2)
  | sub l r ihl ihr | div l r ihl ihr | pow l r ihl ihr | log l r ihl ihr =>
    cases k' <;> simp only [same, Bool.and_eq_true, Bool.false_eq_true] at h
    have hl := ihl hk.1 hk'.1 h.1
    have hr := ihr hk.2 hk'.2 h.2
    first | exact .sub hl hr | exact .div hl hr | exact .pow hl hr | exact .log hl hr

/-- Representatives are the same just where expressions are alike. -/
lemma same_likeKey_iff (he : e.IsReadable) (he' : e'.IsReadable) (hk : e.likeKey = .ok k)
    (hk' : e'.likeKey = .ok k') : k.same k' ↔ e.Alike e' := by
  refine ⟨fun h => ?_, fun h => same_of_alike h he he' hk hk'⟩
  have hreordered := reordered_likeKey hk
  have hreordered' := reordered_likeKey hk'
  have hsame :=
    alike_of_same (hreordered.isExact_iff.1 he.isExact) (hreordered'.isExact_iff.1 he'.isExact) h
  exact (hreordered.alike.trans hsame).trans hreordered'.alike.symm

/-- Two expressions over exact constants and names of one character have equal representatives just
when they are alike, where they have representatives: that is, where their chains can be written. -/
theorem likeKey_decides_alike (he : e.IsReadable) (he' : e'.IsReadable) :
    ((∃ k, e.likeKey = .ok k) ↔ e.HasKey) ∧
      ∀ k k', e.likeKey = .ok k → e'.likeKey = .ok k' → ((k == k') = true ↔ e.Alike e') :=
  ⟨exists_likeKey_iff he.isExact, fun _ _ hk hk' => same_likeKey_iff he he' hk hk'⟩

/-- The products `(x * y + 2) * (3 - (y + x))` and `(3 - (x + y)) * (2 + y * x)`, where the second
two is a rational, are alike; `(3 - (y + x)) * (x * y + 3)` is unlike them. -/
theorem likeKey_decides_alike_product :
    let x : Expr := .var "x"
    let y : Expr := .var "y"
    let e : Expr := .mul (.add (.mul x y) (.const 2)) (.sub (.const 3) (.add y x))
    let e' : Expr := .mul (.sub (.const 3) (.add x y)) (.add (.const (.rational 2)) (.mul y x))
    let u : Expr := .mul (.sub (.const 3) (.add y x)) (.add (.mul x y) (.const 3))
    e.IsReadable ∧ e'.IsReadable ∧ u.IsReadable ∧ e.HasKey ∧ e.Alike e' ∧ ¬e.Alike u := by
  intro x y e e' u
  have hx : x.IsReadable := show "x".length = 1 by decide
  have hy : y.IsReadable := show "y".length = 1 by decide
  have he : e.IsReadable := ⟨⟨⟨hx, hy⟩, rfl⟩, rfl, hy, hx⟩
  have he' : e'.IsReadable := ⟨⟨rfl, hx, hy⟩, rfl, hy, hx⟩
  have hu : u.IsReadable := ⟨⟨rfl, hy, hx⟩, ⟨hx, hy⟩, rfl⟩
  have hk : e.likeKey = .ok (.mul (.add (.mul x y) (.const 2)) (.sub (.const 3) (.add x y))) := by
    decide +kernel
  have hk' : e'.likeKey =
      .ok (.mul (.add (.mul x y) (.const (.rational 2))) (.sub (.const 3) (.add x y))) := by
    decide +kernel
  have hku : u.likeKey = .ok (.mul (.add (.mul x y) (.const 3)) (.sub (.const 3) (.add x y))) := by
    decide +kernel
  obtain ⟨hexists, hdecides⟩ := likeKey_decides_alike he he'
  refine ⟨he, he', hu, hexists.1 ⟨_, hk⟩, (hdecides _ _ hk hk').1 (by decide +kernel), fun h => ?_⟩
  have hsame := ((likeKey_decides_alike he hu).2 _ _ hk hku).2 h
  exact absurd hsame (by decide +kernel)

end Expr

end SymbolicAlgebra
