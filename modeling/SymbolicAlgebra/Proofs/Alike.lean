import Mathlib.Data.String.Basic
import SymbolicAlgebra.Proofs.KeyText
import SymbolicAlgebra.Proofs.Sorting

/-!
# What representatives forget

Expressions are alike when they differ by the values of constants written in another way, and by the
order and the nesting of the operands of sums and products. The sorted texts of an expression are
what the text of its representative is made of (`represents_likeKeyWithin`), and they do not change
between expressions that are alike. So such expressions have the same representative
(`same_of_alike`), where all names are single characters.
-/

namespace SymbolicAlgebra

namespace Expr

/-- Equality up to the writing of exact constants and the order and the nesting of the operands of
chains. -/
inductive Alike : Expr → Expr → Prop
  | refl (e : Expr) : Alike e e
  | symm {e e' : Expr} : Alike e e' → Alike e' e
  | trans {e e' e'' : Expr} : Alike e e' → Alike e' e'' → Alike e e''
  | const {a b : Number} {q : Rat} :
      a.exactValue? = some q → b.exactValue? = some q → Alike (const a) (const b)
  | comm (c : Chain) (l r : Expr) : Alike (c.node l r) (c.node r l)
  | assoc (c : Chain) (e₁ e₂ e₃ : Expr) :
      Alike (c.node (c.node e₁ e₂) e₃) (c.node e₁ (c.node e₂ e₃))
  | node (c : Chain) {l l' r r' : Expr} : Alike l l' → Alike r r' →
      Alike (c.node l r) (c.node l' r')
  | sub {l l' r r' : Expr} : Alike l l' → Alike r r' → Alike (sub l r) (sub l' r')
  | div {n n' d d' : Expr} : Alike n n' → Alike d d' → Alike (div n d) (div n' d')
  | pow {b b' p p' : Expr} : Alike b b' → Alike p p' → Alike (pow b p) (pow b' p')
  | log {b b' a a' : Expr} : Alike b b' → Alike a a' → Alike (log b a) (log b' a')
  | neg {e e' : Expr} : Alike e e' → Alike (neg e) (neg e')

variable {c : Chain} {e e' k k' l l' r r' : Expr} {es : List Expr} {ts ts' : List String}

lemma Reordered.alike (h : e.Reordered e') : e.Alike e' := by
  induction h with
  | refl e => exact .refl e
  | symm _ ih => exact .symm ih
  | trans _ _ ih ih' => exact .trans ih ih'
  | comm c l r => exact .comm c l r
  | assoc c e₁ e₂ e₃ => exact .assoc c e₁ e₂ e₃
  | node c _ _ ihl ihr => exact .node c ihl ihr
  | sub _ _ ihl ihr => exact .sub ihl ihr
  | div _ _ ihl ihr => exact .div ihl ihr
  | pow _ _ ihl ihr => exact .pow ihl ihr
  | log _ _ ihl ihr => exact .log ihl ihr
  | neg _ ih => exact .neg ih

lemma Reordered.isReadable_iff (h : e.Reordered e') : e.IsReadable ↔ e'.IsReadable := by
  induction h with
  | refl e => rfl
  | symm _ ih => exact ih.symm
  | trans _ _ ih ih' => exact ih.trans ih'
  | comm c l r => rw [isReadable_node, isReadable_node, and_comm]
  | assoc c e₁ e₂ e₃ => simp only [isReadable_node, and_assoc]
  | node c _ _ ihl ihr => rw [isReadable_node, isReadable_node, ihl, ihr]
  | neg _ ih => rw [IsReadable, IsReadable, ih]
  | _ _ _ ihl ihr => rw [IsReadable, IsReadable, ihl, ihr]

lemma IsReadable.isExact (h : e.IsReadable) : e.IsExact := by
  induction e with
  | const c => exact h
  | var x => trivial
  | other => exact h.elim
  | neg e ih => exact ih h
  | _ l r ihl ihr => exact ⟨ihl h.1, ihr h.2⟩

/-! ### Sorted texts -/

/-- The text of a chain with the given texts of its operands, which it sorts. -/
def sortedChainText (c : Chain) (ts : List String) : String :=
  chainText (chainName c) (", ".intercalate (stableSort (fun s t => s ≤ t) ts))

/-- The texts of the operands of an expression in a chain of the kind `c`, where all chains below
are sorted. Without such a chain this is one text, that of the whole expression. -/
def sortedTexts (c : Option Chain) : Expr → List String
  | const n => [fullText none (const n)]
  | var x => [fullText none (var x)]
  | add l r =>
    let ts := sortedTexts (some .sum) l ++ sortedTexts (some .sum) r
    if c = some .sum then ts else [sortedChainText .sum ts]
  | mul l r =>
    let ts := sortedTexts (some .product) l ++ sortedTexts (some .product) r
    if c = some .product then ts else [sortedChainText .product ts]
  | sub l r => [tupleText "Sub" (sortedTexts none l ++ sortedTexts none r)]
  | div n d => [tupleText "Div" (sortedTexts none n ++ sortedTexts none d)]
  | pow b p => [tupleText "Pow" (sortedTexts none b ++ sortedTexts none p)]
  | log b a => [tupleText "Log" (sortedTexts none b ++ sortedTexts none a)]
  | neg e => [tupleText "Negate" (sortedTexts none e)]
  | other _ kind _ => [kind]

lemma sortedTexts_node (d : Option Chain) (c : Chain) (l r : Expr) : sortedTexts d (c.node l r) =
    if d = some c then sortedTexts (some c) l ++ sortedTexts (some c) r
    else [sortedChainText c (sortedTexts (some c) l ++ sortedTexts (some c) r)] := by
  cases c <;> rfl

lemma exists_sortedTexts_none (e : Expr) : ∃ t, sortedTexts none e = [t] := by
  cases e <;> exact ⟨_, rfl⟩

lemma eq_of_perm_none (h : (sortedTexts none e).Perm (sortedTexts none e')) :
    sortedTexts none e = sortedTexts none e' := by
  obtain ⟨t, ht⟩ := exists_sortedTexts_none e
  rw [ht] at h ⊢
  exact (List.perm_singleton.1 h.symm).symm

lemma pairwise_sort (ts : List String) :
    (stableSort (fun s t => decide (s ≤ t)) ts).Pairwise (· ≤ ·) := by
  have htotal (s t : String) : decide (s ≤ t) ∨ decide (t ≤ s) := by
    simpa using le_total s t
  have htrans {s t u : String} (hst : decide (s ≤ t)) (htu : decide (t ≤ u)) : decide (s ≤ u) := by
    simp only [decide_eq_true_eq] at *
    exact hst.trans htu
  simpa using pairwise_stableSort htotal htrans ts

/-- Sorting forgets the order. -/
lemma sortedChainText_of_perm (h : ts.Perm ts') : sortedChainText c ts = sortedChainText c ts' := by
  have hperm : (stableSort (fun s t => decide (s ≤ t)) ts).Perm
      (stableSort (fun s t => decide (s ≤ t)) ts') :=
    ((stableSort_perm _ ts).trans h).trans (stableSort_perm _ ts').symm
  have heq := hperm.eq_of_pairwise (fun s t _ _ hst hts => le_antisymm hst hts) (pairwise_sort ts)
    (pairwise_sort ts')
  rw [sortedChainText, sortedChainText, heq]

lemma perm_sortedTexts_node {d : Option Chain}
    (h : (sortedTexts (some c) l ++ sortedTexts (some c) r).Perm
      (sortedTexts (some c) l' ++ sortedTexts (some c) r')) :
    (sortedTexts d (c.node l r)).Perm (sortedTexts d (c.node l' r')) := by
  rw [sortedTexts_node, sortedTexts_node]
  split
  · exact h
  · rw [sortedChainText_of_perm h]

/-- Expressions that are alike have the same sorted texts. -/
lemma Alike.perm_sortedTexts (h : Alike e e') (d : Option Chain) :
    (sortedTexts d e).Perm (sortedTexts d e') := by
  induction h generalizing d with
  | refl e => exact .refl _
  | symm _ ih => exact (ih d).symm
  | trans _ _ ih ih' => exact (ih d).trans (ih' d)
  | const ha hb =>
    rw [sortedTexts, sortedTexts, fullText, fullText, ha, hb]
  | comm c l r => exact perm_sortedTexts_node List.perm_append_comm
  | assoc c e₁ e₂ e₃ =>
    apply perm_sortedTexts_node
    rw [sortedTexts_node, sortedTexts_node, if_pos rfl, if_pos rfl, List.append_assoc]
  | node c _ _ ihl ihr => exact perm_sortedTexts_node ((ihl _).append (ihr _))
  | neg _ ih => rw [sortedTexts, sortedTexts, eq_of_perm_none (ih none)]
  | _ _ _ ihl ihr =>
    rw [sortedTexts, sortedTexts, eq_of_perm_none (ihl none), eq_of_perm_none (ihr none)]

/-! ### Representatives -/

/-- The operands of an expression in a chain of the kind `c`, and the expression itself without
one. -/
def operandsIn : Option Chain → Expr → List Expr
  | none, e => [e]
  | some c, e => c.operands e

lemma operandsIn_of_ne {d : Option Chain} (h : d ≠ some c) (l r : Expr) :
    operandsIn d (c.node l r) = [c.node l r] := by
  cases d with
  | none => rfl
  | some d => exact Chain.operands_node_of_ne (fun hc => h (congrArg some hc.symm)) l r

lemma likeKeyWithin_node (d : Option Chain) (c : Chain) (l r : Expr) :
    likeKeyWithin d (c.node l r) = (do
      let s := c.node (← likeKeyWithin (some c) l) (← likeKeyWithin (some c) r)
      if d = some c then return s else c.arrange keyText (· ≤ ·) s) := by
  cases c <;> rfl

lemma fullText_link (hes : ∀ x ∈ e :: es, c.operands x = [x]) :
    fullText (some c) (c.link e es) = ", ".intercalate ((e :: es).map (fullText none)) := by
  induction es generalizing e with
  | nil => exact fullText_of_operands (hes e (by simp))
  | cons x es ih =>
    have hrest := ih fun y hy => hes y (List.mem_cons_of_mem e hy)
    rw [Chain.link, fullText_node_self, hrest, fullText_of_operands (hes e (by simp))]
    exact (String.intercalate_cons_cons).symm

lemma leansRight_link (hes : ∀ x ∈ e :: es, c.operands x = [x] ∧ x.LeansRight) :
    (c.link e es).LeansRight := by
  induction es generalizing e with
  | nil => exact (hes e (by simp)).2
  | cons x es ih =>
    obtain ⟨hops, hlean⟩ := hes e (by simp)
    exact leansRight_node.2 ⟨hops, hlean, ih fun y hy => hes y (List.mem_cons_of_mem e hy)⟩

lemma keyed_eq {keyed : List (String × Expr)} (hes : ∀ x ∈ es, x.IsExact)
    (h : es.mapM (Chain.withKey keyText) = .ok keyed) :
    keyed = es.map fun x => (fullText none x, x) := by
  induction es generalizing keyed with
  | nil => exact (pure_eq_ok_iff.1 h).symm
  | cons e es ih =>
    rw [List.mapM_cons] at h
    obtain ⟨p, hp, h⟩ := bind_eq_ok_iff.1 h
    obtain ⟨rest, hrest, h⟩ := bind_eq_ok_iff.1 h
    obtain ⟨t, ht, hp⟩ := bind_eq_ok_iff.1 hp
    rw [← pure_eq_ok_iff.1 h, ← pure_eq_ok_iff.1 hp, ih (fun x hx => hes x (by simp [hx])) hrest,
      fullText_of_keyTextWithin (hes e (by simp)) ht]
    rfl

/-- An arranged chain is put together from its operands, sorted by their texts. -/
lemma arrange_eq (hes : ∀ x ∈ c.operands e, x.IsExact) (h : c.arrange keyText (· ≤ ·) e = .ok k) :
    k = c.build (stableSort (fun x y => fullText none x ≤ fullText none y) (c.operands e)) := by
  obtain ⟨keyed, hkeyed, h⟩ := bind_eq_ok_iff.1 h
  rw [← pure_eq_ok_iff.1 h, keyed_eq hes hkeyed, stableSort_map, List.map_map]
  exact congrArg c.build (List.map_id _)

/-- A chain of sorted operands. -/
lemma fullText_build (hes : ∀ x ∈ es, c.operands x = [x] ∧ x.LeansRight) (hlen : 2 ≤ es.length) :
    fullText none (c.build es) =
      chainText (chainName c) (", ".intercalate (es.map (fullText none))) ∧
      (c.build es).LeansRight ∧ ∀ d, d ≠ some c → operandsIn d (c.build es) = [c.build es] := by
  match es, hlen with
  | x :: y :: es, _ =>
    have hlink : c.build (x :: y :: es) = c.node x (c.link y es) := rfl
    refine ⟨?_, leansRight_link hes, fun d hd => ?_⟩
    · rw [← fullText_link fun z hz => (hes z hz).1, hlink, fullText_node_none, Chain.link,
        fullText_node_self]
    · rw [hlink, operandsIn_of_ne hd]

/-- What is known of a representative: its operands have the sorted texts, and lean to the right. -/
structure Represents (d : Option Chain) (e k : Expr) : Prop where
  texts : (operandsIn d k).map (fullText none) = sortedTexts d e
  leansRight : ∀ x ∈ operandsIn d k, x.LeansRight

/-- Two parts of a chain in a chain of the same kind. -/
lemma Represents.node (hl : Represents (some c) l l') (hr : Represents (some c) r r') :
    Represents (some c) (c.node l r) (c.node l' r') where
  texts := by
    rw [sortedTexts_node, if_pos rfl, ← hl.texts, ← hr.texts, operandsIn, Chain.operands_node,
      List.map_append]
    rfl
  leansRight x hx := by
    rw [operandsIn, Chain.operands_node, List.mem_append] at hx
    exact hx.elim (hl.leansRight x) (hr.leansRight x)

/-- Two parts of a chain by itself, or in another one. -/
lemma Represents.arrange {d : Option Chain} (hd : d ≠ some c)
    (h : Represents (some c) (c.node l r) (c.node l' r')) (he : (c.node l' r').IsExact)
    (hk : c.arrange keyText (· ≤ ·) (c.node l' r') = .ok k) : Represents d (c.node l r) k := by
  have hk := arrange_eq (fun x hx => (he.of_mem_operands hx).1) hk
  have hperm := stableSort_perm (fun x y => decide (fullText none x ≤ fullText none y))
    (c.operands (c.node l' r'))
  have hlen := hperm.length_eq.symm ▸ c.two_le_length_operands l' r'
  obtain ⟨htext, hlean, hops⟩ := fullText_build
    (fun x hx => ⟨Chain.operands_of_mem_operands (hperm.mem_iff.1 hx),
      h.leansRight x (hperm.mem_iff.1 hx)⟩) hlen
  have hown : sortedTexts (some c) (c.node l r) = _ :=
    (sortedTexts_node (some c) c l r).trans (if_pos rfl)
  rw [← hk] at htext hlean hops
  refine ⟨?_, fun x hx => ?_⟩
  · rw [hops d hd, List.map_singleton, htext, sortedTexts_node, if_neg hd, ← hown, ← h.texts,
      sortedChainText, operandsIn, stableSort_map]
  · rw [hops d hd, List.mem_singleton] at hx
    exact hx ▸ hlean

/-- An expression that is no chain. -/
lemma Represents.leaf {d : Option Chain} (hops : ∀ c : Chain, c.operands k = [k])
    (htext : sortedTexts d e = [fullText none k]) (hlean : k.LeansRight) : Represents d e k := by
  have hops : operandsIn d k = [k] := by
    cases d with
    | none => rfl
    | some c => exact hops c
  refine ⟨?_, fun x hx => ?_⟩
  · rw [hops, htext]
    rfl
  · rw [hops, List.mem_singleton] at hx
    exact hx ▸ hlean

lemma Represents.of_none (h : Represents none e k) :
    sortedTexts none e = [fullText none k] ∧ k.LeansRight :=
  ⟨h.texts.symm, h.leansRight k (by simp [operandsIn])⟩

lemma represents_node {d : Option Chain} (he : (c.node l r).IsExact)
    (ihl : ∀ l', likeKeyWithin (some c) l = .ok l' → Represents (some c) l l')
    (ihr : ∀ r', likeKeyWithin (some c) r = .ok r' → Represents (some c) r r')
    (h : likeKeyWithin d (c.node l r) = .ok k) : Represents d (c.node l r) k := by
  rw [likeKeyWithin_node] at h
  obtain ⟨l', hl, h⟩ := bind_eq_ok_iff.1 h
  obtain ⟨r', hr, h⟩ := bind_eq_ok_iff.1 h
  have hparts := (ihl l' hl).node (ihr r' hr)
  obtain ⟨hel, her⟩ := isExact_node.1 he
  have hexact : (c.node l' r').IsExact := isExact_node.2
    ⟨(reordered_likeKeyWithin hl).isExact_iff.1 hel, (reordered_likeKeyWithin hr).isExact_iff.1 her⟩
  by_cases hd : d = some c
  · rw [if_pos hd] at h
    rw [← pure_eq_ok_iff.1 h, hd]
    exact hparts
  · rw [if_neg hd] at h
    exact hparts.arrange hd hexact h

/-- The text of a representative is made of the sorted texts. -/
lemma represents_likeKeyWithin {d : Option Chain} (he : e.IsExact) (h : likeKeyWithin d e = .ok k) :
    Represents d e k := by
  induction e generalizing d k with
  | other => exact he.elim
  | const a =>
    obtain rfl := Except.ok.inj h
    exact .leaf (fun c => by cases c <;> rfl) rfl trivial
  | var x =>
    obtain rfl := Except.ok.inj h
    exact .leaf (fun c => by cases c <;> rfl) rfl trivial
  | add l r ihl ihr =>
    exact represents_node (c := .sum) he (fun _ => ihl he.1) (fun _ => ihr he.2) h
  | mul l r ihl ihr =>
    exact represents_node (c := .product) he (fun _ => ihl he.1) (fun _ => ihr he.2) h
  | neg e ih =>
    obtain ⟨e', he', h⟩ := bind_eq_ok_iff.1 h
    obtain rfl := pure_eq_ok_iff.1 h
    obtain ⟨htext, hlean⟩ := (ih he he').of_none
    refine .leaf (fun c => by cases c <;> rfl) ?_ hlean
    rw [sortedTexts, htext, fullText]
  | sub l r ihl ihr | div l r ihl ihr | pow l r ihl ihr | log l r ihl ihr =>
    obtain ⟨l', hl, h⟩ := bind_eq_ok_iff.1 h
    obtain ⟨r', hr, h⟩ := bind_eq_ok_iff.1 h
    obtain rfl := pure_eq_ok_iff.1 h
    obtain ⟨htextl, hleanl⟩ := (ihl he.1 hl).of_none
    obtain ⟨htextr, hleanr⟩ := (ihr he.2 hr).of_none
    refine .leaf (fun c => by cases c <;> rfl) ?_ ⟨hleanl, hleanr⟩
    rw [sortedTexts, htextl, htextr, fullText]
    rfl

/-- Expressions that are alike have the same representative. -/
theorem same_of_alike (h : Alike e e') (he : e.IsReadable) (he' : e'.IsReadable)
    (hk : e.likeKey = .ok k) (hk' : e'.likeKey = .ok k') : k.same k' := by
  obtain ⟨htext, hlean⟩ :=
    (represents_likeKeyWithin he.isExact (likeKeyWithin_of_likeKey hk)).of_none
  obtain ⟨htext', hlean'⟩ :=
    (represents_likeKeyWithin he'.isExact (likeKeyWithin_of_likeKey hk')).of_none
  have htexts := eq_of_perm_none (h.perm_sortedTexts none)
  rw [htext, htext'] at htexts
  exact same_of_fullText_eq ((reordered_likeKey hk).isReadable_iff.1 he) hlean
    ((reordered_likeKey hk').isReadable_iff.1 he') hlean' (List.singleton_inj.1 htexts)

end Expr

end SymbolicAlgebra
