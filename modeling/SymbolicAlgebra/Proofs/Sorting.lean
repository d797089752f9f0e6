import Mathlib.Data.List.Forall2
import SymbolicAlgebra.StableSort

/-!
# What stable sorting depends on

Sorting compares nothing but entries, so lists whose entries are compared alike are sorted alike
(`forall₂_stableSort`). Neighbours that can stand in one order only may be exchanged beforehand
(`stableSort_exchange`), and entries that can stand in both orders stay in the one they have
(`filter_stableSort`).
-/

namespace SymbolicAlgebra

variable {α β γ : Type} {le : α → α → Bool} {le' : β → β → Bool} {R : α → β → Prop}

lemma insertOrdered_ne_nil (le : α → α → Bool) (a : α) (as : List α) :
    insertOrdered le a as ≠ [] := by
  intro h
  have hperm := insertOrdered_perm le a as
  rw [h] at hperm
  exact absurd hperm.nil_eq (by simp)

lemma stableSort_ne_nil (le : α → α → Bool) {as : List α} (h : as ≠ []) :
    stableSort le as ≠ [] := by
  cases as with
  | nil => exact absurd rfl h
  | cons a as => exact insertOrdered_ne_nil le a _

/-! ### Lists related entry by entry -/

lemma forall_mem_of_forall₂ {P : β → Prop} {as : List α} {bs : List β} (h : List.Forall₂ R as bs)
    (hP : ∀ a b, R a b → P b) : ∀ b ∈ bs, P b := by
  induction h with
  | nil => simp
  | cons hab _ ih => simpa using ⟨hP _ _ hab, ih⟩

lemma forall₂_append_left_iff {as as' : List α} {bs : List β} : List.Forall₂ R (as ++ as') bs ↔
    ∃ bs₁ bs₂, List.Forall₂ R as bs₁ ∧ List.Forall₂ R as' bs₂ ∧ bs = bs₁ ++ bs₂ := by
  constructor
  · intro h
    induction as generalizing bs with
    | nil => exact ⟨[], bs, .nil, h, rfl⟩
    | cons a as ih =>
      obtain ⟨b, bs, hb, hbs, rfl⟩ := List.forall₂_cons_left_iff.1 h
      obtain ⟨bs₁, bs₂, h₁, h₂, rfl⟩ := ih hbs
      exact ⟨b :: bs₁, bs₂, .cons hb h₁, h₂, rfl⟩
  · rintro ⟨bs₁, bs₂, h₁, h₂, rfl⟩
    exact List.rel_append h₁ h₂

lemma forall₂_comp_iff {S : β → γ → Prop} {as : List α} {cs : List γ} :
    List.Forall₂ (fun a c => ∃ b, R a b ∧ S b c) as cs ↔
      ∃ bs, List.Forall₂ R as bs ∧ List.Forall₂ S bs cs := by
  constructor
  · intro h
    induction h with
    | nil => exact ⟨[], .nil, .nil⟩
    | cons hac _ ih =>
      obtain ⟨b, hab, hbc⟩ := hac
      obtain ⟨bs, has, hcs⟩ := ih
      exact ⟨b :: bs, .cons hab has, .cons hbc hcs⟩
  · rintro ⟨bs, has, hcs⟩
    induction has generalizing cs with
    | nil =>
      obtain rfl := List.forall₂_nil_left_iff.1 hcs
      exact .nil
    | cons hab _ ih =>
      obtain ⟨c, cs, hbc, hrest, rfl⟩ := List.forall₂_cons_left_iff.1 hcs
      exact .cons ⟨_, hab, hbc⟩ (ih hrest)

/-! ### Lists that are compared alike -/

lemma forall₂_insertOrdered {a : α} {b : β} {as : List α} {bs : List β}
    (hle : ∀ {a b a' b'}, R a b → R a' b' → le a a' = le' b b') (hab : R a b)
    (h : List.Forall₂ R as bs) :
    List.Forall₂ R (insertOrdered le a as) (insertOrdered le' b bs) := by
  induction h with
  | nil => exact .cons hab .nil
  | cons hx hxs ih =>
    rw [insertOrdered, insertOrdered, hle hab hx]
    split
    · exact .cons hab (.cons hx hxs)
    · exact .cons hx ih

lemma forall₂_stableSort {as : List α} {bs : List β}
    (hle : ∀ {a b a' b'}, R a b → R a' b' → le a a' = le' b b') (h : List.Forall₂ R as bs) :
    List.Forall₂ R (stableSort le as) (stableSort le' bs) := by
  induction h with
  | nil => exact .nil
  | cons hab _ ih => exact forall₂_insertOrdered hle hab ih

/-- Entries are sorted by their images as the images are. -/
lemma stableSort_map (f : β → α) (bs : List β) :
    stableSort le (bs.map f) = (stableSort (fun b b' => le (f b) (f b')) bs).map f := by
  have himages : List.Forall₂ (fun b a => f b = a) bs (bs.map f) :=
    List.forall₂_map_right_iff.2 (List.forall₂_same.2 fun b _ => rfl)
  have hsorted : List.Forall₂ (fun b a => f b = a) (stableSort (fun b b' => le (f b) (f b')) bs)
      (stableSort le (bs.map f)) := by
    refine forall₂_stableSort (fun h h' => ?_) himages
    rw [h, h']
  exact (List.forall₂_eq_eq_eq ▸ List.forall₂_map_left_iff.2 hsorted).symm

/-! ### Neighbours in one order only -/

variable {P : α → Prop} {a b : α} {as bs : List α}

lemma insertOrdered_comm (trans : ∀ {a b c}, P a → P b → P c → le a b → le b c → le a c)
    (hab : le a b) (hba : le b a = false) (ha : P a) (hb : P b) (has : ∀ x ∈ as, P x) :
    insertOrdered le a (insertOrdered le b as) = insertOrdered le b (insertOrdered le a as) := by
  induction as with
  | nil => simp [insertOrdered, hab, hba]
  | cons c as ih =>
    have ih := ih fun x hx => has x (by simp [hx])
    by_cases hbc : le b c
    · have hac : le a c := trans ha hb (has c (by simp)) hab hbc
      simp [insertOrdered, hab, hba, hac, hbc]
    · by_cases hac : le a c
      · simp [insertOrdered, hba, hac, hbc]
      · simp [insertOrdered, hac, hbc, ih]

/-- Neighbours that can stand in one order only are sorted into it. -/
lemma stableSort_exchange (trans : ∀ {a b c}, P a → P b → P c → le a b → le b c → le a c)
    (hab : le a b) (hba : le b a = false) (h : ∀ x ∈ as ++ a :: b :: bs, P x) :
    stableSort le (as ++ a :: b :: bs) = stableSort le (as ++ b :: a :: bs) := by
  induction as with
  | nil =>
    refine insertOrdered_comm trans hab hba (h a (by simp)) (h b (by simp)) fun x hx => h x ?_
    have hx := (stableSort_perm le bs).mem_iff.1 hx
    simp [hx]
  | cons x as ih =>
    have ih := ih fun y hy => h y (List.mem_cons_of_mem x hy)
    exact congrArg (insertOrdered le x) ih

/-! ### Entries that are not told apart -/

lemma filter_insertOrdered {p : α → Bool} (h : ∀ x ∈ as, p a → p x → le a x) :
    (insertOrdered le a as).filter p = (a :: as).filter p := by
  induction as with
  | nil => rfl
  | cons b as ih =>
    rw [insertOrdered]
    split
    · rfl
    · next hab =>
      have ih := ih fun x hx => h x (List.mem_cons_of_mem b hx)
      by_cases hb : p b
      · have ha : ¬p a := fun ha => hab (h b (by simp) ha hb)
        rw [List.filter_cons_of_neg ha] at ih ⊢
        rw [List.filter_cons_of_pos hb, List.filter_cons_of_pos hb, ih]
      · rw [List.filter_cons_of_neg hb, ih, List.filter_cons, List.filter_cons,
          List.filter_cons_of_neg hb]

/-- Entries any two of which can stand in both orders stay in the order that they have. -/
lemma filter_stableSort {p : α → Bool} (h : ∀ a ∈ as, ∀ b ∈ as, p a → p b → le a b) :
    (stableSort le as).filter p = as.filter p := by
  induction as with
  | nil => rfl
  | cons a as ih =>
    have ih := ih fun x hx y hy => h x (by simp [hx]) y (by simp [hy])
    have hins : ∀ x ∈ stableSort le as, p a → p x → le a x := fun x hx => by
      have hx := (stableSort_perm le as).mem_iff.1 hx
      exact h a (by simp) x (by simp [hx])
    rw [stableSort, filter_insertOrdered hins, List.filter_cons, List.filter_cons, ih]

/-! ### Sorted lists -/

section

variable {κ : Type} [DecidableEq κ] {key : α → κ}

lemma mem_of_filter_eq (h : ∀ k, as.filter (key · = k) = bs.filter (key · = k)) (ha : a ∈ as) :
    a ∈ bs := by
  have hmem : a ∈ as.filter (key · = key a) := List.mem_filter.2 ⟨ha, by simp⟩
  rw [h] at hmem
  exact (List.mem_filter.1 hmem).1

/-- Sorted lists are equal if they have the entries of each key in the same order. -/
lemma eq_of_filter_eq (key : α → κ) (lt : κ → κ → Prop)
    (hlt : ∀ a ∈ as, ∀ b ∈ as, ¬lt (key a) (key b) → ¬lt (key b) (key a) → key a = key b)
    (has : as.Pairwise fun a b => ¬lt (key a) (key b))
    (hbs : bs.Pairwise fun a b => ¬lt (key a) (key b))
    (h : ∀ k, as.filter (key · = k) = bs.filter (key · = k)) : as = bs := by
  induction as generalizing bs with
  | nil =>
    refine (List.eq_nil_iff_forall_not_mem.2 fun b hb => ?_).symm
    exact absurd (mem_of_filter_eq (fun k => (h k).symm) hb) (by simp)
  | cons a as ih =>
    match bs with
    | [] => exact absurd (mem_of_filter_eq h (List.mem_cons_self ..)) (by simp)
    | b :: bs =>
      -- each head is in the other list, so neither can come before the other
      have ha : a ∈ b :: bs := mem_of_filter_eq h (by simp)
      have hb : b ∈ a :: as := mem_of_filter_eq (fun k => (h k).symm) (by simp)
      have hkey : key a = key b := by
        rcases List.mem_cons.1 ha with rfl | ha
        · rfl
        rcases List.mem_cons.1 hb with rfl | hb
        · rfl
        exact hlt a (by simp) b (by simp [hb]) (List.rel_of_pairwise_cons has hb)
          (List.rel_of_pairwise_cons hbs ha)
      have hhead := h (key a)
      rw [List.filter_cons_of_pos (by simp), List.filter_cons_of_pos (by simp [hkey])] at hhead
      obtain ⟨rfl, -⟩ := List.cons.inj hhead
      have htail (k : κ) : as.filter (key · = k) = bs.filter (key · = k) := by
        have hk := h k
        by_cases hak : key a = k
        · rw [List.filter_cons_of_pos (by simpa), List.filter_cons_of_pos (by simpa)] at hk
          exact (List.cons.inj hk).2
        · rwa [List.filter_cons_of_neg (by simpa), List.filter_cons_of_neg (by simpa)] at hk
      rw [ih (fun x hx y hy => hlt x (by simp [hx]) y (by simp [hy])) has.of_cons hbs.of_cons htail]

end

end SymbolicAlgebra
