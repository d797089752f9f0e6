/-!
# Stable sorting

`stableSort le` sorts a list so that `le` holds between neighbours, as far as `le` is total; entries
that `le` does not tell apart keep their order.
-/

namespace SymbolicAlgebra

variable {α : Type} (le : α → α → Bool)

/-- An entry put before the first one that may follow it. -/
def insertOrdered (a : α) : List α → List α
  | [] => [a]
  | b :: bs => if le a b then a :: b :: bs else b :: insertOrdered a bs

/-- The entries of a list in order. -/
def stableSort : List α → List α
  | [] => []
  | a :: as => insertOrdered le a (stableSort as)

theorem insertOrdered_perm (a : α) (as : List α) : (insertOrdered le a as).Perm (a :: as) := by
  induction as with
  | nil => exact .refl _
  | cons b bs ih =>
    simp only [insertOrdered]
    split
    · exact .refl _
    · exact (ih.cons b).trans (.swap a b bs)

/-- Sorting keeps every entry. -/
theorem stableSort_perm (as : List α) : (stableSort le as).Perm as := by
  induction as with
  | nil => exact .refl _
  | cons a as ih => exact (insertOrdered_perm le a _).trans (ih.cons a)

/-- An entry that may stand before all others goes to the front. -/
theorem insertOrdered_of_le {a : α} {as : List α} (h : ∀ b ∈ as, le a b) :
    insertOrdered le a as = a :: as := by
  cases as with
  | nil => rfl
  | cons b bs => simp [insertOrdered, h b (by simp)]

/-- A list in order stays as it is. -/
theorem stableSort_of_pairwise {as : List α} (h : as.Pairwise fun a b => le a b) :
    stableSort le as = as := by
  induction h with
  | nil => rfl
  | cons hb _ ih => rw [stableSort, ih, insertOrdered_of_le le hb]

variable {le}

/-- Sorting puts the entries in order, if any two can be ordered and the order is transitive. -/
theorem pairwise_stableSort (total : ∀ a b, le a b ∨ le b a)
    (trans : ∀ {a b c}, le a b → le b c → le a c) (as : List α) :
    (stableSort le as).Pairwise fun a b => le a b := by
  have hinsert (a : α) {bs : List α} (h : bs.Pairwise fun a b => le a b) :
      (insertOrdered le a bs).Pairwise fun a b => le a b := by
    induction h with
    | nil => simp [insertOrdered]
    | @cons b bs hb hbs ih =>
      simp only [insertOrdered]
      split
      · next hab =>
        refine .cons (fun c hc => ?_) (.cons hb hbs)
        rcases List.mem_cons.1 hc with rfl | hc
        · exact hab
        · exact trans hab (hb c hc)
      · next hab =>
        refine .cons (fun c hc => ?_) ih
        rcases List.mem_cons.1 ((insertOrdered_perm le a bs).mem_iff.1 hc) with rfl | hc
        · exact (total c b).resolve_left hab
        · exact hb c hc
  induction as with
  | nil => exact .nil
  | cons a as ih => exact hinsert a ih

end SymbolicAlgebra
