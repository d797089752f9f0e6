import SymbolicAlgebra.Expr.LikeKey

/-!
# The rank of an expression

`Expr.rank` measures how far an expression is from a simplified one. An operation on ranks stands
for each kind of node, chosen so that every rule of simplification makes the rank smaller or keeps
it: products of ranks for products, and sums, with something added, for sums. `Chain.size` is the
rank in the form in which the parts of a chain simply add up or multiply.

The rank does not depend on the order of the operands of a chain: an expression and its
representative `likeKey` have one rank, and so have expressions that count as the same.
-/

namespace SymbolicAlgebra

namespace Expr

/-- The rank of an expression. -/
def rank : Expr → Nat
  | const _ => 2
  | var _ => 5
  | add l r => l.rank + r.rank + 1
  | sub l r => l.rank + 2 * r.rank + 2
  | mul l r => l.rank * r.rank
  | div n d => n.rank + d.rank + 1
  | pow b p => (b.rank - 1) * p.rank + 2
  | log b a => b.rank + a.rank + 1
  | neg e => 2 * e.rank
  | other _ _ _ => 5

theorem two_le_rank (e : Expr) : 2 ≤ e.rank := by
  induction e with
  | mul l r ihl ihr => exact Nat.le_trans (by decide) (Nat.mul_le_mul ihl ihr)
  | _ => simp only [rank]; omega

theorem rank_lt_mul_left (l r : Expr) : l.rank < (mul l r).rank := by
  have hl := l.two_le_rank
  have h : l.rank * 2 ≤ (mul l r).rank := Nat.mul_le_mul_left l.rank r.two_le_rank
  omega

theorem rank_lt_mul_right (l r : Expr) : r.rank < (mul l r).rank := by
  have hr := r.two_le_rank
  have h : 2 * r.rank ≤ (mul l r).rank := Nat.mul_le_mul_right r.rank l.two_le_rank
  omega

theorem rank_base_lt_pow (b p : Expr) : b.rank < (pow b p).rank := by
  have hb := b.two_le_rank
  have h : (b.rank - 1) * 2 + 2 ≤ (pow b p).rank :=
    Nat.add_le_add_right (Nat.mul_le_mul_left (b.rank - 1) p.two_le_rank) 2
  omega

theorem rank_exponent_lt_pow (b p : Expr) : p.rank < (pow b p).rank := by
  have hb : 1 ≤ b.rank - 1 := Nat.le_sub_of_add_le b.two_le_rank
  have h : 1 * p.rank + 2 ≤ (pow b p).rank :=
    Nat.add_le_add_right (Nat.mul_le_mul_right p.rank hb) 2
  omega

/-- The rank of a power grows with those of its parts. -/
theorem rank_pow_mono {b b' p p' : Expr} (hb : b.rank ≤ b'.rank) (hp : p.rank ≤ p'.rank) :
    (pow b p).rank ≤ (pow b' p').rank :=
  Nat.add_le_add_right (Nat.mul_le_mul (Nat.sub_le_sub_right hb 1) hp) 2

end Expr

/-! ### Chains -/

namespace Chain

/-- What an operand contributes to its chain. -/
def size : Chain → Expr → Nat
  | sum, e => e.rank + 1
  | product, e => e.rank

/-- What two parts of a chain contribute together. -/
def join : Chain → Nat → Nat → Nat
  | sum, m, n => m + n
  | product, m, n => m * n

/-- What a list of operands contributes. -/
def total (c : Chain) : List Expr → Nat
  | [] => match c with | sum => 0 | product => 1
  | e :: es => c.join (c.size e) (total c es)

theorem join_assoc (c : Chain) (k m n : Nat) : c.join (c.join k m) n = c.join k (c.join m n) := by
  cases c
  · exact Nat.add_assoc k m n
  · exact Nat.mul_assoc k m n

theorem join_left_comm (c : Chain) (k m n : Nat) :
    c.join k (c.join m n) = c.join m (c.join k n) := by
  cases c
  · exact Nat.add_left_comm k m n
  · exact Nat.mul_left_comm k m n

theorem join_mono (c : Chain) {k k' m m' : Nat} (hk : k ≤ k') (hm : m ≤ m') :
    c.join k m ≤ c.join k' m' := by
  cases c
  · exact Nat.add_le_add hk hm
  · exact Nat.mul_le_mul hk hm

theorem total_append (c : Chain) (es es' : List Expr) :
    c.total (es ++ es') = c.join (c.total es) (c.total es') := by
  induction es with
  | nil => cases c <;> simp [total, join]
  | cons e es ih => simp only [List.cons_append, total, ih, join_assoc]

theorem total_singleton (c : Chain) (e : Expr) : c.total [e] = c.size e := by
  cases c <;> simp [total, join]

theorem total_perm (c : Chain) {es es' : List Expr} (h : es.Perm es') :
    c.total es = c.total es' := by
  induction h with
  | nil => rfl
  | cons e _ ih => simp only [total, ih]
  | swap e e' es => simp only [total]; exact c.join_left_comm _ _ _
  | trans _ _ ih ih' => exact ih.trans ih'

theorem one_le_size (c : Chain) (e : Expr) : 1 ≤ c.size e := by
  cases c
  · exact Nat.le_add_left 1 _
  · exact Nat.le_of_succ_le e.two_le_rank

theorem one_le_total_product (es : List Expr) : 1 ≤ product.total es := by
  induction es with
  | nil => exact Nat.le_refl 1
  | cons e es ih => exact Nat.mul_le_mul (product.one_le_size e) ih

/-- A part contributes no more than the whole. -/
theorem size_le_total (c : Chain) {e : Expr} {es : List Expr} (h : e ∈ es) :
    c.size e ≤ c.total es := by
  induction es with
  | nil => exact absurd h (by simp)
  | cons x es ih =>
    rcases List.mem_cons.1 h with rfl | h
    · cases c
      · exact Nat.le_add_right _ _
      · exact Nat.le_mul_of_pos_right _ (one_le_total_product es)
    · refine Nat.le_trans (ih h) ?_
      cases c
      · exact Nat.le_add_left _ _
      · exact Nat.le_mul_of_pos_left _ (product.one_le_size x)

theorem size_node (c : Chain) (l r : Expr) :
    c.size (c.node l r) = c.join (c.size l) (c.size r) := by
  cases c
  · simp only [size, node, Expr.rank, join]; omega
  · rfl

/-- The operands of a chain contribute what the chain does. -/
theorem total_operands (c : Chain) (e : Expr) : c.total (c.operands e) = c.size e := by
  induction e with
  | add l r ihl ihr =>
    cases c with
    | sum => rw [operands_sum_add, total_append, ihl, ihr]; exact (size_node sum l r).symm
    | product => rw [operands] <;> simp [total_singleton]
  | mul l r ihl ihr =>
    cases c with
    | sum => rw [operands] <;> simp [total_singleton]
    | product =>
      rw [operands_product_mul, total_append, ihl, ihr]
      exact (size_node product l r).symm
  | _ => rw [operands] <;> simp [total_singleton]

theorem size_link (c : Chain) (e : Expr) (es : List Expr) :
    c.size (c.link e es) = c.total (e :: es) := by
  induction es generalizing e with
  | nil => simp [link, total_singleton]
  | cons e' es ih => rw [link, size_node, ih]; rfl

/-- A built chain contributes what its parts do. -/
theorem size_build (c : Chain) {es : List Expr} (h : es ≠ []) :
    c.size (c.build es) = c.total es := by
  cases es with
  | nil => exact absurd rfl h
  | cons e es => exact c.size_link e es

theorem rank_eq_of_size_eq {c : Chain} {e e' : Expr} (h : c.size e = c.size e') :
    e.rank = e'.rank := by
  cases c
  · exact Nat.succ.inj h
  · exact h

theorem rank_le_of_size_le {c : Chain} {e e' : Expr} (h : c.size e ≤ c.size e') :
    e.rank ≤ e'.rank := by
  cases c
  · exact Nat.le_of_succ_le_succ h
  · exact h

theorem size_mono (c : Chain) {e e' : Expr} (h : e.rank ≤ e'.rank) : c.size e ≤ c.size e' := by
  cases c
  · exact Nat.succ_le_succ h
  · exact h

/-- An operand of a chain is of a smaller rank. -/
theorem rank_lt_of_mem_operands {c : Chain} {l r x : Expr} (hx : x ∈ c.operands (c.node l r)) :
    x.rank < (c.node l r).rank := by
  rw [operands_node, List.mem_append] at hx
  have hle : x.rank ≤ l.rank ∨ x.rank ≤ r.rank := by
    refine hx.imp (fun hx => ?_) fun hx => ?_
    · exact rank_le_of_size_le (c.total_operands l ▸ c.size_le_total hx)
    · exact rank_le_of_size_le (c.total_operands r ▸ c.size_le_total hx)
  have hl := l.two_le_rank
  have hr := r.two_le_rank
  cases c with
  | sum =>
    simp only [node, Expr.rank]
    omega
  | product =>
    have hleft := Expr.rank_lt_mul_left l r
    have hright := Expr.rank_lt_mul_right l r
    simp only [node]
    omega

/-- Sorting the operands of a chain keeps its rank. -/
theorem rank_of_arrange {κ : Type} {c : Chain} {key : Expr → Except Error κ} {le : κ → κ → Bool}
    {e e' : Expr} (h : c.arrange key le e = .ok e') : e'.rank = e.rank := by
  obtain ⟨es, hperm, rfl⟩ := exists_perm_of_arrange h
  have hne : es ≠ [] := fun hes => c.operands_ne_nil e (hes ▸ hperm).symm.eq_nil
  apply rank_eq_of_size_eq (c := c)
  rw [c.size_build hne, c.total_perm hperm, c.total_operands]

end Chain

/-! ### Representatives -/

namespace Expr

/-- A representative has the rank of the expressions that it stands for. -/
theorem rank_of_likeKeyWithin {c : Option Chain} {e k : Expr} (h : likeKeyWithin c e = .ok k) :
    k.rank = e.rank := by
  induction e generalizing c k with
  | const n => obtain rfl := pure_eq_ok_iff.1 h; rfl
  | var x => obtain rfl := pure_eq_ok_iff.1 h; rfl
  | other m kind es _ => obtain rfl := pure_eq_ok_iff.1 h; rfl
  | add l r ihl ihr =>
    obtain ⟨l', hl, h⟩ := bind_eq_ok_iff.1 h
    obtain ⟨r', hr, h⟩ := bind_eq_ok_iff.1 h
    have hs : (add l' r').rank = (add l r).rank := by simp only [rank, ihl hl, ihr hr]
    split at h
    · rw [← pure_eq_ok_iff.1 h, hs]
    · rw [Chain.rank_of_arrange h, hs]
  | mul l r ihl ihr =>
    obtain ⟨l', hl, h⟩ := bind_eq_ok_iff.1 h
    obtain ⟨r', hr, h⟩ := bind_eq_ok_iff.1 h
    have hs : (mul l' r').rank = (mul l r).rank := by simp only [rank, ihl hl, ihr hr]
    split at h
    · rw [← pure_eq_ok_iff.1 h, hs]
    · rw [Chain.rank_of_arrange h, hs]
  | neg e ih =>
    obtain ⟨e', he, h⟩ := bind_eq_ok_iff.1 h
    rw [← pure_eq_ok_iff.1 h]
    simp only [rank, ih he]
  | _ l r ihl ihr =>
    obtain ⟨l', hl, h⟩ := bind_eq_ok_iff.1 h
    obtain ⟨r', hr, h⟩ := bind_eq_ok_iff.1 h
    rw [← pure_eq_ok_iff.1 h]
    simp only [rank, ihl hl, ihr hr]

theorem rank_of_likeKey {e k : Expr} (h : e.likeKey = .ok k) : k.rank = e.rank :=
  rank_of_likeKeyWithin (likeKeyWithin_of_likeKey h)

/-- Expressions that count as the same have one rank. -/
theorem rank_of_same {e e' : Expr} (h : e.same e') : e.rank = e'.rank := by
  induction e generalizing e' with
  | const c => cases e' <;> simp [same] at h; rfl
  | var x => cases e' <;> simp [same] at h; rfl
  | other m k es _ => cases e' <;> simp [same] at h; rfl
  | neg e ih =>
    cases e' <;> simp [same] at h
    simp only [rank, ih h]
  | _ l r ihl ihr =>
    cases e' <;> simp [same] at h
    simp only [rank, ihl h.1, ihr h.2]

end Expr

end SymbolicAlgebra
