import SymbolicAlgebra.Proofs.NormalForm
import SymbolicAlgebra.Proofs.Sorting
import SymbolicAlgebra.Simplify.Termination.Product
import SymbolicAlgebra.Simplify.Termination.Sum

/-!
# Collecting operands

Sums and products collect their operands in one way: an operand goes to the first entry with its
key, or starts an entry of its own after all others. A `Collector` says what differs. The keys of
collected entries differ (`Collector.collect_spec`), and operands that they become are unlike then
(`Collector.Distinct.unlike`).

Entries have a worth, in the terms of `Chain.size`, and adding an operand to an entry that is there
loses some (`Collector.Measured`). So where the entries are worth all that the operands contribute,
every operand has started an entry (`Collector.Measured.exact_of_total_eq`).
-/

namespace SymbolicAlgebra

namespace Chain

variable {c : Chain} {k k' m m' : Nat}

/-- What contributes nothing to a chain. -/
def neutral : Chain → Nat
  | sum => 0
  | product => 1

lemma neutral_le_one (c : Chain) : c.neutral ≤ 1 := by
  cases c <;> decide

lemma join_neutral (c : Chain) (m : Nat) : c.join m c.neutral = m := by
  cases c <;> simp [join, neutral]

lemma neutral_join (c : Chain) (m : Nat) : c.join c.neutral m = m := by
  cases c <;> simp [join, neutral]

lemma join_right_comm (c : Chain) (k m n : Nat) :
    c.join (c.join k m) n = c.join (c.join k n) m := by
  cases c with
  | sum => exact Nat.add_right_comm k m n
  | product => exact Nat.mul_right_comm k m n

lemma neutral_le_join (hk : c.neutral ≤ k) (hm : c.neutral ≤ m) : c.neutral ≤ c.join k m := by
  calc c.neutral = c.join c.neutral c.neutral := (c.join_neutral _).symm
    _ ≤ c.join k m := c.join_mono hk hm

lemma total_nil (c : Chain) : c.total [] = c.neutral := by
  cases c <;> rfl

lemma neutral_le_total (c : Chain) (es : List Expr) : c.neutral ≤ c.total es := by
  cases c with
  | sum => exact Nat.zero_le _
  | product => exact one_le_total_product es

lemma join_lt_join (hk : k < k') (hm : m ≤ m') (hm' : c.neutral ≤ m') :
    c.join k m < c.join k' m' := by
  cases c with
  | sum => exact Nat.add_lt_add_of_lt_of_le hk hm
  | product => exact Nat.mul_lt_mul_of_lt_of_le hk hm hm'

lemma eq_of_join_eq_join (h : c.join k m = c.join k' m') (hk : k ≤ k') (hm : m ≤ m')
    (hk' : c.neutral ≤ k') (hm' : c.neutral ≤ m') : k = k' ∧ m = m' := by
  cases c with
  | sum =>
    simp only [join] at h
    omega
  | product =>
    simp only [join] at h
    constructor
    · refine Nat.le_antisymm hk (Nat.le_of_not_lt fun hlt => ?_)
      exact absurd h (Nat.ne_of_lt (Nat.mul_lt_mul_of_lt_of_le hlt hm hm'))
    · refine Nat.le_antisymm hm (Nat.le_of_not_lt fun hlt => ?_)
      exact absurd h (Nat.ne_of_lt (Nat.mul_lt_mul_of_le_of_lt hk hlt hk'))

end Chain

namespace Simplify

/-! ### Collectors -/

/-- How the operands of a chain are collected: the key of an operand and that of an entry, the entry
that an operand starts, how an operand is added to an entry, and what an entry is worth. -/
structure Collector (α : Type) where
  chain : Chain
  key : Expr → Except Error Expr
  keyOf : α → Expr
  start : Expr → Expr → α
  keyOf_start : ∀ k e, keyOf (start k e) = k
  push : Expr → α → α
  worth : α → Nat

namespace Collector

variable {α : Type} (C : Collector α)

/-- An operand with its key added to those it is like, or else after all others. -/
def insert (k e : Expr) : List α → List α
  | [] => [C.start k e]
  | a :: as => if C.keyOf a == k then C.push e a :: as else a :: insert k e as

/-- An operand added to what was collected. -/
def add (as : List α) (e : Expr) : Except Error (List α) := do
  return C.insert (← C.key e) e as

/-- Operands added to what was collected. -/
def collect (es : List Expr) (as : List α) : Except Error (List α) :=
  es.foldlM C.add as

lemma collect_cons (e : Expr) (es : List Expr) (as : List α) :
    C.collect (e :: es) as = C.add as e >>= C.collect es :=
  List.foldlM_cons

/-- What entries are worth together. -/
def total : List α → Nat
  | [] => C.chain.neutral
  | a :: as => C.chain.join (C.worth a) (total as)

/-- Entries that were each started by one operand. -/
def Started (as : List α) (es : List Expr) : Prop :=
  List.Forall₂ (fun a e => ∃ k, C.key e = .ok k ∧ a = C.start k e) as es

/-- Entries with keys that differ. -/
def Distinct (as : List α) : Prop :=
  as.Pairwise fun a b => (C.keyOf a == C.keyOf b) = false

/-- What is known of the worth of entries that are as `P` says, for operands that are as `Q`
says. -/
structure Measured (P : α → Prop) (Q : Expr → Prop) : Prop where
  pos {a} : P a → 1 ≤ C.worth a
  start {e k} : Q e → C.key e = .ok k → P (C.start k e) ∧ C.worth (C.start k e) ≤ C.chain.size e
  push {a e k} : P a → Q e → C.key e = .ok k → C.keyOf a == k →
    P (C.push e a) ∧ C.worth (C.push e a) < C.chain.join (C.worth a) (C.chain.size e)

variable {C} {P : α → Prop} {Q : Expr → Prop} {as as' : List α} {es : List Expr} {e k : Expr}

lemma Measured.neutral_le_total (h : C.Measured P Q) (has : ∀ a ∈ as, P a) :
    C.chain.neutral ≤ C.total as := by
  induction as with
  | nil => exact Nat.le_refl _
  | cons a as ih =>
    exact Chain.neutral_le_join (Nat.le_trans C.chain.neutral_le_one (h.pos (has a (by simp))))
      (ih fun x hx => has x (by simp [hx]))

/-- An operand that starts no entry of its own loses worth. -/
lemma Measured.insert (h : C.Measured P Q) (has : ∀ a ∈ as, P a) (he : Q e) (hk : C.key e = .ok k) :
    (∀ a ∈ C.insert k e as, P a) ∧
      C.total (C.insert k e as) ≤ C.chain.join (C.total as) (C.chain.size e) ∧
      (C.total (C.insert k e as) = C.chain.join (C.total as) (C.chain.size e) →
        C.insert k e as = as ++ [C.start k e] ∧ ∀ a ∈ as, (C.keyOf a == k) = false) := by
  induction as with
  | nil =>
    obtain ⟨hP, hle⟩ := h.start he hk
    simp only [Collector.insert, total, Chain.join_neutral, Chain.neutral_join]
    exact ⟨by simpa using hP, hle, fun _ => ⟨rfl, by simp⟩⟩
  | cons a as ih =>
    have ha := has a (by simp)
    have hrest : ∀ x ∈ as, P x := fun x hx => has x (by simp [hx])
    simp only [Collector.insert, total]
    split
    · next hsame =>
      obtain ⟨hP, hlt⟩ := h.push ha he hk hsame
      have hlt := Chain.join_lt_join hlt (Nat.le_refl (C.total as)) (h.neutral_le_total hrest)
      rw [Chain.join_right_comm] at hlt
      refine ⟨?_, Nat.le_of_lt hlt, fun heq => absurd heq (Nat.ne_of_lt hlt)⟩
      simpa using ⟨hP, hrest⟩
    · next hdiff =>
      obtain ⟨hP, hle, hexact⟩ := ih hrest
      rw [Chain.join_assoc]
      refine ⟨by simpa using ⟨ha, hP⟩, C.chain.join_mono (Nat.le_refl _) hle, fun heq => ?_⟩
      have hworth := Nat.le_trans C.chain.neutral_le_one (h.pos ha)
      have hsize := Nat.le_trans C.chain.neutral_le_one (C.chain.one_le_size e)
      obtain ⟨-, heq⟩ := Chain.eq_of_join_eq_join heq (Nat.le_refl _) hle hworth
        (Chain.neutral_le_join (h.neutral_le_total hrest) hsize)
      obtain ⟨hins, hkeys⟩ := hexact heq
      exact ⟨by rw [hins]; rfl, by simpa using ⟨by simpa using hdiff, hkeys⟩⟩

/-- Entries are worth no more than the operands that they were collected from, and less if two of
these have one key. -/
lemma Measured.collect (h : C.Measured P Q) (has : ∀ a ∈ as, P a) (hes : ∀ e ∈ es, Q e)
    (hc : C.collect es as = .ok as') :
    (∀ a ∈ as', P a) ∧ C.total as' ≤ C.chain.join (C.total as) (C.chain.total es) ∧
      (C.total as' = C.chain.join (C.total as) (C.chain.total es) →
        ∃ bs, as' = as ++ bs ∧ C.Started bs es ∧ (C.Distinct as → C.Distinct as')) := by
  induction es generalizing as with
  | nil =>
    obtain rfl := pure_eq_ok_iff.1 hc
    rw [Chain.total_nil, Chain.join_neutral]
    exact ⟨has, Nat.le_refl _, fun _ => ⟨[], by simp, .nil, id⟩⟩
  | cons e es ih =>
    obtain ⟨as₁, hadd, hc⟩ := bind_eq_ok_iff.1 hc
    obtain ⟨k, hk, hadd⟩ := bind_eq_ok_iff.1 hadd
    obtain rfl := pure_eq_ok_iff.1 hadd
    obtain ⟨hP, hle, hexact⟩ := h.insert has (hes e (by simp)) hk
    obtain ⟨hP', hle', hexact'⟩ := ih hP (fun x hx => hes x (by simp [hx])) hc
    have hmono := C.chain.join_mono hle (Nat.le_refl (C.chain.total es))
    rw [Chain.total, ← Chain.join_assoc]
    refine ⟨hP', Nat.le_trans hle' hmono, fun heq => ?_⟩
    have hsize := Nat.le_trans C.chain.neutral_le_one (C.chain.one_le_size e)
    obtain ⟨heq₁, -⟩ := Chain.eq_of_join_eq_join (Nat.le_antisymm hmono (heq ▸ hle')) hle
      (Nat.le_refl _) (Chain.neutral_le_join (h.neutral_le_total has) hsize)
      (Chain.neutral_le_total _ es)
    obtain ⟨hins, hkeys⟩ := hexact heq₁
    obtain ⟨bs, rfl, hbs, hdistinct⟩ := hexact' (by rw [heq, heq₁])
    refine ⟨C.start k e :: bs, by simp [hins], .cons ⟨k, hk, rfl⟩ hbs, fun has => hdistinct ?_⟩
    rw [hins]
    refine List.pairwise_append.2 ⟨has, List.pairwise_singleton _ _, fun a ha b hb => ?_⟩
    rw [List.mem_singleton.1 hb, C.keyOf_start]
    exact hkeys a ha

lemma insert_of_ne (has : ∀ a ∈ as, (C.keyOf a == k) = false) :
    C.insert k e as = as ++ [C.start k e] := by
  induction as with
  | nil => rfl
  | cons a as ih =>
    rw [Collector.insert, has a (by simp), ih fun x hx => has x (by simp [hx])]
    simp

/-- Unlike operands start an entry each. -/
lemma collect_of_unlike (as : List α) (hes : Unlike C.key es)
    (has : ∀ a ∈ as, ∀ e ∈ es, ∀ k, C.key e = .ok k → (C.keyOf a == k) = false) :
    ∃ bs, C.collect es as = .ok (as ++ bs) ∧ C.Started bs es := by
  induction es generalizing as with
  | nil => exact ⟨[], by simp [collect, pure, Except.pure], .nil⟩
  | cons e es ih =>
    obtain ⟨k, hk⟩ := hes.known e (by simp)
    obtain ⟨hhead, -⟩ := List.pairwise_cons.1 hes.distinct
    have hadd : C.add as e = .ok (as ++ [C.start k e]) := by
      rw [add, hk, ← insert_of_ne fun a ha => has a ha e (by simp) k hk]
      rfl
    have hnext : ∀ a ∈ as ++ [C.start k e], ∀ x ∈ es, ∀ k', C.key x = .ok k' →
        (C.keyOf a == k') = false := by
      intro a ha x hx k' hk'
      rcases List.mem_append.1 ha with ha | ha
      · exact has a ha x (by simp [hx]) k' hk'
      · rw [List.mem_singleton.1 ha, C.keyOf_start]
        exact hhead x hx k k' hk hk'
    obtain ⟨bs, hbs, hstarted⟩ := ih _ (hes.sublist (List.sublist_cons_self e es)) hnext
    refine ⟨C.start k e :: bs, ?_, .cons ⟨k, hk, rfl⟩ hstarted⟩
    rw [collect_cons, hadd, List.append_cons as _ bs]
    exact hbs

lemma Started.exists_of_mem {bs : List α} {b : α} (h : C.Started bs es) (hb : b ∈ bs) :
    ∃ e ∈ es, ∃ k, C.key e = .ok k ∧ b = C.start k e := by
  induction h with
  | nil => cases hb
  | cons hstart _ ih =>
    rcases List.mem_cons.1 hb with rfl | hb
    · exact ⟨_, by simp, hstart⟩
    · obtain ⟨e, he, hstart⟩ := ih hb
      exact ⟨e, by simp [he], hstart⟩

lemma Started.exists_mem {bs : List α} (h : C.Started bs es) (he : e ∈ es) :
    ∃ b ∈ bs, ∃ k, C.key e = .ok k ∧ b = C.start k e := by
  induction h with
  | nil => cases he
  | cons hb _ ih =>
    rcases List.mem_cons.1 he with rfl | he
    · exact ⟨_, by simp, hb⟩
    · obtain ⟨b, hmem, hb⟩ := ih he
      exact ⟨b, by simp [hmem], hb⟩

/-- Entries with different keys that one operand each has started come from unlike operands. -/
lemma Started.unlike {bs : List α} (h : C.Started bs es) (hd : C.Distinct bs) :
    Unlike C.key es := by
  induction h with
  | nil => exact ⟨by simp, .nil⟩
  | @cons b e bs es hb hbs ih =>
    obtain ⟨k, hk, rfl⟩ := hb
    obtain ⟨hhead, htail⟩ := List.pairwise_cons.1 hd
    have ih := ih htail
    constructor
    · simpa using ⟨⟨k, hk⟩, ih.known⟩
    · refine .cons (fun x hx k₁ k₂ hk₁ hk₂ => ?_) ih.distinct
      obtain ⟨_, hb, k', hk', rfl⟩ := Started.exists_mem hbs hx
      have hdiff := hhead _ hb
      rw [C.keyOf_start, C.keyOf_start] at hdiff
      rwa [Except.ok.inj (hk₁.symm.trans hk), Except.ok.inj (hk₂.symm.trans hk')]

/-! ### Collecting operands that are alike -/

variable {key : Expr}

/-- An operand goes to the entry with its key, so the keys of entries differ. -/
lemma Distinct.insert (hpush : ∀ e a, C.keyOf (C.push e a) = C.keyOf a) (h : C.Distinct as) :
    C.Distinct (C.insert key e as) ∧
      ∀ a ∈ C.insert key e as, C.keyOf a = key ∨ ∃ a' ∈ as, C.keyOf a = C.keyOf a' := by
  induction as with
  | nil => exact ⟨List.pairwise_singleton _ _, by simp [Collector.insert, C.keyOf_start]⟩
  | cons a as ih =>
    obtain ⟨hhead, htail⟩ := List.pairwise_cons.1 h
    rw [Collector.insert]
    split
    · refine ⟨List.pairwise_cons.2 ⟨fun b hb => by rw [hpush]; exact hhead b hb, htail⟩, ?_⟩
      refine List.forall_mem_cons.2 ⟨.inr ⟨a, by simp, hpush e a⟩, fun b hb => .inr ⟨b, ?_, rfl⟩⟩
      exact .tail a hb
    · next hdiff =>
      obtain ⟨hdistinct, hkeys⟩ := ih htail
      refine ⟨List.pairwise_cons.2 ⟨fun b hb => ?_, hdistinct⟩, ?_⟩
      · rcases hkeys b hb with hb | ⟨b', hb', hb⟩
        · rw [hb]
          simpa using hdiff
        · rw [hb]
          exact hhead b' hb'
      · refine List.forall_mem_cons.2 ⟨.inr ⟨a, by simp, rfl⟩, fun b hb => ?_⟩
        exact (hkeys b hb).imp_right fun ⟨b', hb', hb⟩ => ⟨b', .tail a hb', hb⟩

/-- What holds of entries when they are started, and is kept when operands are added, holds of
all. -/
lemma forall_mem_insert (hstart : P (C.start key e))
    (hpush : ∀ a, P a → C.keyOf a == key → P (C.push e a)) (has : ∀ a ∈ as, P a) :
    ∀ a ∈ C.insert key e as, P a := by
  induction as with
  | nil => simpa [Collector.insert] using hstart
  | cons a as ih =>
    obtain ⟨ha, has⟩ := List.forall_mem_cons.1 has
    rw [Collector.insert]
    split
    · next hsame => exact List.forall_mem_cons.2 ⟨hpush a ha hsame, has⟩
    · exact List.forall_mem_cons.2 ⟨ha, ih has⟩

/-- Collected entries have keys that differ, and what is kept when operands are added. -/
lemma collect_spec (hkey : ∀ e a, C.keyOf (C.push e a) = C.keyOf a)
    (hstart : ∀ e k, Q e → C.key e = .ok k → P (C.start k e))
    (hpush : ∀ a e k, P a → Q e → C.key e = .ok k → C.keyOf a == k → P (C.push e a))
    (hes : ∀ e ∈ es, Q e) (has : ∀ a ∈ as, P a) (hd : C.Distinct as)
    (h : C.collect es as = .ok as') : C.Distinct as' ∧ ∀ a ∈ as', P a := by
  induction es generalizing as with
  | nil =>
    obtain rfl := pure_eq_ok_iff.1 h
    exact ⟨hd, has⟩
  | cons e es ih =>
    obtain ⟨he, hes⟩ := List.forall_mem_cons.1 hes
    rw [collect_cons] at h
    obtain ⟨as₁, hadd, h⟩ := bind_eq_ok_iff.1 h
    obtain ⟨k, hk, hadd⟩ := bind_eq_ok_iff.1 hadd
    obtain rfl := pure_eq_ok_iff.1 hadd
    refine ih hes (forall_mem_insert (hstart e k he hk) ?_ has) (hd.insert hkey).1 h
    exact fun a ha hsame => hpush a e k ha he hk hsame

/-- Operands with the keys of entries that differ are unlike. -/
lemma Distinct.unlike (hd : C.Distinct as)
    (h : List.Forall₂ (fun a e => e.isConstant ∨ C.key e = .ok (C.keyOf a)) as es) :
    Unlike C.key (es.filter (!·.isConstant)) := by
  induction h with
  | nil => exact ⟨by simp, .nil⟩
  | @cons a e as es he hes ih =>
    obtain ⟨hhead, htail⟩ := List.pairwise_cons.1 hd
    have ih := ih htail
    match hc : e.isConstant with
    | true => rwa [List.filter_cons_of_neg (by simp [hc])]
    | false =>
      have hkey : C.key e = .ok (C.keyOf a) := by simpa [hc] using he
      have hkeys := (List.forall₂_and_left _ _).2 ⟨hhead, hes⟩
      have hothers : ∀ x ∈ es, x.isConstant = false → ∀ k, C.key x = .ok k →
          (C.keyOf a == k) = false := by
        refine forall_mem_of_forall₂ hkeys fun b x hx hxc k hk => ?_
        obtain ⟨hdiff, hx⟩ := hx
        rcases hx with hx | hx
        · simp [hx] at hxc
        · rwa [← Except.ok.inj (hx.symm.trans hk)]
      rw [List.filter_cons_of_pos (by simp [hc])]
      refine ⟨List.forall_mem_cons.2 ⟨⟨_, hkey⟩, ih.known⟩,
        .cons (fun x hx k k' hk hk' => ?_) ih.distinct⟩
      obtain ⟨hx, hxc⟩ := List.mem_filter.1 hx
      rw [← Except.ok.inj (hkey.symm.trans hk)]
      exact hothers x hx (by simpa using hxc) k' hk'

end Collector

/-! ### Gathering -/

end Simplify

namespace Chain

/-- How the constants of a chain are put together. -/
def combine : Chain → Number → Number → Number
  | sum => (· + ·)
  | product => (· * ·)

/-- What a constant contributes to a chain, which leaves out zero or one. -/
def constantSize : Chain → Number → Nat
  | sum, k => if k.isZero then 0 else 3
  | product, k => if k.isOne then 1 else 2

lemma neutral_le_constantSize (c : Chain) (k : Number) : c.neutral ≤ c.constantSize k := by
  cases c <;> simp only [neutral, constantSize] <;> split <;> omega

lemma constantSize_le (c : Chain) (k d : Number) : c.constantSize k ≤ c.size (.const d) := by
  cases c <;> simp only [constantSize, size, Expr.rank] <;> split <;> omega

lemma constantSize_combine_le (c : Chain) (k d : Number) :
    c.constantSize (c.combine k d) ≤ c.join (c.constantSize k) (c.size (.const d)) := by
  calc c.constantSize (c.combine k d) ≤ c.size (.const d) := c.constantSize_le _ d
    _ = c.join c.neutral (c.size (.const d)) := (c.neutral_join _).symm
    _ ≤ c.join (c.constantSize k) (c.size (.const d)) :=
      c.join_mono (c.neutral_le_constantSize k) (Nat.le_refl _)

end Chain

namespace Simplify

namespace Gathered

variable {c : Chain} {g : Gathered} {es : List Expr}

/-- What was gathered contributes this much to a chain. -/
def size (c : Chain) (g : Gathered) : Nat :=
  c.join (c.constantSize g.constant) (c.total g.operands)

lemma size_start (c : Chain) (k : Number) : size c ⟨k, []⟩ = c.constantSize k := by
  rw [size, Chain.total_nil, Chain.join_neutral]

lemma size_add_le (c : Chain) (g : Gathered) (e : Expr) :
    (g.add c.combine e).size c ≤ c.join (g.size c) (c.size e) := by
  unfold Gathered.add
  split
  · next d =>
    have h :=
      c.join_mono (c.constantSize_combine_le g.constant d) (Nat.le_refl (c.total g.operands))
    rwa [Chain.join_right_comm] at h
  · simp only [size, Chain.total_append, Chain.total_singleton, Chain.join_assoc]
    exact Nat.le_refl _

lemma size_foldl_le (c : Chain) (es : List Expr) (g : Gathered) :
    (es.foldl (Gathered.add c.combine) g).size c ≤ c.join (g.size c) (c.total es) := by
  induction es generalizing g with
  | nil =>
    rw [Chain.total_nil, Chain.join_neutral]
    exact Nat.le_refl _
  | cons e es ih =>
    calc ((e :: es).foldl (Gathered.add c.combine) g).size c
        ≤ c.join ((g.add c.combine e).size c) (c.total es) := ih _
      _ ≤ c.join (c.join (g.size c) (c.size e)) (c.total es) :=
        c.join_mono (size_add_le c g e) (Nat.le_refl _)
      _ = c.join (g.size c) (c.total (e :: es)) := c.join_assoc _ _ _

/-- Operands that are no numbers are gathered in their order. -/
lemma foldl_add (op : Number → Number → Number) (hes : ∀ e ∈ es, e.isConstant = false) :
    es.foldl (Gathered.add op) g = ⟨g.constant, g.operands ++ es⟩ := by
  induction es generalizing g with
  | nil => simp
  | cons e es ih =>
    have hadd : g.add op e = ⟨g.constant, g.operands ++ [e]⟩ := by
      have he := hes e (by simp)
      cases e with
      | const c => cases he
      | _ => rfl
    rw [List.foldl_cons, hadd, ih fun x hx => hes x (by simp [hx])]
    simp

end Gathered

namespace Collector

variable {α : Type} {C : Collector α} {as : List α} {es : List Expr} {f : α → Except Error Expr}

lemma total_le_of_mapM (hf : ∀ a e, f a = .ok e → C.chain.size e ≤ C.worth a)
    (h : as.mapM f = .ok es) : C.chain.total es ≤ C.total as := by
  induction as generalizing es with
  | nil =>
    obtain rfl : [] = es := pure_eq_ok_iff.1 h
    exact Nat.le_of_eq C.chain.total_nil
  | cons a as ih =>
    rw [List.mapM_cons] at h
    obtain ⟨e, he, h⟩ := bind_eq_ok_iff.1 h
    obtain ⟨rest, hrest, h⟩ := bind_eq_ok_iff.1 h
    obtain rfl := pure_eq_ok_iff.1 h
    exact C.chain.join_mono (hf a e he) (ih hrest)

lemma Started.mapM (h : C.Started as es)
    (hf : ∀ e ∈ es, ∀ k, C.key e = .ok k → f (C.start k e) = .ok e) : as.mapM f = .ok es := by
  induction h with
  | nil => rfl
  | cons ha _ ih =>
    obtain ⟨k, hk, rfl⟩ := ha
    rw [List.mapM_cons, hf _ (by simp) k hk, ih fun x hx => hf x (by simp [hx])]
    rfl

end Collector

end Simplify

/-! ### Constants -/

namespace Chain

variable {c : Chain} {es : List Expr} {e : Expr} {k : Number}

/-- Whether an operand changes the constant of a chain. -/
def moves : Chain → Expr → Bool
  | _, .const _ => true
  | product, .neg _ => true
  | _, _ => false

/-- What is collected of an operand. -/
def rest? : Chain → Expr → Option Expr
  | _, .const _ => none
  | product, .neg e => some e
  | _, e => some e

/-- The constant of a chain after an operand. -/
def shift : Chain → Number → Expr → Number
  | c, k, .const d => c.combine k d
  | product, k, .neg _ => -k
  | _, k, _ => k

/-- What `n` operands that change the constant contribute, apart from their rests. -/
def movesSize : Chain → Nat → Nat
  | sum, n => 3 * n
  | product, n => 2 ^ n

lemma movesSize_succ (c : Chain) (n : Nat) :
    c.movesSize (n + 1) = c.join (c.size (.const 0)) (c.movesSize n) := by
  cases c with
  | sum => simp only [movesSize, join, size, Expr.rank]; omega
  | product => simp only [movesSize, join, size, Expr.rank, Nat.pow_succ, Nat.mul_comm]

lemma rest?_of_not_moves (h : c.moves e = false) : c.rest? e = some e := by
  cases c <;> cases e <;> first | rfl | cases h

lemma shift_of_not_moves (h : c.moves e = false) : c.shift k e = k := by
  cases c <;> cases e <;> first | rfl | cases h

lemma filterMap_rest?_eq_filter (h : ∀ e ∈ es, c.moves e → e.isConstant) :
    es.filterMap c.rest? = es.filter (!·.isConstant) := by
  induction es with
  | nil => rfl
  | cons e es ih =>
    rw [List.filterMap_cons, ih fun x hx => h x (by simp [hx])]
    match hc : e.isConstant with
    | true =>
      obtain ⟨d, rfl⟩ := Expr.eq_const_of_isConstant hc
      cases c <;> rfl
    | false =>
      have hm : c.moves e = false := by
        by_contra hm
        simp [h e (by simp) (by simpa using hm)] at hc
      rw [rest?_of_not_moves hm]
      simp [hc]

lemma filterMap_rest?_of_not_moves (h : ∀ e ∈ es, c.moves e = false) :
    es.filterMap c.rest? = es := by
  induction es with
  | nil => rfl
  | cons e es ih =>
    rw [List.filterMap_cons, rest?_of_not_moves (h e (by simp)), ih fun x hx => h x (by simp [hx])]

lemma foldl_shift_of_not_moves (h : ∀ e ∈ es, c.moves e = false) : es.foldl c.shift k = k := by
  induction es with
  | nil => rfl
  | cons e es ih =>
    rw [List.foldl_cons, shift_of_not_moves (h e (by simp)), ih fun x hx => h x (by simp [hx])]

lemma moves_cases (c : Chain) (e : Expr) : c.moves e = false ∨
    c.moves e = true ∧ (c.rest? e = none ∧ c.size e = c.size (.const 0) ∨
      ∃ x, c.rest? e = some x ∧ c.size e = c.join (c.size (.const 0)) (c.size x)) := by
  cases e with
  | const d => exact .inr ⟨by cases c <;> rfl, .inl ⟨by cases c <;> rfl, by cases c <;> rfl⟩⟩
  | neg x =>
    cases c with
    | sum => exact .inl rfl
    | product => exact .inr ⟨rfl, .inr ⟨x, rfl, rfl⟩⟩
  | _ => exact .inl (by cases c <;> rfl)

/-- The constants of a chain contribute apart from what is collected. -/
lemma total_eq_join_rest (c : Chain) (es : List Expr) :
    c.total es = c.join (c.movesSize (es.countP c.moves)) (c.total (es.filterMap c.rest?)) := by
  induction es with
  | nil => cases c <;> rfl
  | cons e es ih =>
    rw [total, ih, List.countP_cons, List.filterMap_cons]
    rcases c.moves_cases e with h | ⟨h, ⟨hrest, hsize⟩ | ⟨x, hrest, hsize⟩⟩
    · simp only [h, rest?_of_not_moves h, total, Bool.false_eq_true, if_false, Nat.add_zero]
      exact c.join_left_comm _ _ _
    · simp only [h, hrest, hsize, if_true, movesSize_succ, join_assoc]
    · simp only [h, hrest, hsize, if_true, movesSize_succ, join_assoc, total]
      rw [c.join_left_comm (c.size x)]

lemma movesSize_le_one {n : Nat} (h : c.movesSize n ≤ c.movesSize 1) : n ≤ 1 := by
  cases c with
  | sum =>
    simp only [movesSize] at h
    omega
  | product => exact (Nat.pow_le_pow_iff_right (by decide)).1 h

/-- The number that changes nothing in a chain. -/
def unitConstant : Chain → Number
  | sum => 0
  | product => 1

lemma constantSize_unitConstant (c : Chain) : c.constantSize c.unitConstant = c.neutral := by
  cases c <;> rfl

lemma constantSize_le_movesSize_one (c : Chain) (k : Number) :
    c.constantSize k ≤ c.movesSize 1 := by
  calc c.constantSize k ≤ c.size (.const 0) := c.constantSize_le k 0
    _ = c.movesSize 1 := by cases c <;> rfl

lemma constantSize_le_movesSize (c : Chain) (es : List Expr) :
    c.constantSize (es.foldl c.shift c.unitConstant) ≤ c.movesSize (es.countP c.moves) := by
  match hn : es.countP c.moves with
  | 0 =>
    rw [foldl_shift_of_not_moves (by simpa using hn), constantSize_unitConstant]
    cases c <;> decide
  | n + 1 =>
    refine Nat.le_trans (c.constantSize_le_movesSize_one _) ?_
    cases c with
    | sum => exact Nat.mul_le_mul_left 3 (Nat.le_add_left 1 n)
    | product => exact Nat.pow_le_pow_right (by decide) (Nat.le_add_left 1 n)

/-- Operands of which one at most changes the constant, and what then is collected. -/
inductive HasOneConstant (c : Chain) : List Expr → Number → List Expr → Prop where
  | none {es : List Expr} (h : ∀ e ∈ es, c.moves e = false) : HasOneConstant c es c.unitConstant es
  | one {es es' : List Expr} {e : Expr} (he : c.moves e) (h : ∀ x ∈ es ++ es', c.moves x = false)
    (hk : c.constantSize (c.shift c.unitConstant e) ≠ c.neutral) :
    HasOneConstant c (es ++ e :: es') (c.shift c.unitConstant e) (es ++ (c.rest? e).toList ++ es')

/-- If constants contribute all that they did, there is one at most. -/
lemma hasOneConstant_of_constantSize_eq
    (h : c.constantSize (es.foldl c.shift c.unitConstant) = c.movesSize (es.countP c.moves)) :
    c.HasOneConstant es (es.foldl c.shift c.unitConstant) (es.filterMap c.rest?) := by
  have hone := movesSize_le_one (h ▸ c.constantSize_le_movesSize_one _)
  by_cases hzero : es.countP c.moves = 0
  · have hnone : ∀ e ∈ es, c.moves e = false := by simpa using hzero
    rw [foldl_shift_of_not_moves hnone, filterMap_rest?_of_not_moves hnone]
    exact .none hnone
  · obtain ⟨e, hmem, he⟩ := List.countP_pos_iff.1 (Nat.pos_of_ne_zero hzero)
    obtain ⟨pre, post, rfl⟩ := List.append_of_mem hmem
    rw [List.countP_append, List.countP_cons_of_pos he] at hone
    have hpre : ∀ x ∈ pre, c.moves x = false := by
      simpa using (show pre.countP c.moves = 0 by omega)
    have hpost : ∀ x ∈ post, c.moves x = false := by
      simpa using (show post.countP c.moves = 0 by omega)
    have hshift : (pre ++ e :: post).foldl c.shift c.unitConstant = c.shift c.unitConstant e := by
      rw [List.foldl_append, foldl_shift_of_not_moves hpre, List.foldl_cons,
        foldl_shift_of_not_moves hpost]
    have hrest : (pre ++ e :: post).filterMap c.rest? = pre ++ (c.rest? e).toList ++ post := by
      rw [List.filterMap_append, filterMap_rest?_of_not_moves hpre, List.filterMap_cons]
      cases c.rest? e <;> simp [filterMap_rest?_of_not_moves hpost]
    have hcount : (pre ++ e :: post).countP c.moves = 1 := by
      rw [List.countP_append, List.countP_cons_of_pos he]
      omega
    rw [hshift, hcount] at h
    rw [hshift, hrest]
    refine .one he (fun x hx => (List.mem_append.1 hx).elim (hpre x) (hpost x)) ?_
    rw [h]
    cases c <;> decide

end Chain

namespace Simplify.Collector

variable {α : Type} {C : Collector α} {P : α → Prop} {Q : Expr → Prop} {as : List α}
  {es : List Expr}

/-- The constant and the entries are worth no more than the operands that they come from. If they
are worth as much, one operand at most has changed the constant and each other one has started an
entry. -/
theorem Measured.exact_of_total_eq (h : C.Measured P Q)
    (hes : ∀ e ∈ es.filterMap C.chain.rest?, Q e)
    (hc : C.collect (es.filterMap C.chain.rest?) [] = .ok as) :
    C.chain.join (C.chain.constantSize (es.foldl C.chain.shift C.chain.unitConstant)) (C.total as) ≤
        C.chain.total es ∧
      (C.chain.join (C.chain.constantSize (es.foldl C.chain.shift C.chain.unitConstant))
        (C.total as) =
          C.chain.total es →
        C.chain.HasOneConstant es (es.foldl C.chain.shift C.chain.unitConstant)
          (es.filterMap C.chain.rest?) ∧
          C.Started as (es.filterMap C.chain.rest?) ∧
            Unlike C.key (es.filterMap C.chain.rest?)) := by
  obtain ⟨-, hle, hexact⟩ := h.collect (by simp) hes hc
  simp only [total, Chain.neutral_join] at hle hexact
  have hconst := C.chain.constantSize_le_movesSize es
  rw [C.chain.total_eq_join_rest es]
  refine ⟨C.chain.join_mono hconst hle, fun heq => ?_⟩
  obtain ⟨heq₁, heq₂⟩ := Chain.eq_of_join_eq_join heq hconst hle
    (Nat.le_trans (C.chain.neutral_le_constantSize _) hconst) (C.chain.neutral_le_total _)
  obtain ⟨bs, rfl, hbs, hdistinct⟩ := hexact heq₂
  exact ⟨Chain.hasOneConstant_of_constantSize_eq heq₁, hbs, hbs.unlike (hdistinct .nil)⟩

end Simplify.Collector

end SymbolicAlgebra
