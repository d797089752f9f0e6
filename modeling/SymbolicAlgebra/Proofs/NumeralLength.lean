import Mathlib.Algebra.Order.Field.Rat
import Mathlib.Data.Rat.Lemmas
import Mathlib.Tactic.FieldSimp
import Mathlib.Tactic.Ring
import SymbolicAlgebra.Expr.Text
import SymbolicAlgebra.Proofs.ExactNumber
import SymbolicAlgebra.Proofs.Refusals
import SymbolicAlgebra.Proofs.Reordering

/-!
# The length of numerals

The magnitude of a rational is the greater of its numerator and its denominator; a rational can be
written unless its magnitude reaches `numeralBound`. The height of an expression bounds the
magnitudes of its constants, and of all those that come up when it is computed. So the texts and the
representative of an expression over exact constants are refused for the length of a numeral only,
and only where the expression is high enough (`renders_text`, `renders_likeKey`).
-/

namespace SymbolicAlgebra

/-! ### Magnitudes -/

/-- The greater of the numerator, without its sign, and the denominator. -/
def magnitude (q : Rat) : Nat :=
  max q.num.natAbs q.den

lemma one_le_magnitude (q : Rat) : 1 ≤ magnitude q :=
  le_max_of_le_right q.den_pos

@[simp] lemma magnitude_neg (q : Rat) : magnitude (-q) = magnitude q := by
  simp [magnitude]

@[simp] lemma magnitude_one : magnitude 1 = 1 := rfl

lemma magnitude_intCast (n : Int) : magnitude n = max n.natAbs 1 := by
  simp [magnitude]

/-- To cancel a fraction makes its parts no greater. -/
lemma magnitude_div_le (n d : Int) (hd : d ≠ 0) :
    magnitude (n / d : Rat) ≤ max n.natAbs d.natAbs := by
  rw [← Rat.divInt_eq_div]
  refine max_le_max ?_ (Nat.le_of_dvd (Int.natAbs_pos.2 hd) ?_)
  · rcases eq_or_ne n 0 with rfl | hn
    · simp
    · exact Int.natAbs_le_of_dvd_ne_zero (Rat.num_dvd n hd) hn
  · rw [← Int.natCast_dvd]
    exact Rat.den_dvd n d

section

variable (q r : Rat)

lemma natAbs_num_le_magnitude : q.num.natAbs ≤ magnitude q :=
  le_max_left _ _

lemma den_le_magnitude : q.den ≤ magnitude q :=
  le_max_right _ _

lemma magnitude_add_le : magnitude (q + r) ≤ 2 * (magnitude q * magnitude r) := by
  have hq : (q.den : Int) ≠ 0 := by exact_mod_cast q.den_nz
  have hr : (r.den : Int) ≠ 0 := by exact_mod_cast r.den_nz
  have hsum : q + r =
      ((q.num * r.den + r.num * q.den : Int) : Rat) / ((q.den * r.den : Int) : Rat) := by
    have hq : (q.den : Rat) ≠ 0 := by exact_mod_cast q.den_nz
    have hr : (r.den : Rat) ≠ 0 := by exact_mod_cast r.den_nz
    push_cast
    rw [mul_comm (r.num : Rat), ← div_add_div _ _ hq hr, Rat.num_div_den, Rat.num_div_den]
  have hleft := Nat.mul_le_mul (natAbs_num_le_magnitude q) (den_le_magnitude r)
  have hright := Nat.mul_le_mul (den_le_magnitude q) (natAbs_num_le_magnitude r)
  have hden := Nat.mul_le_mul (den_le_magnitude q) (den_le_magnitude r)
  rw [hsum]
  refine (magnitude_div_le _ _ (mul_ne_zero hq hr)).trans (max_le ?_ ?_)
  · refine (Int.natAbs_add_le _ _).trans ?_
    rw [Int.natAbs_mul, Int.natAbs_mul, Int.natAbs_natCast, Int.natAbs_natCast,
      Nat.mul_comm r.num.natAbs]
    omega
  · rw [Int.natAbs_mul, Int.natAbs_natCast, Int.natAbs_natCast]
    omega

lemma magnitude_mul_le : magnitude (q * r) ≤ magnitude q * magnitude r := by
  have hq : (q.den : Int) ≠ 0 := by exact_mod_cast q.den_nz
  have hr : (r.den : Int) ≠ 0 := by exact_mod_cast r.den_nz
  have hmul : q * r = ((q.num * r.num : Int) : Rat) / ((q.den * r.den : Int) : Rat) := by
    push_cast
    rw [mul_div_mul_comm, Rat.num_div_den, Rat.num_div_den]
  rw [hmul]
  refine (magnitude_div_le _ _ (mul_ne_zero hq hr)).trans (max_le ?_ ?_)
  · rw [Int.natAbs_mul]
    exact Nat.mul_le_mul (natAbs_num_le_magnitude q) (natAbs_num_le_magnitude r)
  · rw [Int.natAbs_mul, Int.natAbs_natCast, Int.natAbs_natCast]
    exact Nat.mul_le_mul (den_le_magnitude q) (den_le_magnitude r)

lemma magnitude_inv_le : magnitude r⁻¹ ≤ magnitude r := by
  rcases eq_or_ne r 0 with rfl | hr
  · rw [inv_zero]
  · have hinv : r⁻¹ = ((r.den : Int) : Rat) / (r.num : Rat) := by
      conv_lhs => rw [← Rat.num_div_den r]
      rw [inv_div, Int.cast_natCast]
    rw [hinv]
    refine (magnitude_div_le _ _ (Rat.num_ne_zero.2 hr)).trans ?_
    exact max_le (den_le_magnitude r) (natAbs_num_le_magnitude r)

lemma magnitude_quotient_le : magnitude (q / r) ≤ magnitude q * magnitude r := by
  rw [div_eq_mul_inv]
  exact (magnitude_mul_le q r⁻¹).trans (Nat.mul_le_mul_left _ (magnitude_inv_le r))

end

/-! ### Numerals -/

/-- A rational whose numerator and denominator can both be written. -/
def IsShort (q : Rat) : Prop :=
  magnitude q < numeralBound

lemma one_lt_numeralBound : 1 < numeralBound := by
  decide +kernel

lemma integerText_of_lt {n : Int} (h : n.natAbs < numeralBound) :
    integerText n = .ok (toString n) :=
  if_pos h

lemma integerText_of_le {n : Int} (h : numeralBound ≤ n.natAbs) :
    integerText n = .error (.fault .wrongValue) :=
  if_neg (Nat.not_lt.2 h)

lemma isShort_intCast {n : Int} : IsShort n ↔ n.natAbs < numeralBound := by
  rw [IsShort, magnitude_intCast, max_lt_iff]
  exact and_iff_left one_lt_numeralBound

lemma rationalText_of_isShort {q : Rat} (h : IsShort q) : ∃ t, rationalText q = .ok t := by
  obtain ⟨hnum, hden⟩ := max_lt_iff.1 h
  rw [rationalText, integerText_of_lt hnum]
  split
  · exact ⟨_, rfl⟩
  · rw [integerText_of_lt (n := q.den) (by simpa using hden)]
    exact ⟨_, rfl⟩

lemma rationalText_of_not_isShort {q : Rat} (h : ¬IsShort q) :
    rationalText q = .error (.fault .wrongValue) := by
  rw [IsShort, magnitude, max_lt_iff, not_and, not_lt] at h
  rw [rationalText]
  split
  · next hden =>
    refine integerText_of_le (not_lt.1 fun hnum => ?_)
    exact absurd (h hnum) (by rw [hden]; exact not_le.2 one_lt_numeralBound)
  · by_cases hnum : q.num.natAbs < numeralBound
    · rw [integerText_of_lt hnum, integerText_of_le (n := q.den) (by simpa using h hnum)]
      rfl
    · rw [integerText_of_le (not_lt.1 hnum)]
      rfl

namespace Number

variable {a : Number} {x : Rat}

lemma exists_exactValue?_of_isExact (ha : a.isExact) : ∃ x, a.exactValue? = some x := by
  cases a with
  | float => cases ha
  | _ => exact ⟨_, rfl⟩

lemma isExact_of_exactValue? (ha : a.exactValue? = some x) : a.isExact := by
  cases a with
  | float => cases ha
  | _ => rfl

lemma isExact_add {b : Number} (ha : a.isExact) (hb : b.isExact) : (a + b).isExact := by
  obtain ⟨x, hx⟩ := exists_exactValue?_of_isExact ha
  obtain ⟨y, hy⟩ := exists_exactValue?_of_isExact hb
  exact isExact_of_exactValue? (exactValue?_add hx hy)

lemma isExact_mul {b : Number} (ha : a.isExact) (hb : b.isExact) : (a * b).isExact := by
  obtain ⟨x, hx⟩ := exists_exactValue?_of_isExact ha
  obtain ⟨y, hy⟩ := exists_exactValue?_of_isExact hb
  exact isExact_of_exactValue? (exactValue?_mul hx hy)

lemma isExact_neg (ha : a.isExact) : (-a).isExact := by
  obtain ⟨x, hx⟩ := exists_exactValue?_of_isExact ha
  exact isExact_of_exactValue? (exactValue?_neg hx)

lemma refuseLong_of_isExact (ha : a.isExact) : a.refuseLong = .ok () := by
  cases a with
  | float => cases ha
  | _ => rfl

/-- The text of an exact number is that of its value, unless it is too long. -/
lemma text_eq_ok (ha : a.exactValue? = some x) (hx : IsShort x) : ∃ t, a.text = .ok t := by
  rcases exactValue?_eq_some_iff.1 ha with ⟨n, rfl, rfl⟩ | rfl
  · exact ⟨_, integerText_of_lt (isShort_intCast.1 hx)⟩
  · exact rationalText_of_isShort hx

lemma text_eq_error (ha : a.exactValue? = some x) (hx : ¬IsShort x) :
    a.text = .error (.fault .wrongValue) := by
  rcases exactValue?_eq_some_iff.1 ha with ⟨n, rfl, rfl⟩ | rfl
  · exact integerText_of_le (not_lt.1 fun h => hx (isShort_intCast.2 h))
  · exact rationalText_of_not_isShort hx

end Number

/-! ### Heights -/

/-- What a chain adds to the heights of its operands. -/
def Chain.stretch : Chain → Nat
  | sum => 2
  | product => 1

lemma Chain.one_le_stretch (c : Chain) : 1 ≤ c.stretch := by
  cases c <;> decide

namespace Expr

/-- A bound on the magnitudes of the constants of an expression, and of the sums, products and
quotients that it makes of them. -/
def height : Expr → Nat
  | const c => (c.exactValue?.map magnitude).getD 1
  | add l r | sub l r => 2 * (l.height * r.height)
  | mul l r | div l r | pow l r | log l r => l.height * r.height
  | neg e => e.height
  | var _ | other _ _ _ => 1

/-- An expression without floating point numbers, of known kinds. -/
def IsExact : Expr → Prop
  | const c => c.isExact
  | var _ => True
  | add l r | sub l r | mul l r | div l r | pow l r | log l r => l.IsExact ∧ r.IsExact
  | neg e => e.IsExact
  | other _ _ _ => False

variable {e l r : Expr} {H : Nat}

lemma height_const {c : Number} {q : Rat} (h : c.exactValue? = some q) :
    (const c).height = magnitude q := by
  simp [height, h]

lemma height_node (c : Chain) (l r : Expr) :
    (c.node l r).height = c.stretch * (l.height * r.height) := by
  cases c with
  | sum => rfl
  | product => exact (Nat.one_mul _).symm

lemma isExact_node {c : Chain} : (c.node l r).IsExact ↔ l.IsExact ∧ r.IsExact := by
  cases c <;> rfl

lemma one_le_height (e : Expr) : 1 ≤ e.height := by
  induction e with
  | const c =>
    rw [height]
    cases c.exactValue? with
    | none => exact Nat.le_refl 1
    | some q => exact one_le_magnitude q
  | var | other => exact Nat.le_refl 1
  | neg e ih => exact ih
  | add l r ihl ihr | sub l r ihl ihr =>
    exact Nat.le_trans (Nat.mul_le_mul ihl ihr) (Nat.le_mul_of_pos_left _ Nat.two_pos)
  | _ l r ihl ihr => exact Nat.mul_le_mul ihl ihr

lemma height_parts_le (l r : Expr) :
    l.height ≤ l.height * r.height ∧ r.height ≤ l.height * r.height :=
  ⟨Nat.le_mul_of_pos_right _ r.one_le_height, Nat.le_mul_of_pos_left _ l.one_le_height⟩

lemma height_node_parts_le (c : Chain) (l r : Expr) :
    l.height ≤ (c.node l r).height ∧ r.height ≤ (c.node l r).height := by
  obtain ⟨hl, hr⟩ := height_parts_le l r
  have hnode : l.height * r.height ≤ (c.node l r).height := by
    rw [height_node]
    exact Nat.le_mul_of_pos_left _ c.one_le_stretch
  exact ⟨hl.trans hnode, hr.trans hnode⟩

/-- The height does not depend on the order and the nesting of the operands of chains. -/
lemma Reordered.height_eq {e e' : Expr} (h : e.Reordered e') : e.height = e'.height := by
  induction h with
  | refl e => rfl
  | symm _ ih => exact ih.symm
  | trans _ _ ih ih' => exact ih.trans ih'
  | comm c l r => rw [height_node, height_node, Nat.mul_comm l.height]
  | assoc c e₁ e₂ e₃ =>
    simp only [height_node]
    ring
  | node c _ _ ihl ihr => rw [height_node, height_node, ihl, ihr]
  | neg _ ih => rw [height, height, ih]
  | _ _ _ ihl ihr => rw [height, height, ihl, ihr]

lemma Reordered.isExact_iff {e e' : Expr} (h : e.Reordered e') : e.IsExact ↔ e'.IsExact := by
  induction h with
  | refl e => rfl
  | symm _ ih => exact ih.symm
  | trans _ _ ih ih' => exact ih.trans ih'
  | comm c l r => rw [isExact_node, isExact_node, and_comm]
  | assoc c e₁ e₂ e₃ => simp only [isExact_node, and_assoc]
  | node c _ _ ihl ihr => rw [isExact_node, isExact_node, ihl, ihr]
  | neg _ ih => rw [IsExact, IsExact, ih]
  | _ _ _ ihl ihr => rw [IsExact, IsExact, ihl, ihr]

lemma IsExact.of_mem_operands {c : Chain} {x : Expr} (he : e.IsExact) (hx : x ∈ c.operands e) :
    x.IsExact ∧ x.height ≤ e.height := by
  induction e using Chain.induct c with
  | node l r ihl ihr =>
    obtain ⟨hl, hr⟩ := isExact_node.1 he
    obtain ⟨hlel, hler⟩ := height_node_parts_le c l r
    rw [Chain.operands_node, List.mem_append] at hx
    rcases hx with hx | hx
    · obtain ⟨hexact, hle⟩ := ihl hl hx
      exact ⟨hexact, hle.trans hlel⟩
    · obtain ⟨hexact, hle⟩ := ihr hr hx
      exact ⟨hexact, hle.trans hler⟩
  | leaf e hops =>
    rw [hops, List.mem_singleton] at hx
    exact ⟨hx ▸ he, Nat.le_of_eq (congrArg height hx)⟩

end Expr

/-! ### Refusals for the length of a numeral -/

/-- A refusal for the length of a numeral, where the height `H` allows for one. -/
def IsTooLong (H : Nat) (err : Error) : Prop :=
  err = .fault .wrongValue ∧ numeralBound ≤ H

/-- A computation that is refused for the length of a numeral only. -/
def Renders {α : Type} (H : Nat) (x : Except Error α) : Prop :=
  ∀ err, x = .error err → IsTooLong H err

section

variable {α β : Type} {H : Nat}

lemma renders_ok (a : α) : Renders H (.ok a) :=
  refusedOnly_ok a

lemma Renders.mono {H' : Nat} {x : Except Error α} (hx : Renders H x) (h : H ≤ H') :
    Renders H' x := by
  intro err herr
  obtain ⟨hlong, hle⟩ := hx err herr
  exact ⟨hlong, hle.trans h⟩

lemma Renders.bind {x : Except Error α} {f : α → Except Error β} (hx : Renders H x)
    (hf : ∀ a, x = .ok a → Renders H (f a)) : Renders H (x >>= f) :=
  RefusedOnly.bind hx hf

lemma Renders.mapM {f : α → Except Error β} {as : List α} (hf : ∀ a ∈ as, Renders H (f a)) :
    Renders H (as.mapM f) :=
  RefusedOnly.mapM hf

end

namespace Expr

variable {e k l r : Expr} {H : Nat}

lemma renders_text_const {c : Number} (hc : (const c).IsExact) (h : (const c).height ≤ H) :
    Renders H c.text := by
  obtain ⟨q, hq⟩ := Number.exists_exactValue?_of_isExact hc
  rw [height_const hq] at h
  intro err herr
  by_cases hshort : IsShort q
  · obtain ⟨t, ht⟩ := Number.text_eq_ok hq hshort
    rw [ht] at herr
    cases herr
  · rw [Number.text_eq_error hq hshort] at herr
    cases herr
    exact ⟨rfl, (not_lt.1 hshort).trans h⟩

/-- The heights of the parts of a node are within a bound if its own is. -/
lemma heights_le (h : l.height * r.height ≤ H) : l.height ≤ H ∧ r.height ≤ H :=
  ⟨(height_parts_le l r).1.trans h, (height_parts_le l r).2.trans h⟩

lemma heights_le_of_two_mul (h : 2 * (l.height * r.height) ≤ H) : l.height ≤ H ∧ r.height ≤ H :=
  heights_le ((Nat.le_mul_of_pos_left _ Nat.two_pos).trans h)

/-- The text of an expression is refused for the length of a numeral only. -/
lemma renders_text (he : e.IsExact) (h : e.height ≤ H) : Renders H e.text := by
  induction e with
  | const c =>
    rw [text]
    exact renders_text_const he h
  | var x =>
    rw [text]
    exact renders_ok _
  | other => exact he.elim
  | neg e ih =>
    rw [text]
    exact (ih he h).bind fun _ _ => renders_ok _
  | add l r ihl ihr | sub l r ihl ihr =>
    obtain ⟨hl, hr⟩ := heights_le_of_two_mul h
    rw [text]
    exact (ihl he.1 hl).bind fun _ _ => (ihr he.2 hr).bind fun _ _ => renders_ok _
  | _ l r ihl ihr =>
    obtain ⟨hl, hr⟩ := heights_le h
    rw [text]
    exact (ihl he.1 hl).bind fun _ _ => (ihr he.2 hr).bind fun _ _ => renders_ok _

lemma renders_keyTextWithin (c : Option Chain) (he : e.IsExact) (h : e.height ≤ H) :
    Renders H (keyTextWithin c e) := by
  induction e generalizing c with
  | const c => exact (renders_text_const he h).bind fun _ _ => renders_ok _
  | var x => exact renders_ok _
  | other => exact he.elim
  | neg e ih => exact (ih _ he h).bind fun _ _ => renders_ok _
  | add l r ihl ihr | sub l r ihl ihr =>
    obtain ⟨hl, hr⟩ := heights_le_of_two_mul h
    exact (ihl _ he.1 hl).bind fun _ _ => (ihr _ he.2 hr).bind fun _ _ => renders_ok _
  | _ l r ihl ihr =>
    obtain ⟨hl, hr⟩ := heights_le h
    exact (ihl _ he.1 hl).bind fun _ _ => (ihr _ he.2 hr).bind fun _ _ => renders_ok _

lemma reordered_likeKeyWithin {c : Option Chain} (h : likeKeyWithin c e = .ok k) :
    e.Reordered k := by
  rw [likeKeyWithin_eq] at h
  exact reordered_arrangeWithin (fun x x' hx => .of_eq (Except.ok.inj hx)) h

lemma renders_arrange (c : Chain) (he : e.IsExact) (h : e.height ≤ H) :
    Renders H (c.arrange keyText (· ≤ ·) e) := by
  refine (Renders.mapM fun x hx => ?_).bind fun _ _ => renders_ok _
  obtain ⟨hexact, hle⟩ := he.of_mem_operands hx
  exact (renders_keyTextWithin none hexact (hle.trans h)).bind fun _ _ => renders_ok _

/-- To arrange a reordering is refused for the length of a numeral only. -/
lemma renders_arranged {c : Chain} {d : Option Chain} (hre : e.Reordered k) (he : e.IsExact)
    (h : e.height ≤ H) :
    Renders H (if d = some c then return k else c.arrange keyText (· ≤ ·) k) := by
  split
  · exact renders_ok _
  · exact renders_arrange c (hre.isExact_iff.1 he) (hre.height_eq ▸ h)

lemma renders_likeKeyWithin (c : Option Chain) (he : e.IsExact) (h : e.height ≤ H) :
    Renders H (likeKeyWithin c e) := by
  induction e generalizing c with
  | const | var | other => exact renders_ok _
  | neg e ih => exact (ih _ he h).bind fun _ _ => renders_ok _
  | add l r ihl ihr =>
    obtain ⟨hl, hr⟩ := heights_le_of_two_mul h
    refine (ihl _ he.1 hl).bind fun l' hl' => (ihr _ he.2 hr).bind fun r' hr' => ?_
    exact renders_arranged (c := .sum)
      (.node .sum (reordered_likeKeyWithin hl') (reordered_likeKeyWithin hr')) he h
  | mul l r ihl ihr =>
    obtain ⟨hl, hr⟩ := heights_le h
    refine (ihl _ he.1 hl).bind fun l' hl' => (ihr _ he.2 hr).bind fun r' hr' => ?_
    exact renders_arranged (c := .product)
      (.node .product (reordered_likeKeyWithin hl') (reordered_likeKeyWithin hr')) he h
  | sub l r ihl ihr =>
    obtain ⟨hl, hr⟩ := heights_le_of_two_mul h
    exact (ihl _ he.1 hl).bind fun _ _ => (ihr _ he.2 hr).bind fun _ _ => renders_ok _
  | _ l r ihl ihr =>
    obtain ⟨hl, hr⟩ := heights_le h
    exact (ihl _ he.1 hl).bind fun _ _ => (ihr _ he.2 hr).bind fun _ _ => renders_ok _

lemma refuseLong_of_isExact (he : e.IsExact) : e.refuseLong = .ok () := by
  induction e with
  | const c => exact Number.refuseLong_of_isExact he
  | var | other => rfl
  | neg e ih => exact ih he
  | _ l r ihl ihr => exact bind_eq_ok_iff.2 ⟨(), ihl he.1, ihr he.2⟩

/-- The representative of an expression is refused for the length of a numeral only. -/
lemma renders_likeKey (he : e.IsExact) (h : e.height ≤ H) : Renders H e.likeKey := by
  refine (renders_likeKeyWithin none he h).bind fun k hk => ?_
  rw [refuseLong_of_isExact ((reordered_likeKeyWithin hk).isExact_iff.1 he)]
  exact renders_ok k

end Expr

end SymbolicAlgebra
