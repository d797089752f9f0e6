import SymbolicAlgebra.Proofs.NumeralLength
import SymbolicAlgebra.Proofs.Sameness

/-!
# Texts of representatives

Operands are sorted by the texts of their representatives. `Expr.fullText` is such a text whatever
the length of its numerals, so that it is there for every expression over exact constants. Where all
names are single characters, no text begins another one, and the text of a representative determines
it up to the values of its constants (`same_of_fullText_eq`).
-/

namespace SymbolicAlgebra

/-! ### Numerals -/

/-- The numeral of a rational, whatever its length. -/
def numeral (q : Rat) : String :=
  if q.den = 1 then toString q.num else toString q.num ++ "/" ++ toString (q.den : Int)

lemma toString_of_integerText {n : Int} {t : String} (h : integerText n = .ok t) :
    t = toString n := by
  rw [integerText] at h
  split at h
  · exact (Except.ok.inj h).symm
  · cases h

lemma numeral_of_rationalText {q : Rat} {t : String} (h : rationalText q = .ok t) :
    t = numeral q := by
  rw [rationalText] at h
  rw [numeral]
  split at h
  · next hden => rw [if_pos hden, toString_of_integerText h]
  · next hden =>
    obtain ⟨num, hnum, h⟩ := bind_eq_ok_iff.1 h
    obtain ⟨den, hd, h⟩ := bind_eq_ok_iff.1 h
    rw [if_neg hden, ← pure_eq_ok_iff.1 h, toString_of_integerText hnum, toString_of_integerText hd]

lemma numeral_of_text {a : Number} {x : Rat} {t : String} (ha : a.exactValue? = some x)
    (h : a.text = .ok t) : t = numeral x := by
  rcases Number.exactValue?_eq_some_iff.1 ha with ⟨n, rfl, rfl⟩ | rfl
  · rw [toString_of_integerText h, numeral, if_pos (Rat.den_intCast n), Rat.num_intCast]
  · exact numeral_of_rationalText h

lemma toList_toString_ofNat (m : Nat) : (toString (Int.ofNat m)).toList = Nat.toDigits 10 m :=
  Nat.toList_repr

lemma toList_toString_negSucc (m : Nat) :
    (toString (Int.negSucc m)).toList = '-' :: Nat.toDigits 10 (m + 1) := by
  show ("-" ++ (m + 1).repr).toList = _
  rw [String.toList_append, Nat.toList_repr]
  rfl

lemma isDigit_of_mem_toDigits {m : Nat} {c : Char} (h : c ∈ Nat.toDigits 10 m) : c.isDigit :=
  Nat.isDigit_of_mem_toDigits (by decide) (by decide) h

lemma notMem_toString (n : Int) {c : Char} (hminus : c ≠ '-') (hdigit : c.isDigit = false) :
    c ∉ (toString n).toList := by
  have hdigits (m : Nat) : c ∉ Nat.toDigits 10 m :=
    fun h => by simp [isDigit_of_mem_toDigits h] at hdigit
  cases n with
  | ofNat m =>
    rw [toList_toString_ofNat]
    exact hdigits m
  | negSucc m =>
    rw [toList_toString_negSucc, List.mem_cons]
    exact fun h => h.elim hminus (hdigits _)

lemma toDigits_injective {m n : Nat} (h : Nat.toDigits 10 m = Nat.toDigits 10 n) : m = n := by
  rw [← Nat.ofDigitChars_ten_toDigits (n := m), h, Nat.ofDigitChars_ten_toDigits]

/-- The numeral of an integer determines it. -/
lemma toString_int_injective {m n : Int} (h : toString m = toString n) : m = n := by
  have hminus (k : Nat) : '-' ∉ Nat.toDigits 10 k :=
    fun h => absurd (isDigit_of_mem_toDigits h) (by decide)
  have h := congrArg String.toList h
  cases m <;> cases n <;> simp only [toList_toString_ofNat, toList_toString_negSucc] at h
  · rw [toDigits_injective h]
  · exact absurd (h ▸ List.mem_cons_self) (hminus _)
  · exact absurd (h ▸ List.mem_cons_self) (hminus _)
  · rw [Nat.succ_injective (toDigits_injective (List.cons.inj h).2)]

lemma notMem_numeral (q : Rat) : ')' ∉ (numeral q).toList := by
  have hnum := notMem_toString q.num (c := ')') (by decide) (by decide)
  have hden := notMem_toString (q.den : Int) (c := ')') (by decide) (by decide)
  rw [numeral]
  split
  · exact hnum
  · rw [String.toList_append, String.toList_append, List.mem_append, List.mem_append]
    rintro ((h | h) | h)
    · exact hnum h
    · exact absurd h (by decide)
    · exact hden h

/-- Lists are determined by what follows the first place of an entry. -/
lemma append_cons_inj {α : Type} {a : α} {as as' bs bs' : List α} (ha : a ∉ as) (ha' : a ∉ as') :
    as ++ a :: bs = as' ++ a :: bs' ↔ as = as' ∧ bs = bs' := by
  constructor
  · intro h
    induction as generalizing as' with
    | nil =>
      cases as' with
      | nil => exact ⟨rfl, (List.cons.inj h).2⟩
      | cons x as' => exact absurd (List.mem_cons.2 (.inl (List.cons.inj h).1)) ha'
    | cons x as ih =>
      cases as' with
      | nil => exact absurd (List.mem_cons.2 (.inl (List.cons.inj h).1.symm)) ha
      | cons y as' =>
        obtain ⟨rfl, hrest⟩ := List.cons.inj h
        obtain ⟨rfl, hbs⟩ := ih (fun hx => ha (.tail x hx)) (fun hx => ha' (.tail x hx)) hrest
        exact ⟨rfl, hbs⟩
  · rintro ⟨rfl, rfl⟩
    rfl

/-- A numeral determines its rational. -/
lemma numeral_injective {q r : Rat} (h : numeral q = numeral r) : q = r := by
  have hslash (n : Int) := notMem_toString n (c := '/') (by decide) (by decide)
  rw [numeral, numeral] at h
  split at h <;> split at h
  · next hq hr => exact Rat.ext (toString_int_injective h) (hq.trans hr.symm)
  · have hmem := hslash q.num
    rw [h] at hmem
    simp at hmem
  · have hmem := hslash r.num
    rw [← h] at hmem
    simp at hmem
  · have hlist := congrArg String.toList h
    simp only [String.toList_append, List.append_assoc, String.reduceToList,
      List.singleton_append] at hlist
    obtain ⟨hnum, hden⟩ := (append_cons_inj (hslash q.num) (hslash r.num)).1 hlist
    refine Rat.ext (toString_int_injective (String.toList_inj.1 hnum)) ?_
    exact_mod_cast toString_int_injective (String.toList_inj.1 hden)

/-! ### Texts of any length -/

namespace Expr

/-- The text of a representative, where a chain of the kind `c` gives only the texts of its
operands, whatever the length of its numerals. -/
def fullText (c : Option Chain) : Expr → String
  | const n => "const(" ++ numeral (n.exactValue?.getD 0) ++ ")"
  | var x => "var('" ++ x ++ "')"
  | add l r =>
    let operands := fullText (some .sum) l ++ ", " ++ fullText (some .sum) r
    if c = some .sum then operands else chainText "Add" operands
  | mul l r =>
    let operands := fullText (some .product) l ++ ", " ++ fullText (some .product) r
    if c = some .product then operands else chainText "Mul" operands
  | sub l r => tupleText "Sub" [fullText none l, fullText none r]
  | div n d => tupleText "Div" [fullText none n, fullText none d]
  | pow b p => tupleText "Pow" [fullText none b, fullText none p]
  | log b a => tupleText "Log" [fullText none b, fullText none a]
  | neg e => tupleText "Negate" [fullText none e]
  | other _ kind _ => kind

variable {c : Chain} {e k k' l r : Expr} {t : String}

/-- A text is the full one, unless it is refused. -/
lemma fullText_of_keyTextWithin {c : Option Chain} (he : e.IsExact)
    (h : keyTextWithin c e = .ok t) : t = fullText c e := by
  induction e generalizing c t with
  | const a =>
    obtain ⟨q, hq⟩ := Number.exists_exactValue?_of_isExact he
    obtain ⟨n, hn, h⟩ := bind_eq_ok_iff.1 h
    rw [← pure_eq_ok_iff.1 h, numeral_of_text hq hn, fullText, hq, Option.getD_some]
  | var x => exact (Except.ok.inj h).symm
  | other => exact he.elim
  | neg e ih =>
    obtain ⟨n, hn, h⟩ := bind_eq_ok_iff.1 h
    rw [← pure_eq_ok_iff.1 h, ih he hn]
    rfl
  | _ l r ihl ihr =>
    obtain ⟨tl, hl, h⟩ := bind_eq_ok_iff.1 h
    obtain ⟨tr, hr, h⟩ := bind_eq_ok_iff.1 h
    rw [← pure_eq_ok_iff.1 h, ihl he.1 hl, ihr he.2 hr]
    rfl

/-- The name of a kind of chain. -/
def chainName : Chain → String
  | .sum => "Add"
  | .product => "Mul"

lemma fullText_node_self (c : Chain) (l r : Expr) :
    fullText (some c) (c.node l r) = fullText (some c) l ++ ", " ++ fullText (some c) r := by
  cases c <;> rfl

lemma fullText_node_none (c : Chain) (l r : Expr) : fullText none (c.node l r) =
    chainText (chainName c) (fullText (some c) l ++ ", " ++ fullText (some c) r) := by
  cases c <;> rfl

/-- An expression that is no chain of a kind has one text among the operands of such a chain and by
itself. -/
lemma fullText_of_operands (h : c.operands e = [e]) : fullText (some c) e = fullText none e := by
  cases e with
  | add l r =>
    cases c with
    | sum => exact absurd h (Chain.sum.operands_node_ne l r _)
    | product => rfl
  | mul l r =>
    cases c with
    | sum => rfl
    | product => exact absurd h (Chain.product.operands_node_ne l r _)
  | _ => rfl

/-! ### No text begins another one -/

/-- An expression of known kinds over exact constants and names of one character. -/
def IsReadable : Expr → Prop
  | const c => c.isExact
  | var x => x.length = 1
  | add l r | sub l r | mul l r | div l r | pow l r | log l r => l.IsReadable ∧ r.IsReadable
  | neg e => e.IsReadable
  | other _ _ _ => False

/-- An expression whose chains are put together to the right. -/
def LeansRight : Expr → Prop
  | const _ | var _ | other _ _ _ => True
  | add l r => Chain.sum.operands l = [l] ∧ l.LeansRight ∧ r.LeansRight
  | mul l r => Chain.product.operands l = [l] ∧ l.LeansRight ∧ r.LeansRight
  | sub l r | div l r | pow l r | log l r => l.LeansRight ∧ r.LeansRight
  | neg e => e.LeansRight

lemma isReadable_node : (c.node l r).IsReadable ↔ l.IsReadable ∧ r.IsReadable := by
  cases c <;> rfl

lemma leansRight_node :
    (c.node l r).LeansRight ↔ c.operands l = [l] ∧ l.LeansRight ∧ r.LeansRight := by
  cases c <;> rfl

/-- The third character of a text, which tells the kind of the expression. -/
def initial : Expr → Char
  | const _ => 'n'
  | var _ => 'r'
  | add _ _ => 'A'
  | sub _ _ => 'S'
  | mul _ _ => 'M'
  | div _ _ => 'D'
  | pow _ _ => 'P'
  | log _ _ => 'L'
  | neg _ => 'N'
  | other _ _ _ => ' '

lemma toList_tupleText_pair (name s t : String) : (tupleText name [s, t]).toList =
    '(' :: '\'' ::
      (name.toList ++ '\'' :: ',' :: ' ' :: (s.toList ++ ',' :: ' ' :: (t.toList ++ [')']))) := by
  rw [tupleText, String.intercalate_cons_cons]
  simp

lemma toList_tupleText_singleton (name s : String) : (tupleText name [s]).toList =
    '(' :: '\'' :: (name.toList ++ '\'' :: ',' :: ' ' :: (s.toList ++ [')'])) := by
  simp [tupleText]

lemma toList_chainText (name s : String) : (chainText name s).toList =
    '(' :: '\'' :: (name.toList ++ '\'' :: ',' :: ' ' :: '(' :: (s.toList ++ [')', ')'])) := by
  simp [chainText]

lemma exists_toList_fullText (hk : k.IsReadable) :
    ∃ a b cs, (fullText none k).toList = a :: b :: k.initial :: cs := by
  cases k with
  | other => exact hk.elim
  | add l r => exact ⟨'(', '\'', _, by rw [fullText, if_neg nofun, toList_chainText]; rfl⟩
  | mul l r => exact ⟨'(', '\'', _, by rw [fullText, if_neg nofun, toList_chainText]; rfl⟩
  | const c =>
    exact ⟨'c', 'o', _, by rw [fullText, String.toList_append, String.toList_append]; rfl⟩
  | var x => exact ⟨'v', 'a', _, by rw [fullText, String.toList_append, String.toList_append]; rfl⟩
  | neg e => exact ⟨'(', '\'', _, by rw [fullText, toList_tupleText_singleton]; rfl⟩
  | _ l r => exact ⟨'(', '\'', _, by rw [fullText, toList_tupleText_pair]; rfl⟩

/-- Whatever comes after it, the text of an expression is the beginning of no other text. -/
def IsTold (k : Expr) : Prop :=
  ∀ k' cs cs', k'.IsReadable → k'.LeansRight →
    (fullText none k).toList ++ cs = (fullText none k').toList ++ cs' → k.same k' ∧ cs = cs'

/-- The texts of the operands of a chain, up to the closing parenthesis, are the beginning of no
other such texts. -/
def IsToldWithin (c : Chain) (k : Expr) : Prop :=
  ∀ k' cs cs', k'.IsReadable → k'.LeansRight →
    (fullText (some c) k).toList ++ ')' :: cs = (fullText (some c) k').toList ++ ')' :: cs' →
      k.same k' ∧ cs = cs'

lemma toList_fullText_node (c : Chain) (hops : c.operands l = [l]) :
    (fullText (some c) (c.node l r)).toList =
      (fullText none l).toList ++ ',' :: ' ' :: (fullText (some c) r).toList := by
  rw [fullText_node_self, fullText_of_operands hops]
  simp

/-- A single operand. -/
lemma IsTold.within (h : k.IsTold) (hops : c.operands k = [k]) : IsToldWithin c k := by
  intro k' cs cs' hk' hl' heq
  rw [fullText_of_operands hops] at heq
  cases k' using Chain.induct c with
  | leaf k' hops' =>
    rw [fullText_of_operands hops'] at heq
    obtain ⟨hsame, hcs⟩ := h k' _ _ hk' hl' heq
    exact ⟨hsame, (List.cons.inj hcs).2⟩
  | node l' r' =>
    obtain ⟨hops', hl', -⟩ := leansRight_node.1 hl'
    rw [toList_fullText_node c hops', List.append_assoc] at heq
    obtain ⟨-, hcs⟩ := h l' _ _ (isReadable_node.1 hk').1 hl' heq
    exact absurd (List.cons.inj hcs).1 (by decide)

/-- An operand before others. -/
lemma IsTold.node_within (h : l.IsTold) (hops : c.operands l = [l]) (hr : IsToldWithin c r) :
    IsToldWithin c (c.node l r) := by
  intro k' cs cs' hk' hl' heq
  rw [toList_fullText_node c hops, List.append_assoc] at heq
  cases k' using Chain.induct c with
  | leaf k' hops' =>
    rw [fullText_of_operands hops'] at heq
    obtain ⟨-, hcs⟩ := h k' _ _ hk' hl' heq
    exact absurd (List.cons.inj hcs).1 (by decide)
  | node l' r' =>
    obtain ⟨hreadl, hreadr⟩ := isReadable_node.1 hk'
    obtain ⟨hops', hl', hr'⟩ := leansRight_node.1 hl'
    rw [toList_fullText_node c hops', List.append_assoc] at heq
    obtain ⟨hsamel, hcs⟩ := h l' _ _ hreadl hl' heq
    obtain ⟨hsamer, hcs⟩ := hr r' _ _ hreadr hr' (by simpa using hcs)
    rw [same_node, hsamel, hsamer]
    exact ⟨rfl, hcs⟩

lemma initial_eq {cs cs' : List Char} (hk : k.IsReadable) (hk' : k'.IsReadable)
    (h : (fullText none k).toList ++ cs = (fullText none k').toList ++ cs') :
    k.initial = k'.initial := by
  obtain ⟨_, _, _, heq⟩ := exists_toList_fullText hk
  obtain ⟨_, _, _, heq'⟩ := exists_toList_fullText hk'
  rw [heq, heq'] at h
  simp only [List.cons_append, List.cons.injEq] at h
  exact h.2.2.1

/-- A chain among other things is told by its operands. -/
lemma IsToldWithin.isTold (hk : (c.node l r).IsReadable) (h : IsToldWithin c (c.node l r)) :
    (c.node l r).IsTold := by
  intro k' cs cs' hk' hl' heq
  have hinitial := initial_eq hk hk' heq
  obtain ⟨l', r', rfl⟩ : ∃ l' r', k' = c.node l' r' := by
    cases c <;> cases k' <;> simp [Chain.node, initial] at hinitial <;> exact ⟨_, _, rfl⟩
  rw [fullText_node_none, fullText_node_none, ← fullText_node_self, ← fullText_node_self,
    toList_chainText, toList_chainText] at heq
  obtain ⟨hsame, hcs⟩ := h _ (')' :: cs) (')' :: cs') hk' hl' (by simpa using heq)
  exact ⟨hsame, (List.cons.inj hcs).2⟩

lemma same_of_tupleText_pair {name : String} {l' r' : Expr} {cs cs' : List Char} (hl : l.IsTold)
    (hr : r.IsTold) (hk' : l'.IsReadable ∧ r'.IsReadable) (hl' : l'.LeansRight ∧ r'.LeansRight)
    (h : (tupleText name [fullText none l, fullText none r]).toList ++ cs =
      (tupleText name [fullText none l', fullText none r']).toList ++ cs') :
    (l.same l' && r.same r') ∧ cs = cs' := by
  rw [toList_tupleText_pair, toList_tupleText_pair] at h
  obtain ⟨hsamel, h⟩ := hl l' (',' :: ' ' :: ((fullText none r).toList ++ ')' :: cs))
    (',' :: ' ' :: ((fullText none r').toList ++ ')' :: cs')) hk'.1 hl'.1 (by simpa using h)
  obtain ⟨hsamer, h⟩ := hr r' (')' :: cs) (')' :: cs') hk'.2 hl'.2 (by simpa using h)
  rw [hsamel, hsamer]
  exact ⟨rfl, (List.cons.inj h).2⟩

lemma isTold_const {a : Number} (ha : a.isExact) : (const a).IsTold := by
  intro k' cs cs' hk' hl' heq
  have hinitial := initial_eq (k := .const a) ha hk' heq
  cases k' <;> simp [initial] at hinitial
  next b =>
  obtain ⟨x, hx⟩ := Number.exists_exactValue?_of_isExact ha
  obtain ⟨y, hy⟩ := Number.exists_exactValue?_of_isExact hk'
  simp only [fullText, hx, hy, Option.getD_some, String.toList_append, List.append_assoc] at heq
  obtain ⟨hnumeral, hcs⟩ := (append_cons_inj (notMem_numeral x) (notMem_numeral y)).1
    (List.append_cancel_left heq)
  exact ⟨(Number.same_iff hx hy).2 (numeral_injective (String.toList_inj.1 hnumeral)), hcs⟩

lemma isTold_var {x : String} (hx : x.length = 1) : (var x).IsTold := by
  intro k' cs cs' hk' hl' heq
  have hinitial := initial_eq (k := .var x) hx hk' heq
  cases k' <;> simp [initial] at hinitial
  next y =>
  simp only [fullText, String.toList_append, List.append_assoc] at heq
  obtain ⟨hname, hcs⟩ := List.append_inj (List.append_cancel_left heq)
    (by rw [String.length_toList, String.length_toList, hx, hk'])
  exact ⟨by rw [String.toList_inj.1 hname]; simp [same], List.append_cancel_left hcs⟩

/-- The text of a representative tells it apart, by itself and among operands. -/
lemma isTold (hk : k.IsReadable) (hl : k.LeansRight) : k.IsTold ∧ ∀ c, IsToldWithin c k := by
  have hleaf {k : Expr} (h : k.IsTold) (hops : ∀ c : Chain, c.operands k = [k]) :
      k.IsTold ∧ ∀ c, IsToldWithin c k := ⟨h, fun c => h.within (hops c)⟩
  have hnode {c : Chain} {l r : Expr} (hk : (c.node l r).IsReadable) (hops : c.operands l = [l])
      (hl : l.IsTold) (hr : IsToldWithin c r) :
      (c.node l r).IsTold ∧ ∀ c', IsToldWithin c' (c.node l r) := by
    have hwithin := hl.node_within hops hr
    refine ⟨hwithin.isTold hk, fun c' => ?_⟩
    by_cases hc : c = c'
    · exact hc ▸ hwithin
    · exact (hwithin.isTold hk).within (Chain.operands_node_of_ne hc l r)
  induction k with
  | other => exact hk.elim
  | const a => exact hleaf (isTold_const hk) fun c => by cases c <;> rfl
  | var x => exact hleaf (isTold_var hk) fun c => by cases c <;> rfl
  | add l r ihl ihr =>
    exact hnode (c := .sum) hk hl.1 (ihl hk.1 hl.2.1).1 ((ihr hk.2 hl.2.2).2 _)
  | mul l r ihl ihr =>
    exact hnode (c := .product) hk hl.1 (ihl hk.1 hl.2.1).1 ((ihr hk.2 hl.2.2).2 _)
  | neg e ih =>
    refine hleaf (fun k' cs cs' hk' hl' heq => ?_) fun c => by cases c <;> rfl
    have hinitial := initial_eq hk hk' heq
    cases k' <;> simp [initial] at hinitial
    next e' =>
    rw [fullText, fullText, toList_tupleText_singleton, toList_tupleText_singleton] at heq
    obtain ⟨hsame, hcs⟩ := (ih hk hl).1 e' (')' :: cs) (')' :: cs') hk' hl' (by simpa using heq)
    exact ⟨hsame, (List.cons.inj hcs).2⟩
  | sub l r ihl ihr | div l r ihl ihr | pow l r ihl ihr | log l r ihl ihr =>
    refine hleaf (fun k' cs cs' hk' hl' heq => ?_) fun c => by cases c <;> rfl
    have hinitial := initial_eq hk hk' heq
    cases k' <;> simp [initial] at hinitial
    exact same_of_tupleText_pair (ihl hk.1 hl.1).1 (ihr hk.2 hl.2).1 hk' hl' heq

/-- The text of a representative determines it up to the values of its constants. -/
theorem same_of_fullText_eq (hk : k.IsReadable) (hl : k.LeansRight) (hk' : k'.IsReadable)
    (hl' : k'.LeansRight) (h : fullText none k = fullText none k') : k.same k' :=
  ((isTold hk hl).1 k' [] [] hk' hl' (by rw [h])).1

end Expr

end SymbolicAlgebra
