import SymbolicAlgebra.Proofs.Grammar.Soundness

/-!
# No reader looks behind the end of the input

What a reader answers does not change when the tokens are followed by the end of the input and
anything else, and neither does it depend on how deep it may go into parentheses, as long as the
tokens are fewer (`Agree`).
-/

namespace SymbolicAlgebra

namespace Reader

/-- Whether tokens end at once, or begin with the end of the input. -/
def IsEnded (tail : List Token) : Prop :=
  tail = [] ∨ ∃ p ts, tail = ⟨.endOfInput, p⟩ :: ts

/-- Whether a reader does with at most `k` tokens what another one does where `tail` follows
them. -/
def Agree {α : Type} (k : Nat) (tail : List Token) (R R' : Reader α) : Prop :=
  ∀ ts : List Token, ts.length ≤ k → R' (ts ++ tail) = (R ts).map fun a => (a.1, a.2 ++ tail)

variable {config : Config} {k : Nat} {tail : List Token}

lemma operatorOf?_append (htail : IsEnded tail) (level : Level) (ts : List Token) :
    operatorOf? level (ts ++ tail) =
      (operatorOf? level ts).map fun a => (a.1, a.2 ++ tail) := by
  cases ts with
  | nil => rcases htail with rfl | ⟨p, ts, rfl⟩ <;> rfl
  | cons t ts => simp [operatorOf?, Function.comp_def]

lemma refuseDoubleStar_append (htail : IsEnded tail) (op : Operator) (ts : List Token) :
    refuseDoubleStar op (ts ++ tail) = refuseDoubleStar op ts := by
  cases ts with
  | nil => rcases htail with rfl | ⟨p, ts, rfl⟩ <;> rfl
  | cons t ts =>
    obtain ⟨l, p⟩ := t
    cases l with
    | symbol s => cases s <;> rfl
    | _ => rfl

lemma closing_append (htail : IsEnded tail) (ts : List Token) :
    closing (ts ++ tail) = (closing ts).map (· ++ tail) := by
  cases ts with
  | nil => rcases htail with rfl | ⟨p, ts, rfl⟩ <;> rfl
  | cons t ts =>
    obtain ⟨l, p⟩ := t
    cases l with
    | symbol s => cases s <;> rfl
    | _ => rfl

/-- What a reader leaves is no longer than what it got. -/
lemma ReadsAs.length_le {n : Grammar.Nonterminal} {R : Reader n.Meaning}
    (hR : ReadsAs config n R) {ts rest : List Token} {a : n.Meaning} (h : R ts = .ok (a, rest)) :
    rest.length ≤ ts.length := by
  obtain ⟨taken, rfl, -⟩ := hR.sound h
  simp

/-! ### Chains -/

lemma operations_agree {level : Level} {O O' : Reader Expr}
    (hO : ReadsAs config (.operand level) O) (htail : IsEnded tail) (hagree : Agree k tail O O')
    {n n' : Nat} {e : Expr} {ts : List Token} (hk : ts.length ≤ k) (hn : ts.length ≤ n)
    (hn' : ts.length ≤ n') :
    operations level O' n' e (ts ++ tail) =
      (operations level O n e ts).map fun a => (a.1, a.2 ++ tail) := by
  induction n generalizing n' e ts with
  | zero =>
    obtain rfl : ts = [] := by simpa using hn
    cases n' with
    | zero => rfl
    | succ n' =>
      rw [operations, operations, operatorOf?_append htail]
      rfl
  | succ n ih =>
    cases n' with
    | zero =>
      obtain rfl : ts = [] := by simpa using hn'
      rfl
    | succ n' =>
      rw [operations, operations, operatorOf?_append htail]
      cases hop : operatorOf? level ts with
      | none => rfl
      | some a =>
        obtain ⟨op, ts'⟩ := a
        obtain ⟨p, rfl, -⟩ := operatorOf?_eq_some_iff.1 hop
        rw [List.length_cons] at hk hn hn'
        simp only [Option.map_some, refuseDoubleStar_append htail,
          hagree ts' (Nat.le_of_succ_le hk)]
        cases refuseDoubleStar op ts' with
        | error x => rfl
        | ok _ =>
          cases hr : O ts' with
          | error x => rfl
          | ok b =>
            obtain ⟨r, rest⟩ := b
            have hrest : rest.length ≤ ts'.length := hO.length_le hr
            change operations level O' n' (op.node e r) (rest ++ tail) = _
            exact ih (by omega) (by omega) (by omega)

lemma chain_agree {level : Level} {O O' : Reader Expr} (hO : ReadsAs config (.operand level) O)
    (htail : IsEnded tail) (hagree : Agree k tail O O') :
    Agree k tail (chain level O) (chain level O') := by
  intro ts hk
  rw [chain, chain, hagree ts hk]
  cases hf : O ts with
  | error x => rfl
  | ok a =>
    obtain ⟨f, rest⟩ := a
    exact operations_agree hO htail hagree ((hO.length_le hf).trans hk) le_rfl (by simp)

/-! ### Operands -/

lemma unary_agree {O O' : Reader Expr} (htail : IsEnded tail) (hagree : Agree k tail O O') :
    Agree k tail (unary O) (unary O') := by
  intro ts hk
  induction ts with
  | nil =>
    have hend := hagree [] hk
    rcases htail with rfl | ⟨p, ts, rfl⟩ <;> exact hend
  | cons t ts ih =>
    obtain ⟨l, p⟩ := t
    have hread := hagree (⟨l, p⟩ :: ts) hk
    have hrest := ih (Nat.le_of_succ_le hk)
    cases l with
    | symbol s =>
      cases s with
      | minus =>
        rw [List.cons_append, unary, hrest, unary]
        cases unary O ts <;> rfl
      | plus => exact hrest
      | _ => exact hread
    | _ => exact hread

/-- What stands in parentheses has fewer tokens than the whole. -/
lemma atom_agree {I I' : Reader Expr} (htail : IsEnded tail)
    (hagree : ∀ j < k, Agree j tail I I') : Agree k tail (atom config I) (atom config I') := by
  intro ts hk
  cases ts with
  | nil => rcases htail with rfl | ⟨p, ts, rfl⟩ <;> rfl
  | cons t ts =>
    obtain ⟨l, p⟩ := t
    cases l with
    | number numeral =>
      rw [List.cons_append, atom, atom]
      cases config.readNumeral numeral <;> rfl
    | letter c => rfl
    | symbol s =>
      cases s with
      | leftParen =>
        rw [List.cons_append, atom, atom, hagree ts.length (Nat.lt_of_succ_le hk) ts le_rfl]
        cases I ts with
        | error x => rfl
        | ok a =>
          change (closing (a.2 ++ tail) >>= fun ts => pure (a.1, ts)) = _
          rw [closing_append htail]
          dsimp only [bind, Except.bind]
          cases closing a.2 <;> rfl
      | _ => rfl
    | endOfInput => rfl

lemma operand_agree {I I' : Reader Expr} (hI : ReadsAs config .expression I)
    (htail : IsEnded tail) (hagree : ∀ j < k, Agree j tail I I') (level : Level) :
    Agree k tail (operand config I level) (operand config I' level) := by
  have hatom : Agree k tail (atom config I) (atom config I') := atom_agree htail hagree
  have hunary := unary_agree htail (chain_agree (operand_readsAs hI .power) htail hatom)
  cases level with
  | sum => exact chain_agree (operand_readsAs hI .product) htail hunary
  | product => exact hunary
  | power => exact hatom

lemma expressionWithin_agree (htail : IsEnded tail) {depth depth' : Nat} (h : k < depth)
    (h' : k < depth') :
    Agree k tail (expressionWithin config depth) (expressionWithin config depth') := by
  induction depth generalizing k depth' with
  | zero => omega
  | succ depth ih =>
    cases depth' with
    | zero => omega
    | succ depth' =>
      have hinner : ∀ j < k,
          Agree j tail (expressionWithin config depth) (expressionWithin config depth') := by
        intro j hj
        exact ih (by omega) (by omega)
      exact chain_agree (operand_readsAs (expressionWithin_readsAs depth) .sum) htail
        (operand_agree (expressionWithin_readsAs depth) htail hinner .sum)

lemma expression_agree (htail : IsEnded tail) :
    Agree k tail (expression config) (expression config) := by
  intro ts hk
  exact expressionWithin_agree htail (Nat.lt_succ_self _) (Nat.lt_succ_of_le (by simp)) ts le_rfl

/-! ### Equations and directives -/

lemma body_agree (htail : IsEnded tail) : Agree k tail (body config) (body config) := by
  intro ts hk
  rw [body, body, expression_agree htail ts le_rfl]
  cases expression config ts with
  | error x => rfl
  | ok a =>
    obtain ⟨lhs, rest⟩ := a
    dsimp only [Except.map, bind, Except.bind]
    cases rest with
    | nil => rcases htail with rfl | ⟨p, ts, rfl⟩ <;> rfl
    | cons t rest =>
      obtain ⟨l, p⟩ := t
      cases l with
      | symbol s =>
        cases s with
        | equals =>
          dsimp only [List.cons_append]
          rw [expression_agree htail rest le_rfl]
          cases expression config rest <;> rfl
        | _ => rfl
      | _ => rfl

lemma simpleOperand_agree (htail : IsEnded tail) :
    Agree k tail (simpleOperand config) (simpleOperand config) := by
  intro ts hk
  cases ts with
  | nil => rcases htail with rfl | ⟨p, ts, rfl⟩ <;> rfl
  | cons t ts =>
    obtain ⟨l, p⟩ := t
    cases l with
    | number numeral =>
      rw [List.cons_append, simpleOperand, simpleOperand]
      cases config.readNumeral numeral <;> rfl
    | _ => rfl

lemma replacement_agree (htail : IsEnded tail) :
    Agree k tail (replacement config) (replacement config) := by
  intro ts hk
  have hsimple : Agree ts.length tail (simpleOperand config) (simpleOperand config) :=
    simpleOperand_agree htail
  have hread := hsimple ts le_rfl
  cases ts with
  | nil => rcases htail with rfl | ⟨p, ts, rfl⟩ <;> rfl
  | cons t ts =>
    obtain ⟨l, p⟩ := t
    cases l with
    | symbol s =>
      cases s with
      | minus =>
        rw [List.cons_append, replacement, replacement, simpleOperand_agree htail ts le_rfl]
        cases simpleOperand config ts <;> rfl
      | _ => rfl
    | _ => exact hread

lemma directive_agree (htail : IsEnded tail) :
    Agree k tail (directive config) (directive config) := by
  intro ts hk
  match ts with
  | [] => rcases htail with rfl | ⟨p, ts, rfl⟩ <;> rfl
  | [⟨.letter c, p⟩] => rcases htail with rfl | ⟨p, ts, rfl⟩ <;> rfl
  | ⟨.letter c, p⟩ :: ⟨.symbol s, q⟩ :: ts =>
    cases s with
    | comma =>
      rw [List.cons_append, List.cons_append, directive, directive,
        replacement_agree htail ts le_rfl]
      cases replacement config ts <;> rfl
    | _ => rfl
  | ⟨.letter c, p⟩ :: ⟨.number _, q⟩ :: ts | ⟨.letter c, p⟩ :: ⟨.letter _, q⟩ :: ts
  | ⟨.letter c, p⟩ :: ⟨.endOfInput, q⟩ :: ts => rfl
  | ⟨.number _, p⟩ :: ts | ⟨.symbol _, p⟩ :: ts | ⟨.endOfInput, p⟩ :: ts => rfl

lemma directive?_agree (htail : IsEnded tail) :
    Agree k tail (directive? config) (directive? config) := by
  intro ts hk
  cases ts with
  | nil => rcases htail with rfl | ⟨p, ts, rfl⟩ <;> rfl
  | cons t ts =>
    obtain ⟨l, p⟩ := t
    cases l with
    | symbol s =>
      cases s with
      | atSign =>
        rw [List.cons_append, directive?, directive?, directive_agree htail ts le_rfl]
        cases directive config ts <;> rfl
      | _ => rfl
    | _ => rfl

lemma ending_append (htail : IsEnded tail) (ts : List Token) :
    ending (ts ++ tail) = ending ts := by
  cases ts with
  | nil => rcases htail with rfl | ⟨p, ts, rfl⟩ <;> rfl
  | cons t ts =>
    obtain ⟨l, p⟩ := t
    cases l <;> rfl

end Reader

namespace Statement

open Reader

/-- Whatever stands behind the end of the input is not looked at. -/
lemma ofTokens_append {config : Config} {tail : List Token} (htail : IsEnded tail)
    (ts : List Token) : ofTokens config (ts ++ tail) = ofTokens config ts := by
  rw [ofTokens, ofTokens, body_agree htail ts le_rfl]
  cases Reader.body config ts with
  | error x => rfl
  | ok a =>
    obtain ⟨b, rest⟩ := a
    dsimp only [Except.map, bind, Except.bind]
    rw [directive?_agree htail rest le_rfl]
    cases directive? config rest with
    | error x => rfl
    | ok a =>
      dsimp only [Except.map]
      rw [ending_append htail]

end Statement

end SymbolicAlgebra
