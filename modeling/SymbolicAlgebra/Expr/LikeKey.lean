import SymbolicAlgebra.Expr.Chain
import SymbolicAlgebra.StableSort

/-!
# Representatives up to reordering

`Expr.likeKey` brings the operands of every chain of an expression into one order, so that
expressions which differ by reordering and regrouping of sums and products get the same
representative. The order is that of the texts of the operands' own representatives, by code points;
a text is refused when it holds a constant that is too long to write.
-/

namespace SymbolicAlgebra

namespace Chain

variable {κ : Type}

/-- An operand with its key before it. -/
def withKey (key : Expr → Except Error κ) (e : Expr) : Except Error (κ × Expr) := do
  return (← key e, e)

/-- A chain with its operands sorted by keys; keys of operands are found from left to right. -/
def arrange (c : Chain) (key : Expr → Except Error κ) (le : κ → κ → Bool) (e : Expr) :
    Except Error Expr := do
  let keyed ← (c.operands e).mapM (withKey key)
  return c.build ((stableSort (fun a b => le a.1 b.1) keyed).map Prod.snd)

/-- Operands are kept while they get their keys. -/
theorem map_snd_of_mapM_withKey {key : Expr → Except Error κ} {es : List Expr}
    {keyed : List (κ × Expr)} (h : es.mapM (withKey key) = .ok keyed) :
    keyed.map Prod.snd = es := by
  induction es generalizing keyed with
  | nil =>
    obtain rfl : [] = keyed := pure_eq_ok_iff.1 h
    rfl
  | cons e es ih =>
    rw [List.mapM_cons] at h
    obtain ⟨_, hk, h⟩ := bind_eq_ok_iff.1 h
    obtain ⟨rest, hrest, h⟩ := bind_eq_ok_iff.1 h
    obtain ⟨k, _, hk⟩ := bind_eq_ok_iff.1 hk
    obtain rfl := pure_eq_ok_iff.1 hk
    obtain rfl := pure_eq_ok_iff.1 h
    rw [List.map_cons, ih hrest]

/-- An arranged chain has the same operands in some order. -/
theorem exists_perm_of_arrange {c : Chain} {key : Expr → Except Error κ} {le : κ → κ → Bool}
    {e e' : Expr} (h : c.arrange key le e = .ok e') :
    ∃ es, es.Perm (c.operands e) ∧ e' = c.build es := by
  obtain ⟨keyed, hk, h⟩ := bind_eq_ok_iff.1 h
  obtain rfl := pure_eq_ok_iff.1 h
  refine ⟨_, ?_, rfl⟩
  rw [← map_snd_of_mapM_withKey hk]
  exact (stableSort_perm _ keyed).map _

end Chain

namespace Expr

/-- A name and further texts in parentheses. -/
def tupleText (name : String) (texts : List String) : String :=
  "('" ++ name ++ "', " ++ ", ".intercalate texts ++ ")"

/-- The name and the operands of a chain in parentheses. -/
def chainText (name operands : String) : String :=
  "('" ++ name ++ "', (" ++ operands ++ "))"

/-- The text of a representative, where a chain of the kind `c` gives only the texts of its
operands. -/
def keyTextWithin (c : Option Chain) : Expr → Except Error String
  | const n => do return "const(" ++ (← n.text) ++ ")"
  | var x => .ok ("var('" ++ x ++ "')")
  | add l r => do
    let operands := (← keyTextWithin (some .sum) l) ++ ", " ++ (← keyTextWithin (some .sum) r)
    return if c = some .sum then operands else chainText "Add" operands
  | mul l r => do
    let operands :=
      (← keyTextWithin (some .product) l) ++ ", " ++ (← keyTextWithin (some .product) r)
    return if c = some .product then operands else chainText "Mul" operands
  | sub l r => do
    return tupleText "Sub" [← keyTextWithin none l, ← keyTextWithin none r]
  | div n d => do
    return tupleText "Div" [← keyTextWithin none n, ← keyTextWithin none d]
  | pow b p => do
    return tupleText "Pow" [← keyTextWithin none b, ← keyTextWithin none p]
  | log b a => do
    return tupleText "Log" [← keyTextWithin none b, ← keyTextWithin none a]
  | neg e => do return tupleText "Negate" [← keyTextWithin none e]
  | other _ kind _ => .ok kind

/-- The text of a representative, by which operands are sorted. -/
def keyText (e : Expr) : Except Error String :=
  keyTextWithin none e

/-- The representative of an expression, where a chain of the kind `c` is left for the chain around
it to sort. -/
def likeKeyWithin (c : Option Chain) : Expr → Except Error Expr
  | const n => .ok (const n)
  | var x => .ok (var x)
  | add l r => do
    let s := add (← likeKeyWithin (some .sum) l) (← likeKeyWithin (some .sum) r)
    if c = some .sum then return s else Chain.sum.arrange keyText (· ≤ ·) s
  | mul l r => do
    let p := mul (← likeKeyWithin (some .product) l) (← likeKeyWithin (some .product) r)
    if c = some .product then return p else Chain.product.arrange keyText (· ≤ ·) p
  | sub l r => do return sub (← likeKeyWithin none l) (← likeKeyWithin none r)
  | div n d => do return div (← likeKeyWithin none n) (← likeKeyWithin none d)
  | pow b p => do return pow (← likeKeyWithin none b) (← likeKeyWithin none p)
  | log b a => do return log (← likeKeyWithin none b) (← likeKeyWithin none a)
  | neg e => do return neg (← likeKeyWithin none e)
  | other m kind es => .ok (other m kind es)

/-- The representative of an expression up to reordering of its sums and products. Looking it up
among others needs the exact values of its constants. -/
def likeKey (e : Expr) : Except Error Expr := do
  let key ← likeKeyWithin none e
  key.refuseLong
  return key

/-- A representative is the expression with its chains sorted. -/
theorem likeKeyWithin_of_likeKey {e k : Expr} (h : e.likeKey = .ok k) :
    likeKeyWithin none e = .ok k := by
  obtain ⟨key, hkey, h⟩ := bind_eq_ok_iff.1 h
  obtain ⟨_, _, h⟩ := bind_eq_ok_iff.1 h
  rw [hkey, ← pure_eq_ok_iff.1 h]

end Expr

end SymbolicAlgebra
