import Mathlib.Data.Set.Function
import SymbolicAlgebra.Proofs.Exactness
import SymbolicAlgebra.Proofs.Representative

/-!
# Renaming of variables

`Expr.rename g` puts the name `g x` in place of every name `x`. Representatives are sorted by texts
in which the names stand, so that renaming does not commute with them. But it keeps expressions
alike, and where it keeps different names apart it keeps unlike ones unlike; so two representatives
are the same just when those of the renamed expressions are (`same_likeKey_rename_iff`).
-/

namespace SymbolicAlgebra

namespace Expr

variable {V : String → Prop} {E : Expr → Prop} {g g' : String → String} {c : Chain} {x : String}
  {e k k' l r t u : Expr} {es : List Expr}

mutual

/-- The expression with every variable renamed. -/
def rename (g : String → String) : Expr → Expr
  | const c => const c
  | var x => var (g x)
  | add l r => add (l.rename g) (r.rename g)
  | sub l r => sub (l.rename g) (r.rename g)
  | mul l r => mul (l.rename g) (r.rename g)
  | div n d => div (n.rename g) (d.rename g)
  | pow b p => pow (b.rename g) (p.rename g)
  | log b a => log (b.rename g) (a.rename g)
  | neg e => neg (e.rename g)
  | other m kind es => other m kind (renameList g es)

/-- The expressions of a list with every variable renamed. -/
def renameList (g : String → String) : List Expr → List Expr
  | [] => []
  | e :: es => e.rename g :: renameList g es

end

/-! ### Parts and chains -/

lemma rename_node (c : Chain) (l r : Expr) :
    (c.node l r).rename g = c.node (l.rename g) (r.rename g) := by
  cases c <;> rfl

lemma operands_rename (c : Chain) (e : Expr) :
    c.operands (e.rename g) = (c.operands e).map (rename g) := by
  induction e with
  | add l r ihl ihr =>
    cases c with
    | sum => rw [rename, Chain.operands_sum_add, Chain.operands_sum_add, ihl, ihr, List.map_append]
    | product => rfl
  | mul l r ihl ihr =>
    cases c with
    | sum => rfl
    | product =>
      rw [rename, Chain.operands_product_mul, Chain.operands_product_mul, ihl, ihr, List.map_append]
  | _ => cases c <;> rfl

lemma rename_link (c : Chain) (e : Expr) (es : List Expr) :
    (c.link e es).rename g = c.link (e.rename g) (es.map (rename g)) := by
  induction es generalizing e with
  | nil => rfl
  | cons e' es ih => rw [Chain.link, rename_node, ih, List.map_cons, Chain.link]

lemma rename_build (c : Chain) (es : List Expr) :
    (c.build es).rename g = c.build (es.map (rename g)) := by
  cases es with
  | nil => cases c <;> rfl
  | cons e es => exact rename_link c e es

lemma IsWholeTree.rename_eq (he : e.IsWholeTree) : e.rename g = e := by
  induction e with
  | const c => rfl
  | neg e ih => rw [rename, ih he]
  | add l r ihl ihr | sub l r ihl ihr | mul l r ihl ihr => rw [rename, ihl he.1, ihr he.2]
  | _ => exact he.elim

lemma IsWholeConstant.rename_eq (he : e.IsWholeConstant) : e.rename g = e :=
  he.isWholeTree.rename_eq

/-! ### What is renamed -/

mutual

/-- An expression over exact constants and variables with names as `V` says, whose exponents are as
`E` says. -/
def IsOver (V : String → Prop) (E : Expr → Prop) : Expr → Prop
  | const c => c.isExact
  | var x => V x
  | add l r | sub l r | mul l r | div l r | log l r => l.IsOver V E ∧ r.IsOver V E
  | pow b p => b.IsOver V E ∧ p.IsOver V E ∧ E p
  | neg e => e.IsOver V E
  | other _ _ es => AreOver V E es

/-- The same of every expression of a list. -/
def AreOver (V : String → Prop) (E : Expr → Prop) : List Expr → Prop
  | [] => True
  | e :: es => e.IsOver V E ∧ AreOver V E es

end

/-- The names of two parts are as `V` says when those of each are. -/
lemma forall_occurs_add_iff {m n : String → Nat} :
    (∀ x, 0 < m x + n x → V x) ↔ (∀ x, 0 < m x → V x) ∧ ∀ x, 0 < n x → V x := by
  simp only [Nat.add_pos_iff_pos_or_pos, or_imp, forall_and]

lemma areOver_iff
    (h : ∀ e ∈ es, e.IsOver V E ↔ e.IsExactWith E ∧ ∀ x, 0 < e.countOccurrences x → V x) :
    AreOver V E es ↔ AreExactWith E es ∧ ∀ x, 0 < countAll x es → V x := by
  induction es with
  | nil => simp [AreOver, AreExactWith]
  | cons e es ih =>
    obtain ⟨he, hes⟩ := List.forall_mem_cons.1 h
    simp only [AreOver, AreExactWith, countAll_cons, forall_occurs_add_iff, he, ih hes]
    tauto

lemma isOver_iff : e.IsOver V E ↔ e.IsExactWith E ∧ ∀ x, 0 < e.countOccurrences x → V x := by
  induction e with
  | const c => simp [IsOver, IsExactWith]
  | var y => simp [IsOver, IsExactWith, countOccurrences, variableNames, List.count_pos_iff]
  | pow b p ihb ihp =>
    simp only [IsOver, IsExactWith, countOccurrences_pow, forall_occurs_add_iff, ihb, ihp]
    tauto
  | neg e ih => exact ih
  | other m k es ih =>
    have hcount (x : String) : (other m k es).countOccurrences x = countAll x es :=
      count_variableNamesOfList es
    simp only [IsOver, IsExactWith, hcount, areOver_iff ih]
  | _ l r ihl ihr =>
    simp only [IsOver, IsExactWith, countOccurrences_add, countOccurrences_sub,
      countOccurrences_mul,
      countOccurrences_div, countOccurrences_log, forall_occurs_add_iff, ihl, ihr]
    tauto

/-- Exponents that are written out are exponents to be worked out. -/
lemma IsOver.toTree (he : e.IsOver V IsWholeConstant) : e.IsOver V IsWholeTree := by
  obtain ⟨hexact, hnames⟩ := isOver_iff.1 he
  exact isOver_iff.2 ⟨hexact.toTree, hnames⟩

lemma IsWholeTree.isOver (he : e.IsWholeTree) : e.IsOver V E := by
  refine isOver_iff.2 ⟨he.isExactWith, fun x hx => ?_⟩
  rw [he.countOccurrences_eq_zero] at hx
  cases hx

/-- An expression as simplification leaves it: of known kinds, with exponents that are written
out. -/
structure IsSettled (V : String → Prop) (e : Expr) : Prop where
  isOver : e.IsOver V IsWholeConstant
  isReadable : e.IsReadable

lemma isSettled_node : (c.node l r).IsSettled V ↔ l.IsSettled V ∧ r.IsSettled V := by
  have hover : (c.node l r).IsOver V IsWholeConstant ↔
      l.IsOver V IsWholeConstant ∧ r.IsOver V IsWholeConstant := by
    cases c <;> exact Iff.rfl
  constructor
  · rintro ⟨hnode, hreadable⟩
    obtain ⟨hl, hr⟩ := hover.1 hnode
    obtain ⟨hreadl, hreadr⟩ := isReadable_node.1 hreadable
    exact ⟨⟨hl, hreadl⟩, hr, hreadr⟩
  · rintro ⟨hl, hr⟩
    exact ⟨hover.2 ⟨hl.isOver, hr.isOver⟩, isReadable_node.2 ⟨hl.isReadable, hr.isReadable⟩⟩

lemma IsSettled.of_mem_operands (he : e.IsSettled V) (hu : u ∈ c.operands e) : u.IsSettled V := by
  induction e using c.induct with
  | node l r ihl ihr =>
    rw [c.operands_node, List.mem_append] at hu
    obtain ⟨hl, hr⟩ := isSettled_node.1 he
    exact hu.elim (ihl hl) (ihr hr)
  | leaf e hleaf =>
    rw [hleaf, List.mem_singleton] at hu
    rwa [hu]

/-! ### Expressions that are alike -/

/-- Renaming keeps expressions alike. -/
lemma Alike.rename (h : t.Alike u) (g : String → String) : (t.rename g).Alike (u.rename g) := by
  induction h with
  | refl e => exact .refl _
  | symm _ ih => exact .symm ih
  | trans _ _ ih ih' => exact .trans ih ih'
  | const ha hb => exact .const ha hb
  | comm c l r =>
    rw [rename_node, rename_node]
    exact .comm c _ _
  | assoc c e₁ e₂ e₃ =>
    simp only [rename_node]
    exact .assoc c _ _ _
  | node c _ _ ihl ihr =>
    rw [rename_node, rename_node]
    exact .node c ihl ihr
  | sub _ _ ihl ihr => exact .sub ihl ihr
  | div _ _ ihl ihr => exact .div ihl ihr
  | pow _ _ ihl ihr => exact .pow ihl ihr
  | log _ _ ihl ihr => exact .log ihl ihr
  | neg _ ih => exact .neg ih

/-- A renaming can be taken back where another one brings the names back. -/
lemma IsSettled.rename_rename (ht : t.IsSettled V) (h : ∀ x, V x → g' (g x) = x) :
    (t.rename g).rename g' = t := by
  obtain ⟨hover, hreadable⟩ := ht
  induction t with
  | const c => rfl
  | var x => exact congrArg var (h x hover)
  | neg e ih => exact congrArg neg (ih hover hreadable)
  | other m k es => exact hreadable.elim
  | pow b p ihb ihp => exact congrArg₂ pow (ihb hover.1 hreadable.1) (ihp hover.2.1 hreadable.2)
  | _ l r ihl ihr => rw [rename, rename, ihl hover.1 hreadable.1, ihr hover.2 hreadable.2]

/-- Names of one character that are kept apart, and remain names of one character. -/
structure IsRenaming (V : String → Prop) (g : String → String) : Prop where
  single : ∀ x, V x → x.length = 1
  single_rename : ∀ x, V x → (g x).length = 1
  injOn : Set.InjOn g {x | V x}

lemma IsRenaming.alike_iff (hg : IsRenaming V g) (ht : t.IsSettled V) (hu : u.IsSettled V) :
    (t.rename g).Alike (u.rename g) ↔ t.Alike u := by
  refine ⟨fun h => ?_, fun h => h.rename g⟩
  have hinverse : ∀ x, V x → Function.invFunOn g {x | V x} (g x) = x :=
    fun x hx => hg.injOn.leftInvOn_invFunOn hx
  have hback := h.rename (Function.invFunOn g {x | V x})
  rwa [ht.rename_rename hinverse, hu.rename_rename hinverse] at hback

/-! ### Representatives -/

lemma IsOver.isReadable (he : e.IsOver V E) (htidy : Simplify.Tidy e)
    (hV : ∀ x, V x → x.length = 1) : e.IsReadable := by
  induction e with
  | const c => exact he
  | var x => exact hV x he
  | neg e ih => exact ih he htidy.2
  | other m k es => exact htidy.elim
  | pow b p ihb ihp => exact ⟨ihb he.1 htidy.1, ihp he.2.1 htidy.2⟩
  | _ l r ihl ihr => exact ⟨ihl he.1 htidy.1, ihr he.2 htidy.2⟩

lemma IsSettled.isReadable_rename (ht : t.IsSettled V) (hV : ∀ x, V x → (g x).length = 1) :
    (t.rename g).IsReadable := by
  obtain ⟨hover, hreadable⟩ := ht
  induction t with
  | const c => exact hover
  | var x => exact hV x hover
  | neg e ih => exact ih hover hreadable
  | other m k es => exact hreadable.elim
  | pow b p ihb ihp => exact ⟨ihb hover.1 hreadable.1, ihp hover.2.1 hreadable.2⟩
  | _ l r ihl ihr => exact ⟨ihl hover.1 hreadable.1, ihr hover.2 hreadable.2⟩

lemma isWritable_rename : (e.rename g).IsWritable ↔ e.IsWritable := by
  induction e with
  | const c => exact Iff.rfl
  | var x => exact Iff.rfl
  | other m k es => exact Iff.rfl
  | neg e ih => exact ih
  | _ l r ihl ihr => exact and_congr ihl ihr

lemma hasKey_rename : (e.rename g).HasKey ↔ e.HasKey := by
  induction e with
  | const c => exact Iff.rfl
  | var x => exact Iff.rfl
  | other m k es => exact Iff.rfl
  | add l r | mul l r => exact and_congr isWritable_rename isWritable_rename
  | neg e ih => exact ih
  | _ l r ihl ihr => exact and_congr ihl ihr

/-- Renaming keeps representatives apart, and those that are the same the same. -/
theorem same_likeKey_rename_iff {m m' : Expr} (hg : IsRenaming V g) (ht : t.IsSettled V)
    (hu : u.IsSettled V) (hk : t.likeKey = .ok k) (hk' : u.likeKey = .ok k')
    (hm : (t.rename g).likeKey = .ok m) (hm' : (u.rename g).likeKey = .ok m') :
    m.same m' = k.same k' := by
  have hrenamed := same_likeKey_iff (ht.isReadable_rename hg.single_rename)
    (hu.isReadable_rename hg.single_rename) hm hm'
  rw [hg.alike_iff ht hu, ← same_likeKey_iff ht.isReadable hu.isReadable hk hk'] at hrenamed
  exact Bool.eq_iff_iff.2 hrenamed

end Expr

end SymbolicAlgebra
