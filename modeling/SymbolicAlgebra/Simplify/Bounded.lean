import SymbolicAlgebra.Error

/-!
# Computations of bounded depth

A `Bounded` computation gives a result, an error, or nothing where its bound does not suffice.
`Settles` says that the bound suffices and what then holds of the result, and `Extends` that one
computation gives whatever another one does, with a larger bound perhaps. Both pass through
sequences.
-/

namespace SymbolicAlgebra

/-- The outcome of a computation of bounded depth: nothing where the bound does not suffice. -/
abbrev Bounded (α : Type) := ExceptT Error Option α

namespace Bounded

variable {α β : Type}

/-- A computation that needs no depth. -/
def ofExcept (x : Except Error α) : Bounded α :=
  ExceptT.mk (some x)

/-! ### Enough depth -/

/-- The computation has an outcome, and its result, if it has one, is as `P` says. -/
def Settles (x : Bounded α) (P : α → Prop) : Prop :=
  ∃ out, x.run = some out ∧ ∀ a, out = .ok a → P a

theorem settles_pure {P : α → Prop} {a : α} (h : P a) : Settles (pure a) P :=
  ⟨.ok a, rfl, fun _ ha => Except.ok.inj ha ▸ h⟩

theorem settles_throw {P : α → Prop} (e : Error) : Settles (throw e) P :=
  ⟨.error e, rfl, fun _ h => nomatch h⟩

theorem settles_ofExcept {P : α → Prop} {x : Except Error α} (h : ∀ a, x = .ok a → P a) :
    Settles (ofExcept x) P :=
  ⟨x, rfl, h⟩

theorem Settles.mono {P Q : α → Prop} {x : Bounded α} (hx : Settles x P) (h : ∀ a, P a → Q a) :
    Settles x Q :=
  let ⟨out, hout, hP⟩ := hx
  ⟨out, hout, fun a ha => h a (hP a ha)⟩

theorem Settles.bind {P : α → Prop} {Q : β → Prop} {x : Bounded α} {f : α → Bounded β}
    (hx : Settles x P) (hf : ∀ a, P a → Settles (f a) Q) : Settles (x >>= f) Q := by
  obtain ⟨out, hout, hP⟩ := hx
  obtain rfl : x = some out := hout
  cases out with
  | error e => exact ⟨.error e, rfl, fun _ h => nomatch h⟩
  | ok a =>
    obtain ⟨out, hout, hQ⟩ := hf a (hP a rfl)
    exact ⟨out, hout, hQ⟩

/-! ### More depth -/

/-- The second computation has the outcome of the first, if that has one. -/
def Extends (x y : Bounded α) : Prop :=
  ∀ out, x.run = some out → y.run = some out

theorem Extends.refl (x : Bounded α) : Extends x x :=
  fun _ h => h

theorem Extends.bind {x y : Bounded α} {f g : α → Bounded β} (h : Extends x y)
    (hfg : ∀ a, Extends (f a) (g a)) : Extends (x >>= f) (y >>= g) := by
  intro out hout
  match hx : x.run with
  | none =>
    obtain rfl : x = none := hx
    exact nomatch hout
  | some (.error e) =>
    obtain rfl : x = some (.error e) := hx
    obtain rfl : y = some (.error e) := h _ rfl
    exact hout
  | some (.ok a) =>
    obtain rfl : x = some (.ok a) := hx
    obtain rfl : y = some (.ok a) := h _ rfl
    exact hfg a out hout

end Bounded

end SymbolicAlgebra
