import Mathlib.Logic.Function.Basic

/-! One cell and many places that may ask for a value of it. At most one place asks at a time, and what it
asks for is what the cell holds: a lock word together with whoever the word speaks of. -/
namespace Token

variable {X E : Type}

/-- At most one place asks, and it asks for what the cell holds. -/
def Exclusive (cell : E) (demand : X → Option E) : Prop :=
  ∃ x, (∀ y, y ≠ x → demand y = none) ∧ ∀ e, demand x = some e → cell = e

def Answered (owed : E → Prop) (cell : E) (demand : X → Option E) : Prop :=
  owed cell → ∃ x, demand x = some cell

section

variable {cell cell' e e' : E} {demand demand' : X → Option E} {x y : X}

theorem Exclusive.cell_eq (h : Exclusive cell demand) (hx : demand x = some e) : cell = e := by
  obtain ⟨x', hothers, hx'⟩ := h
  by_cases hne : x = x'
  · subst hne
    exact hx' e hx
  · rw [hothers x hne] at hx
    cases hx

theorem Exclusive.unique (h : Exclusive cell demand) (hx : demand x = some e) (hy : demand y = some e') : x = y := by
  obtain ⟨x', hothers, _⟩ := h
  have hself : ∀ z e, demand z = some e → z = x' := by
    intro z e hz
    by_contra hne
    rw [hothers z hne] at hz
    cases hz
  exact (hself x e hx).trans (hself y e' hy).symm

theorem Exclusive.others (h : Exclusive cell demand) (hx : demand x = some e) (hne : y ≠ x) : demand y = none := by
  cases hy : demand y with
  | none => rfl
  | some e' => exact absurd (h.unique hy hx) hne

theorem Exclusive.none (h : Exclusive cell demand) (hfree : ∀ x, demand x ≠ some cell) (x : X) : demand x = none := by
  cases hx : demand x with
  | none => rfl
  | some e =>
    rw [← h.cell_eq hx] at hx
    exact absurd hx (hfree x)

theorem exclusive_of_none (h : ∀ y, y ≠ x → demand y = none) (hx : demand x = none) : Exclusive cell demand :=
  ⟨x, h, fun e he => by rw [hx] at he; cases he⟩

theorem exclusive_of_some (h : ∀ y, y ≠ x → demand y = none) (hx : demand x = some cell) : Exclusive cell demand :=
  ⟨x, h, fun e he => by rw [hx] at he; cases he; rfl⟩

theorem Exclusive.congr (h : Exclusive cell demand) (heq : ∀ y, demand' y = demand y) : Exclusive cell demand' := by
  obtain ⟨x, hothers, hx⟩ := h
  exact ⟨x, fun y hy => by rw [heq]; exact hothers y hy, fun e he => by rw [heq] at he; exact hx e he⟩

end

end Token
