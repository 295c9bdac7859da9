import Mathlib.Data.List.Basic
import Mathlib.Data.Nat.ModEq
import Mathlib.Logic.Function.Basic

/-! A bounded ring between one producer and one consumer: three cursors that only grow, and credit that is
what they leave of the window. -/

/-- `head`: pushed so far; `disp`: dispatched so far; `tail`: completed so far. -/
structure CreditRing (α : Type) where
  cap : Nat
  slots : Nat → Option α := fun _ => none
  head : Nat := 0
  disp : Nat := 0
  tail : Nat := 0

namespace CreditRing

open Function

variable {α : Type} {r : CreditRing α} {pushed : List α} {x : α} {i : Nat}

def full (r : CreditRing α) : Bool := decide (r.cap ≤ r.head - r.tail)

def occupancy (r : CreditRing α) : Nat := r.head - r.disp

def creditAvailable (r : CreditRing α) : Nat := r.cap - (r.head - r.tail)

/-- The capacity is a power of two: the mask is the remainder. -/
def slotAt (r : CreditRing α) (i : Nat) : Option α := r.slots (i % r.cap)

def push (r : CreditRing α) (x : α) : CreditRing α :=
  { r with slots := update r.slots (r.head % r.cap) (some x), head := r.head + 1 }

def advanceDispatch (r : CreditRing α) : CreditRing α := { r with disp := r.disp + 1 }

def advanceTail (r : CreditRing α) : CreditRing α := { r with tail := r.tail + 1 }

/-- The ring against everything that was ever pushed. -/
structure Holds (r : CreditRing α) (pushed : List α) : Prop where
  head : r.head = pushed.length
  tail_le : r.tail ≤ r.disp
  disp_le : r.disp ≤ r.head
  window : r.head ≤ r.tail + r.cap
  slot : ∀ i, r.tail ≤ i → i < r.head → r.slotAt i = pushed[i]?

theorem occupancy_pos : r.occupancy ≠ 0 ↔ r.disp < r.head := by
  rw [occupancy, Nat.sub_ne_zero_iff_lt]

theorem full_advanceTail (h : r.full = false) : r.advanceTail.full = false := by
  rw [full, decide_eq_false_iff_not] at h ⊢
  change ¬r.cap ≤ r.head - (r.tail + 1)
  omega

namespace Holds

theorem start (cap : Nat) : Holds ({ cap := cap } : CreditRing α) [] :=
  ⟨rfl, Nat.le_refl 0, Nat.le_refl 0, Nat.zero_le _, fun _ _ hlt => absurd hlt (Nat.not_lt_zero _)⟩

/-- A slot between the tail and the head is not the next one to be written. -/
theorem slot_ne (hfree : r.full = false) (htail : r.tail ≤ i) (hlt : i < r.head) :
    i % r.cap ≠ r.head % r.cap := by
  rw [full, decide_eq_false_iff_not, not_le] at hfree
  intro heq
  have hdvd : r.cap ∣ r.head - i := (Nat.modEq_iff_dvd' (le_of_lt hlt)).mp heq
  have hle := Nat.le_of_dvd (by omega) hdvd
  omega

theorem push (h : r.Holds pushed) (hfree : r.full = false) (x : α) : (r.push x).Holds (pushed ++ [x]) where
  head := by
    rw [List.length_append, ← h.head]
    rfl
  tail_le := h.tail_le
  disp_le := Nat.le_succ_of_le h.disp_le
  window := by
    rw [full, decide_eq_false_iff_not] at hfree
    change r.head + 1 ≤ r.tail + r.cap
    omega
  slot i htail hlt := by
    have hlt : i < r.head + 1 := hlt
    change update r.slots (r.head % r.cap) (some x) (i % r.cap) = _
    by_cases hi : i = r.head
    · rw [hi, update_self, h.head, List.getElem?_concat_length]
    · have hold : i < r.head := by omega
      rw [update_of_ne (slot_ne hfree htail hold), List.getElem?_append_left (h.head ▸ hold)]
      exact h.slot i htail hold

theorem advanceDispatch (h : r.Holds pushed) (hmore : r.disp < r.head) : r.advanceDispatch.Holds pushed :=
  ⟨h.head, Nat.le_succ_of_le h.tail_le, hmore, h.window, h.slot⟩

theorem advanceTail (h : r.Holds pushed) (hmore : r.tail < r.disp) : r.advanceTail.Holds pushed where
  head := h.head
  tail_le := hmore
  disp_le := h.disp_le
  window := by
    have hwindow := h.window
    change r.head ≤ r.tail + 1 + r.cap
    omega
  slot i htail hlt := h.slot i (Nat.le_of_succ_le htail) hlt

theorem next (h : r.Holds pushed) (hmore : r.disp < r.head) : r.slotAt r.disp = pushed[r.disp]? :=
  h.slot r.disp h.tail_le hmore

end Holds

end CreditRing
