import Mathlib.Data.Fintype.Card
import Mathlib.Logic.Function.Basic

/-! How many of finitely many threads are at places of a kind, while one of them moves. -/
namespace Census

open Function Finset

variable {P α : Type} [Fintype P] {at_ : P → α} {q : α → Prop} [DecidablePred q]

def census (q : α → Prop) [DecidablePred q] (at_ : P → α) : Nat := (Finset.univ.filter fun p => q (at_ p)).card

theorem census_le (q : α → Prop) [DecidablePred q] (at_ : P → α) : census q at_ ≤ Fintype.card P :=
  card_filter_le _ _

theorem census_pos : 0 < census q at_ ↔ ∃ p, q (at_ p) := by
  rw [census, card_pos]
  constructor
  · rintro ⟨p, hp⟩
    exact ⟨p, (mem_filter.mp hp).2⟩
  · rintro ⟨p, hp⟩
    exact ⟨p, mem_filter.mpr ⟨mem_univ p, hp⟩⟩

theorem census_mono {at_' : P → α} (h : ∀ p, q (at_ p) → q (at_' p)) : census q at_ ≤ census q at_' :=
  card_le_card (monotone_filter_right _ fun p _ hp => h p hp)

variable [DecidableEq P]

theorem census_split (q : α → Prop) [DecidablePred q] (at_ : P → α) (p : P) :
    census q at_ = ((Finset.univ.erase p).filter fun x => q (at_ x)).card + if q (at_ p) then 1 else 0 := by
  rw [census, ← insert_erase (mem_univ p), filter_insert]
  split
  · rw [card_insert_of_notMem (by simp), erase_insert_eq_erase, erase_idem]
  · rw [erase_insert_eq_erase, erase_idem, Nat.add_zero]

theorem census_update (q : α → Prop) [DecidablePred q] (at_ : P → α) (p : P) (a : α) :
    census q (update at_ p a) + (if q (at_ p) then 1 else 0) = census q at_ + if q a then 1 else 0 := by
  have hothers : ((Finset.univ.erase p).filter fun x => q (update at_ p a x)) =
      (Finset.univ.erase p).filter fun x => q (at_ x) := by
    apply filter_congr
    intro x hx
    rw [update_of_ne (ne_of_mem_erase hx)]
  rw [census_split q _ p, census_split q at_ p, hothers, update_self]
  omega

theorem census_same {p : P} {a : α} (h : q (at_ p) ↔ q a) : census q (update at_ p a) = census q at_ := by
  have hmove := census_update q at_ p a
  by_cases ha : q a
  · rw [if_pos (h.mpr ha), if_pos ha] at hmove
    omega
  · rw [if_neg (fun hp => ha (h.mp hp)), if_neg ha] at hmove
    omega

end Census
