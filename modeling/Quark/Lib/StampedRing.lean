import Mathlib.Logic.Function.Basic
import Mathlib.Data.Nat.ModEq

/-! A ring of cells that are filled and emptied at ever higher positions. A stamp in each cell says whose turn
it is: `q` while position `q` waits to be filled, `q + 1` once it is, and the position a lap later once it is
emptied. -/
namespace StampedRing

open Function

/-- The stamps fit the positions filled and emptied so far. -/
structure Stamps (lap : Nat) (stamp : Nat → Nat) (Filled Emptied : Nat → Prop) : Prop where
  subset : ∀ {q}, Emptied q → Filled q
  filled : ∀ {q}, Filled q → q + 1 ≤ stamp (q % lap)
  unfilled : ∀ {q}, ¬ Filled q → stamp (q % lap) ≤ q
  emptied : ∀ {q}, Emptied q → q + lap ≤ stamp (q % lap)
  unemptied : ∀ {q}, ¬ Emptied q → stamp (q % lap) ≤ q + 1
  first : ∀ {q}, q < lap → q ≤ stamp (q % lap)

def Vacant (lap : Nat) (Emptied : Nat → Prop) (q : Nat) : Prop := q < lap ∨ Emptied (q - lap)

variable {lap q r : Nat} {stamp : Nat → Nat} {Filled Emptied : Nat → Prop}

theorem lap_le (hcell : r % lap = q % lap) (hlt : r < q) : r + lap ≤ q := by
  have hdvd : lap ∣ q - r := (Nat.modEq_iff_dvd' hlt.le).mp hcell
  have hle : lap ≤ q - r := Nat.le_of_dvd (Nat.sub_pos_of_lt hlt) hdvd
  omega

theorem lap_trichotomy (hcell : r % lap = q % lap) : r = q ∨ r + lap ≤ q ∨ q + lap ≤ r := by
  obtain hlt | heq | hgt := lt_trichotomy r q
  · exact .inr (.inl (lap_le hcell hlt))
  · exact .inl heq
  · exact .inr (.inr (lap_le hcell.symm hgt))

namespace Stamps

theorem initial (hstamp : ∀ i, stamp i = i) (hfilled : ∀ q, ¬ Filled q) (hemptied : ∀ q, ¬ Emptied q) :
    Stamps lap stamp Filled Emptied where
  subset h := absurd h (hemptied _)
  filled h := absurd h (hfilled _)
  unfilled _ := (hstamp _).trans_le (Nat.mod_le ..)
  emptied h := absurd h (hemptied _)
  unemptied _ := (hstamp _).trans_le ((Nat.mod_le ..).trans (Nat.le_succ _))
  first h := by rw [hstamp, Nat.mod_eq_of_lt h]

theorem congr {stamp' : Nat → Nat} {Filled' Emptied' : Nat → Prop} (h : Stamps lap stamp Filled Emptied)
    (hstamp : stamp' = stamp) (hfilled : ∀ q, Filled' q ↔ Filled q) (hemptied : ∀ q, Emptied' q ↔ Emptied q) :
    Stamps lap stamp' Filled' Emptied' := by
  obtain rfl : Filled' = Filled := funext fun q => propext (hfilled q)
  obtain rfl : Emptied' = Emptied := funext fun q => propext (hemptied q)
  exact hstamp ▸ h

variable (h : Stamps lap stamp Filled Emptied)
include h

theorem stamp_of_vacant (hfill : ¬ Filled q) (hvacant : Vacant lap Emptied q) : stamp (q % lap) = q := by
  refine le_antisymm (h.unfilled hfill) ?_
  by_cases hlt : q < lap
  · exact h.first hlt
  · have hbefore := h.emptied (hvacant.resolve_left hlt)
    rw [← Nat.mod_eq_sub_mod (not_lt.mp hlt), Nat.sub_add_cancel (not_lt.mp hlt)] at hbefore
    exact hbefore

theorem stamp_of_held (hfill : Filled q) (hempty : ¬ Emptied q) : stamp (q % lap) = q + 1 :=
  le_antisymm (h.unemptied hempty) (h.filled hfill)

theorem vacant_inj (hq : ¬ Filled q) (hq' : Vacant lap Emptied q) (hr : ¬ Filled r) (hr' : Vacant lap Emptied r)
    (hcell : q % lap = r % lap) : q = r := by
  rw [← h.stamp_of_vacant hq hq', hcell, h.stamp_of_vacant hr hr']

theorem filled_of_lt (hlt : q < stamp (q % lap)) : Filled q := by
  by_contra hfill
  have := h.unfilled hfill
  omega

theorem not_filled_of_le (hle : stamp (q % lap) ≤ q) : ¬ Filled q := fun hfill => by
  have := h.filled hfill
  omega

theorem emptied_of_lt (hlt : q + 1 < stamp (q % lap)) : Emptied q := by
  by_contra hempty
  have := h.unemptied hempty
  omega

/-- A stamp from the lap before: what was filled then has not been emptied. -/
theorem unemptied_of_lt (hlt : stamp (q % lap) < q) : lap ≤ q ∧ ¬ Emptied (q - lap) := by
  have hle : lap ≤ q := by
    by_contra hfirst
    have := h.first (not_le.mp hfirst)
    omega
  refine ⟨hle, fun hempty => ?_⟩
  have hbefore := h.emptied hempty
  rw [← Nat.mod_eq_sub_mod hle, Nat.sub_add_cancel hle] at hbefore
  omega

section

variable (hlap : 2 ≤ lap)
include hlap

/-- With one cell, the stamp of a filled position would be the same as that of the next one. -/
theorem vacant_of_eq (heq : stamp (q % lap) = q) : Vacant lap Emptied q := by
  by_cases hlt : q < lap
  · exact .inl hlt
  · refine .inr ?_
    by_contra hempty
    have hbefore := h.unemptied hempty
    rw [← Nat.mod_eq_sub_mod (not_lt.mp hlt)] at hbefore
    omega

theorem held_of_eq (heq : stamp (q % lap) = q + 1) : Filled q ∧ ¬ Emptied q := by
  refine ⟨h.filled_of_lt (by omega), fun hempty => ?_⟩
  have := h.emptied hempty
  omega

theorem cell_ne (hfill : Filled q) (hempty : ¬ Emptied q) (hnew : ¬ Filled r) (hvacant : Vacant lap Emptied r) :
    q % lap ≠ r % lap := by
  intro hcell
  have hq := h.stamp_of_held hfill hempty
  have hr := h.stamp_of_vacant hnew hvacant
  obtain heq | hle | hle := lap_trichotomy hcell
  · exact hnew (heq ▸ hfill)
  · rw [hcell] at hq
    omega
  · rw [hcell] at hq
    omega

theorem fill (hfill : ¬ Filled q) (hvacant : Vacant lap Emptied q) :
    Stamps lap (update stamp (q % lap) (q + 1)) (fun r => Filled r ∨ r = q) Emptied := by
  have heq := h.stamp_of_vacant hfill hvacant
  refine ⟨fun hr => .inl (h.subset hr), ?_, ?_, ?_, ?_, ?_⟩ <;> intro r hr <;> by_cases hcell : r % lap = q % lap
  · rw [hcell, update_self]
    obtain hr | rfl := hr
    · have := h.filled hr
      rw [hcell] at this
      omega
    · exact le_rfl
  · rw [update_of_ne hcell]
    exact h.filled (hr.resolve_right fun hq => hcell (hq ▸ rfl))
  · rw [hcell, update_self]
    have hle := h.unfilled fun hfill => hr (.inl hfill)
    have hne : r ≠ q := fun hq => hr (.inr hq)
    rw [hcell] at hle
    omega
  · rw [update_of_ne hcell]
    exact h.unfilled fun hfill => hr (.inl hfill)
  · have := h.emptied hr
    rw [hcell] at this
    rw [hcell, update_self]
    omega
  · rw [update_of_ne hcell]
    exact h.emptied hr
  · have := h.unemptied hr
    rw [hcell] at this
    rw [hcell, update_self]
    obtain rfl | hle | hle := lap_trichotomy hcell <;> omega
  · rw [update_of_ne hcell]
    exact h.unemptied hr
  · have := h.first hr
    rw [hcell] at this
    rw [hcell, update_self]
    omega
  · rw [update_of_ne hcell]
    exact h.first hr

theorem empty (hfill : Filled q) (hempty : ¬ Emptied q) :
    Stamps lap (update stamp (q % lap) (q + lap)) Filled (fun r => Emptied r ∨ r = q) := by
  have heq := h.stamp_of_held hfill hempty
  have hsubset : ∀ {r}, Emptied r ∨ r = q → Filled r := fun hr => hr.elim h.subset fun hq => hq ▸ hfill
  refine ⟨hsubset, ?_, ?_, ?_, ?_, ?_⟩ <;> intro r hr <;> by_cases hcell : r % lap = q % lap
  · have := h.filled hr
    rw [hcell] at this
    rw [hcell, update_self]
    omega
  · rw [update_of_ne hcell]
    exact h.filled hr
  · have := h.unfilled hr
    rw [hcell] at this
    rw [hcell, update_self]
    obtain rfl | hle | hle := lap_trichotomy hcell <;> omega
  · rw [update_of_ne hcell]
    exact h.unfilled hr
  · rw [hcell, update_self]
    obtain hr | rfl := hr
    · have := h.emptied hr
      rw [hcell] at this
      omega
    · exact le_rfl
  · rw [update_of_ne hcell]
    exact h.emptied (hr.resolve_right fun hq => hcell (hq ▸ rfl))
  · have hle := h.unemptied fun hempty => hr (.inl hempty)
    have hne : r ≠ q := fun hq => hr (.inr hq)
    rw [hcell] at hle
    rw [hcell, update_self]
    obtain hq | hbefore | hafter := lap_trichotomy hcell <;> omega
  · rw [update_of_ne hcell]
    exact h.unemptied fun hempty => hr (.inl hempty)
  · have := h.first hr
    rw [hcell] at this
    rw [hcell, update_self]
    omega
  · rw [update_of_ne hcell]
    exact h.first hr

end

end Stamps

/-- Positions are claimed in order, each by one thread. It is in that thread's hand until the thread is done
with it. -/
structure Claims {T : Type} (next : Nat) (Done : Nat → Prop) (hand : T → Option Nat) : Prop where
  claimed : ∀ {q}, q < next ↔ Done q ∨ ∃ t, hand t = some q
  one : ∀ {t t' q}, hand t = some q → hand t' = some q → t = t'
  apart : ∀ {t q}, hand t = some q → ¬ Done q

namespace Claims

variable {T : Type} {next q : Nat} {Done : Nat → Prop} {hand : T → Option Nat} {t : T}

theorem initial (hdone : ∀ q, ¬ Done q) (hhand : ∀ t, hand t = none) : Claims 0 Done hand where
  claimed {q} := by
    refine ⟨fun hlt => absurd hlt (Nat.not_lt_zero q), fun h => h.elim (absurd · (hdone q)) fun ⟨t, ht⟩ => ?_⟩
    rw [hhand] at ht
    cases ht
  one {t} _ _ ht := by
    rw [hhand] at ht
    cases ht
  apart _ := hdone _

variable (h : Claims next Done hand)
include h

theorem lt_of_done (hdone : Done q) : q < next := h.claimed.mpr (.inl hdone)

theorem lt_of_hand (hhand : hand t = some q) : q < next := h.claimed.mpr (.inr ⟨t, hhand⟩)

theorem congr {Done' : Nat → Prop} {hand' : T → Option Nat} (hdone : ∀ q, Done' q ↔ Done q) (hhand : hand' = hand) :
    Claims next Done' hand' := by
  obtain rfl : Done' = Done := funext fun q => propext (hdone q)
  exact hhand ▸ h

variable [DecidableEq T]

omit h in
theorem update_eq_some {v : Option Nat} {u : T} {r : Nat} :
    update hand t v u = some r ↔ (u = t ∧ v = some r) ∨ (u ≠ t ∧ hand u = some r) := by
  by_cases heq : u = t
  · rw [heq, update_self]
    simp
  · rw [update_of_ne heq]
    simp [heq]

theorem claim (hfree : hand t = none) : Claims (next + 1) Done (update hand t (some next)) where
  claimed {q} := by
    rw [Nat.lt_succ_iff_lt_or_eq, h.claimed, or_assoc]
    refine or_congr_right ⟨?_, ?_⟩
    · rintro (⟨u, hu⟩ | rfl)
      · refine ⟨u, update_eq_some.mpr (.inr ⟨fun heq => ?_, hu⟩)⟩
        rw [heq, hfree] at hu
        cases hu
      · exact ⟨t, update_self ..⟩
    · rintro ⟨u, hu⟩
      obtain ⟨-, hnew⟩ | ⟨-, hu⟩ := update_eq_some.mp hu
      · exact .inr (Option.some.inj hnew).symm
      · exact .inl ⟨u, hu⟩
  one {u u' q} hu hu' := by
    obtain ⟨hut, hnew⟩ | ⟨-, hu⟩ := update_eq_some.mp hu <;> obtain ⟨hut', hnew'⟩ | ⟨-, hu'⟩ := update_eq_some.mp hu'
    · exact hut.trans hut'.symm
    · cases hnew
      exact absurd (h.lt_of_hand hu') (lt_irrefl _)
    · cases hnew'
      exact absurd (h.lt_of_hand hu) (lt_irrefl _)
    · exact h.one hu hu'
  apart {u q} hu hdone := by
    obtain ⟨-, hnew⟩ | ⟨-, hu⟩ := update_eq_some.mp hu
    · cases hnew
      exact absurd (h.lt_of_done hdone) (lt_irrefl _)
    · exact h.apart hu hdone

theorem finish (hheld : hand t = some q) : Claims next (fun r => Done r ∨ r = q) (update hand t none) where
  claimed {r} := by
    rw [h.claimed]
    constructor
    · rintro (hdone | ⟨u, hu⟩)
      · exact .inl (.inl hdone)
      · by_cases heq : u = t
        · rw [heq, hheld] at hu
          exact .inl (.inr (Option.some.inj hu).symm)
        · exact .inr ⟨u, update_eq_some.mpr (.inr ⟨heq, hu⟩)⟩
    · rintro ((hdone | rfl) | ⟨u, hu⟩)
      · exact .inl hdone
      · exact .inr ⟨t, hheld⟩
      · obtain ⟨-, hnone⟩ | ⟨-, hu⟩ := update_eq_some.mp hu
        · cases hnone
        · exact .inr ⟨u, hu⟩
  one {u u' r} hu hu' := by
    obtain ⟨-, hnone⟩ | ⟨-, hu⟩ := update_eq_some.mp hu
    · cases hnone
    obtain ⟨-, hnone⟩ | ⟨-, hu'⟩ := update_eq_some.mp hu'
    · cases hnone
    exact h.one hu hu'
  apart {u r} hu := by
    obtain ⟨-, hnone⟩ | ⟨hne, hu⟩ := update_eq_some.mp hu
    · cases hnone
    · rintro (hdone | rfl)
      · exact h.apart hu hdone
      · exact hne (h.one hu hheld)

end Claims

end StampedRing
