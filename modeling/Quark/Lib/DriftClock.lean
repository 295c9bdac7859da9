import Mathlib.Algebra.Order.Floor.Semiring
import Mathlib.Algebra.Order.Ring.Defs
import Mathlib.Tactic.Linarith
import Mathlib.Tactic.Ring

/-! Clocks of bounded drift, read in whole ticks, and intervals that two of them measure. -/

variable {K : Type} [CommRing K] [LinearOrder K] [IsStrictOrderedRing K]

/-- A clock whose rate stays within `1 ± ρ` of real time, which begins at 0. -/
structure DriftClock (K : Type) [CommRing K] [LinearOrder K] (ρ : K) where
  read : K → K
  nonneg : ∀ t, 0 ≤ t → 0 ≤ read t
  slowest : ∀ t u, t ≤ u → (1 - ρ) * (u - t) ≤ read u - read t
  fastest : ∀ t u, t ≤ u → read u - read t ≤ (1 + ρ) * (u - t)

namespace DriftClock

variable [FloorSemiring K] {ρ : K}

def ticks (c : DriftClock K ρ) (t : K) : Nat := ⌊c.read t⌋₊

variable {c d : DriftClock K ρ} {s t u v : K} {n m D : Nat}

theorem ticks_mono (hρ : ρ ≤ 1) (htu : t ≤ u) : c.ticks t ≤ c.ticks u := by
  have hslow := c.slowest t u htu
  have hpos : 0 ≤ (1 - ρ) * (u - t) := mul_nonneg (by linarith) (by linarith)
  exact Nat.floor_le_floor (by linarith)

/-- Fewer than `n` ticks have passed: less than `n` has. -/
theorem read_lt_of_ticks_lt (hs : 0 ≤ s) (h : c.ticks t < c.ticks s + n) : c.read t < c.read s + n := by
  have hlt := Nat.lt_floor_add_one (c.read t)
  have hle := Nat.floor_le (c.nonneg s hs)
  have hcast : ((c.ticks t + 1 : Nat) : K) ≤ ((c.ticks s + n : Nat) : K) := Nat.cast_le.mpr h
  push_cast at hcast
  change c.read t < (c.ticks t : K) + 1 at hlt
  change (c.ticks s : K) ≤ c.read s at hle
  linarith

/-- `n` ticks have passed: more than `n - 1` has. -/
theorem lt_read_of_ticks_le (ht : 0 ≤ t) (h : c.ticks s + n ≤ c.ticks t) : c.read s + n < c.read t + 1 := by
  have hlt := Nat.lt_floor_add_one (c.read s)
  have hle := Nat.floor_le (c.nonneg t ht)
  have hcast : ((c.ticks s + n : Nat) : K) ≤ ((c.ticks t : Nat) : K) := Nat.cast_le.mpr h
  push_cast at hcast
  change c.read s < (c.ticks s : K) + 1 at hlt
  change (c.ticks t : K) ≤ c.read t at hle
  linarith

/-- An interval that begins no later, and that one clock reads as less than `D - m` ticks, ends before one that
another clock reads as `D` ticks. -/
theorem ends_before (hρ : 0 ≤ ρ) (hm : 2 * ρ * D + 1 ≤ m) (hmD : m ≤ D) (hs : 0 ≤ s) (hsu : s ≤ u)
    (hbelief : c.ticks t < c.ticks s + (D - m)) (hgrant : d.ticks u + D ≤ d.ticks v) (huv : u ≤ v) : t < v := by
  by_contra hvt
  rw [not_lt] at hvt
  have hD : (m : K) ≤ D := Nat.cast_le.mpr hmD
  have hρD : 0 ≤ ρ * (D : K) := mul_nonneg hρ (Nat.cast_nonneg D)
  have hhold := read_lt_of_ticks_lt hs hbelief
  have hwait := lt_read_of_ticks_le (le_trans hs (le_trans hsu huv)) hgrant
  rw [Nat.cast_sub hmD] at hhold
  have hslow := c.slowest s t (by linarith)
  have hfast := d.fastest u v huv
  have hρ1 : ρ < 1 := by
    by_contra hge
    have hlarge : (D : K) ≤ ρ * D := le_mul_of_one_le_left (Nat.cast_nonneg D) (not_lt.mp hge)
    linarith
  have hholds : (1 + ρ) * ((1 - ρ) * (t - s)) < (1 + ρ) * (D - m) :=
    mul_lt_mul_of_pos_left (by linarith) (by linarith)
  have hwaits : (1 - ρ) * (D - 1) < (1 - ρ) * ((1 + ρ) * (v - u)) :=
    mul_lt_mul_of_pos_left (by linarith) (by linarith)
  have hlonger : (1 - ρ) * ((1 + ρ) * (v - u)) ≤ (1 - ρ) * ((1 + ρ) * (t - s)) :=
    mul_le_mul_of_nonneg_left (mul_le_mul_of_nonneg_left (by linarith) (by linarith)) (by linarith)
  have hmargin : (1 + ρ) * (2 * ρ * D + 1) ≤ (1 + ρ) * m := mul_le_mul_of_nonneg_left hm (by linarith)
  have hsquare : 0 ≤ ρ * (ρ * D) := mul_nonneg hρ hρD
  linarith

end DriftClock
