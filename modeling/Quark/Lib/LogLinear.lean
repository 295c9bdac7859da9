import Mathlib.Algebra.Order.Ring.Nat
import Mathlib.Order.Monotone.Basic
import Mathlib.Tactic.Ring

/-! Log-linear buckets: `sub` of one width, then `sub` of that width to each octave, and the width doubles. -/
namespace LogLinear

variable {sub unit i j v : Nat}

/-- The least value of bucket `i`. -/
def edge (sub unit i : Nat) : Nat := if i < sub then i * unit else (sub + i % sub) * (unit * 2 ^ (i / sub - 1))

def width (sub unit i : Nat) : Nat := if i < sub then unit else unit * 2 ^ (i / sub - 1)

theorem width_pos (hunit : 0 < unit) : 0 < width sub unit i := by
  unfold width
  split
  · exact hunit
  · exact Nat.mul_pos hunit (Nat.two_pow_pos _)

/-- In octave `q` after the first `sub` buckets. -/
theorem edge_octave {q r : Nat} (hr : r < sub) : edge sub unit (sub + q * sub + r) = (sub + r) * (unit * 2 ^ q) := by
  have hsub : 0 < sub := Nat.zero_lt_of_lt hr
  have hdiv : (sub + q * sub + r) / sub = q + 1 := by
    rw [show sub + q * sub + r = r + (q + 1) * sub by ring, Nat.add_mul_div_right _ _ hsub,
      Nat.div_eq_of_lt hr, zero_add]
  have hmod : (sub + q * sub + r) % sub = r := by
    rw [show sub + q * sub + r = r + (q + 1) * sub by ring, Nat.add_mul_mod_self_right, Nat.mod_eq_of_lt hr]
  rw [edge, if_neg (by omega), hdiv, hmod, Nat.add_sub_cancel]

theorem edge_head (hi : i ≤ sub) : edge sub unit i = i * unit := by
  obtain hlt | rfl := hi.lt_or_eq
  · rw [edge, if_pos hlt]
  · obtain rfl | hpos := i.eq_zero_or_pos
    · simp [edge]
    · have hfirst : edge i unit (i + 0 * i + 0) = (i + 0) * (unit * 2 ^ 0) := edge_octave hpos
      rwa [zero_mul, add_zero, pow_zero, mul_one] at hfirst

theorem exists_octave (hsub : 0 < sub) (hi : sub ≤ i) : ∃ q r, r < sub ∧ i = sub + q * sub + r := by
  refine ⟨(i - sub) / sub, (i - sub) % sub, Nat.mod_lt _ hsub, ?_⟩
  have hdiv := Nat.div_add_mod' (i - sub) sub
  omega

theorem width_octave {q r : Nat} (hr : r < sub) : width sub unit (sub + q * sub + r) = unit * 2 ^ q := by
  have hsub : 0 < sub := Nat.zero_lt_of_lt hr
  have hdiv : (sub + q * sub + r) / sub = q + 1 := by
    rw [show sub + q * sub + r = r + (q + 1) * sub by ring, Nat.add_mul_div_right _ _ hsub,
      Nat.div_eq_of_lt hr, zero_add]
  rw [width, if_neg (by omega), hdiv, Nat.add_sub_cancel]

theorem edge_succ (hsub : 0 < sub) : edge sub unit (i + 1) = edge sub unit i + width sub unit i := by
  obtain hlt | hle := lt_or_ge i sub
  · rw [edge_head (i := i + 1) hlt, edge_head hlt.le, width, if_pos hlt]
    ring
  · obtain ⟨q, r, hr, rfl⟩ := exists_octave hsub hle
    rw [edge_octave hr, width_octave hr]
    obtain hin | hlast := lt_or_ge (r + 1) sub
    · rw [add_assoc _ r 1, edge_octave hin]
      ring
    · obtain rfl : r + 1 = sub := by omega
      have hnext : edge (r + 1) unit (r + 1 + (q + 1) * (r + 1) + 0) = (r + 1 + 0) * (unit * 2 ^ (q + 1)) :=
        edge_octave hsub
      rw [show r + 1 + q * (r + 1) + r + 1 = r + 1 + (q + 1) * (r + 1) + 0 by ring, hnext]
      ring

theorem edge_strictMono (hsub : 0 < sub) (hunit : 0 < unit) : StrictMono (edge sub unit) :=
  strictMono_nat_of_lt_succ fun i => by
    rw [edge_succ hsub]
    exact Nat.lt_add_of_pos_right (width_pos hunit)

/-- A value under the first octave: its bucket by the width of one. -/
theorem bucket_linear (hunit : 0 < unit) (hv : v < sub * unit) :
    edge sub unit (v / unit) ≤ v ∧ v < edge sub unit (v / unit + 1) := by
  have hsub : 0 < sub := Nat.pos_of_mul_pos_right (Nat.zero_lt_of_lt hv)
  have hlt : v / unit < sub := (Nat.div_lt_iff_lt_mul hunit).mpr hv
  rw [edge_succ hsub, edge, if_pos hlt, width, if_pos hlt]
  have hdiv := Nat.div_add_mod' v unit
  have hmod := Nat.mod_lt v hunit
  omega

/-- A value in octave `q`: its bucket by what it is above the octave. -/
theorem bucket_octave {q : Nat} (hunit : 0 < unit) (hle : sub * (unit * 2 ^ q) ≤ v)
    (hlt : v < 2 * (sub * (unit * 2 ^ q))) :
    (v - sub * (unit * 2 ^ q)) / (unit * 2 ^ q) < sub ∧
      edge sub unit (sub + q * sub + (v - sub * (unit * 2 ^ q)) / (unit * 2 ^ q)) ≤ v ∧
      v < edge sub unit (sub + q * sub + (v - sub * (unit * 2 ^ q)) / (unit * 2 ^ q) + 1) := by
  have hsub : 0 < sub := by
    by_contra hzero
    rw [Nat.eq_zero_of_not_pos hzero] at hlt
    simp at hlt
  have hpos : 0 < unit * 2 ^ q := Nat.mul_pos hunit (Nat.two_pow_pos q)
  generalize hr : (v - sub * (unit * 2 ^ q)) / (unit * 2 ^ q) = r
  have hrlt : r < sub := by
    rw [← hr, Nat.div_lt_iff_lt_mul hpos]
    omega
  have hdiv := Nat.div_add_mod' (v - sub * (unit * 2 ^ q)) (unit * 2 ^ q)
  have hmod := Nat.mod_lt (v - sub * (unit * 2 ^ q)) hpos
  rw [hr] at hdiv
  rw [edge_succ hsub, edge_octave hrlt, width_octave hrlt, add_mul]
  exact ⟨hrlt, by omega, by omega⟩

end LogLinear
