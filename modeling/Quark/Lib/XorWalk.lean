import Mathlib.Data.Nat.Bitwise
import Mathlib.Data.Nat.Log
import Mathlib.Order.Interval.Finset.Nat

/-! Greedy walks toward a target under the XOR metric, in the distances to the target. A walker leaves the side of the
highest bit of its distance, for the target or for the lowest of `k` points that are all nearer to it than the target.
Two bounds on the number of hops: one by the points there are, one by the bits a distance has. -/
namespace XorWalk

open Finset

theorem xor_lt_two_pow_iff {x d i : ℕ} : x ^^^ d < 2 ^ i ↔ x / 2 ^ i = d / 2 ^ i := by
  rw [← Nat.div_eq_zero_iff_lt (Nat.two_pow_pos i), Nat.xor_div_two_pow, Nat.xor_eq_zero_iff]

theorem div_two_pow_eq_one {d i : ℕ} (hlow : 2 ^ i ≤ d) (hhigh : d < 2 ^ (i + 1)) : d / 2 ^ i = 1 := by
  rw [pow_succ] at hhigh
  have hlow' : 1 * 2 ^ i ≤ d := by omega
  have hhigh' : d < (1 + 1) * 2 ^ i := by omega
  exact Nat.div_eq_of_lt_le hlow' hhigh'

/-- From the distance `d` to `d'`, among the points `R`. -/
structure Hop (R : Finset ℕ) (k d d' : ℕ) : Prop where
  side : d' < 2 ^ d.log2
  near : d' = 0 ∨ ∃ near ⊆ R, near.card = k ∧ ∀ m ∈ near, m < 2 ^ d.log2 ∧ d' ≤ m ∧ m ^^^ d < d

section

variable {R : Finset ℕ} {k d d' i p x : ℕ}

/-- Just the points on the other side of the highest bit of `d` differ from `d` in that bit. -/
theorem log2_xor (hd : d ≠ 0) : (x ≠ d ∧ (x ^^^ d).log2 = d.log2) ↔ x < 2 ^ d.log2 := by
  have hlow : 2 ^ d.log2 ≤ d := Nat.log2_self_le hd
  have hhigh : d < 2 ^ (d.log2 + 1) := Nat.lt_log2_self
  constructor
  · rintro ⟨hne, hlog⟩
    obtain ⟨hge, hlt⟩ := (Nat.log2_eq_iff (Nat.xor_ne_zero_iff.mpr hne)).mp hlog
    have hx : x < 2 ^ (d.log2 + 1) := by
      have hback := Nat.xor_lt_two_pow hlt hhigh
      rwa [Nat.xor_xor_cancel_right] at hback
    by_contra hover
    refine absurd (xor_lt_two_pow_iff.mpr ?_) (not_lt.mpr hge)
    rw [div_two_pow_eq_one (not_lt.mp hover) hx, div_two_pow_eq_one hlow hhigh]
  · intro hx
    have hne : x ≠ d := by omega
    refine ⟨hne, (Nat.log2_eq_iff (Nat.xor_ne_zero_iff.mpr hne)).mpr ⟨not_lt.mp fun hlt => ?_, ?_⟩⟩
    · have hsame := xor_lt_two_pow_iff.mp hlt
      rw [Nat.div_eq_of_lt hx] at hsame
      exact absurd ((Nat.div_eq_zero_iff_lt (Nat.two_pow_pos _)).mp hsame.symm) (not_lt.mpr hlow)
    · exact Nat.xor_lt_two_pow (hx.trans (Nat.pow_lt_pow_right (by decide) (Nat.lt_succ_self _))) hhigh

theorem Hop.lt (h : Hop R k d d') (hd : d ≠ 0) : d' < d := Nat.lt_of_lt_of_le h.side (Nat.log2_self_le hd)

theorem log2_le_of_lt (hd : d < 2 ^ (i + 1)) : d.log2 ≤ i := by
  by_cases hzero : d = 0
  · rw [hzero, Nat.log2_zero]
    exact Nat.zero_le i
  · exact Nat.lt_succ_iff.mp ((Nat.log2_lt hzero).mpr hd)

/-- There are `k` points between where a hop ends and the bit it crossed. -/
theorem Hop.below (h : Hop R k d d') (hd : d < 2 ^ (i + 1)) (hne : d' ≠ 0) : d' + k ≤ 2 ^ i := by
  obtain ⟨near, -, hcard, hnear⟩ := h.near.resolve_left hne
  have hpow : 2 ^ d.log2 ≤ 2 ^ i := Nat.pow_le_pow_right (by decide) (log2_le_of_lt hd)
  have hsub : near ⊆ Finset.Ico d' (2 ^ i) := by
    intro m hm
    obtain ⟨hside, hge, -⟩ := hnear m hm
    exact mem_Ico.mpr ⟨hge, hside.trans_le hpow⟩
  have hle := card_le_card hsub
  rw [Nat.card_Ico, hcard] at hle
  have hside : d' < 2 ^ i := h.side.trans_le hpow
  omega

/-- There are as many points nearer to `d` than the target as `d` says without its highest bit. -/
theorem Hop.rest (h : Hop R k d d') (hd : d ≠ 0) (hne : d' ≠ 0) : 2 ^ d.log2 + k ≤ d := by
  obtain ⟨near, -, hcard, hnear⟩ := h.near.resolve_left hne
  have hsub : near.image (· ^^^ d) ⊆ Finset.Ico (2 ^ d.log2) d := by
    intro y hy
    obtain ⟨m, hm, rfl⟩ := mem_image.mp hy
    obtain ⟨hside, -, hless⟩ := hnear m hm
    obtain ⟨hmd, hlog⟩ := (log2_xor hd).mpr hside
    rw [← hlog]
    exact mem_Ico.mpr ⟨Nat.log2_self_le (Nat.xor_ne_zero_iff.mpr hmd), hless⟩
  have hle := card_le_card hsub
  rw [Nat.card_Ico, card_image_of_injective near (Nat.xor_left_injective), hcard] at hle
  have hlow : 2 ^ d.log2 ≤ d := Nat.log2_self_le hd
  omega

/-- Where fewer than `k` points fit, the next hop is the last. -/
theorem Hop.last (h : Hop R k d d') (hd : d ≠ 0) (hlow : d + k ≤ 2 ^ (p + 1)) (hk : 2 ^ p < 2 * k) : d' = 0 := by
  by_contra hne
  have hrest := h.rest hd hne
  have hlog : d.log2 ≤ p := log2_le_of_lt (by omega)
  obtain hless | rfl := Nat.lt_or_eq_of_le hlog
  · have hhigh : d < 2 ^ (d.log2 + 1) := Nat.lt_log2_self
    have hpow : 2 ^ (d.log2 + 1) ≤ 2 ^ p := Nat.pow_le_pow_right (by decide) hless
    rw [pow_succ] at hhigh hpow
    omega
  · rw [pow_succ] at hlow
    omega

/-- Every hop but the last leaves `k` points behind. -/
theorem Hop.fewer (h : Hop R k d d') (hne : d' ≠ 0) :
    (R.filter (· < 2 ^ d'.log2)).card + k ≤ (R.filter (· < 2 ^ d.log2)).card := by
  obtain ⟨near, hR, hcard, hnear⟩ := h.near.resolve_left hne
  have hlow : 2 ^ d'.log2 ≤ d' := Nat.log2_self_le hne
  have hdisjoint : Disjoint (R.filter (· < 2 ^ d'.log2)) near := by
    refine disjoint_left.mpr fun m hm hin => ?_
    have hbelow := (mem_filter.mp hm).2
    obtain ⟨-, hge, -⟩ := hnear m hin
    omega
  rw [← hcard, ← card_union_of_disjoint hdisjoint]
  refine card_le_card (union_subset (fun m hm => ?_) fun m hm => ?_)
  · obtain ⟨hin, hbelow⟩ := mem_filter.mp hm
    exact mem_filter.mpr ⟨hin, (hbelow.trans_le hlow).trans h.side⟩
  · exact mem_filter.mpr ⟨hR hm, (hnear m hm).1⟩

end

section

variable {α : Type} {dist : α → ℕ} {hop : α → α} {Good : α → Prop} {R : Finset ℕ} {k p : ℕ}

def Arrives (dist : α → ℕ) (hop : α → α) : ℕ → α → Prop
  | 0, a => dist a = 0
  | n + 1, a => dist a = 0 ∨ Arrives dist hop n (hop a)

theorem arrives_of_eq {a : α} (h : dist a = 0) : (n : ℕ) → Arrives dist hop n a
  | 0 => h
  | _ + 1 => .inl h

theorem Arrives.mono {m n : ℕ} {a : α} (h : Arrives dist hop m a) (hle : m ≤ n) : Arrives dist hop n a := by
  induction m generalizing n a with
  | zero => exact arrives_of_eq h n
  | succ m ih =>
    obtain hzero | hlater := h
    · exact arrives_of_eq hzero n
    · cases n with
      | zero => omega
      | succ n => exact .inr (ih hlater (by omega))

theorem arrives_of_card (hstep : ∀ a, Good a → dist a ≠ 0 → Good (hop a) ∧ Hop R k (dist a) (dist (hop a)))
    (htarget : 0 ∈ R) {n : ℕ} {a : α} (hgood : Good a) (hcard : (R.filter (· < 2 ^ (dist a).log2)).card ≤ k * n) :
    Arrives dist hop n a := by
  induction n generalizing a with
  | zero =>
    have hin : 0 ∈ R.filter (· < 2 ^ (dist a).log2) := mem_filter.mpr ⟨htarget, Nat.two_pow_pos _⟩
    have hpos := card_pos.mpr ⟨0, hin⟩
    omega
  | succ n ih =>
    by_cases hzero : dist a = 0
    · exact .inl hzero
    · obtain ⟨hnext, hhop⟩ := hstep a hgood hzero
      refine .inr ?_
      by_cases hlast : dist (hop a) = 0
      · exact arrives_of_eq hlast n
      · have hfewer := hhop.fewer hlast
        rw [Nat.mul_succ] at hcard
        exact ih hnext (by omega)

theorem arrives_of_low (hstep : ∀ a, Good a → dist a ≠ 0 → Good (hop a) ∧ Hop R k (dist a) (dist (hop a)))
    (hk : 2 ^ p < 2 * k) {n : ℕ} {a : α} (hgood : Good a) (hlow : dist a + k ≤ 2 ^ (p + 1 + n)) :
    Arrives dist hop (n + 1) a := by
  induction n generalizing a with
  | zero =>
    by_cases hzero : dist a = 0
    · exact .inl hzero
    · exact .inr ((hstep a hgood hzero).2.last hzero hlow hk)
  | succ n ih =>
    by_cases hzero : dist a = 0
    · exact .inl hzero
    · obtain ⟨hnext, hhop⟩ := hstep a hgood hzero
      refine .inr ?_
      by_cases hlast : dist (hop a) = 0
      · exact arrives_of_eq hlast _
      · refine ih hnext (hhop.below ?_ hlast)
        have hpos := Nat.two_pow_pos p
        have heq : p + 1 + n + 1 = p + 1 + (n + 1) := by omega
        rw [heq]
        omega

theorem arrives_of_bits (hstep : ∀ a, Good a → dist a ≠ 0 → Good (hop a) ∧ Hop R k (dist a) (dist (hop a)))
    (hk : 2 ^ p < 2 * k) {n : ℕ} {a : α} (hgood : Good a) (hlt : dist a < 2 ^ (p + 2 + n)) :
    Arrives dist hop (n + 2) a := by
  by_cases hzero : dist a = 0
  · exact .inl hzero
  · obtain ⟨hnext, hhop⟩ := hstep a hgood hzero
    refine .inr ?_
    by_cases hlast : dist (hop a) = 0
    · exact arrives_of_eq hlast _
    · have heq : p + 2 + n = p + 1 + n + 1 := by omega
      rw [heq] at hlt
      exact arrives_of_low hstep hk hnext (hhop.below hlt hlast)

end

end XorWalk
