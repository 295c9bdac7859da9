import Mathlib.Data.List.Sort

/-! Round robin over sorted keys: a cursor holds the key that was served last, the next turn starts behind it. -/
namespace RoundRobin

open List

variable {K : Type} [LE K] [DecidableLE K] {keys before after between : List K} {c x y : K}

/-- Those behind the cursor, then the others. -/
def turn (c : K) (keys : List K) : List K := (keys.filter fun k => !decide (k ≤ c)) ++ keys.filter fun k => k ≤ c

theorem turn_perm : (turn c keys).Perm keys := perm_append_comm.trans (filter_append_perm _ _)

theorem mem_turn : x ∈ turn c keys ↔ x ∈ keys := turn_perm.mem_iff

theorem filter_turn (p : K → Bool) : (turn c keys).filter p = turn c (keys.filter p) := by
  unfold turn
  rw [filter_append, filter_comm, filter_comm p]

variable [LT K] [Std.IsLinearOrder K] [Std.LawfulOrderLT K]

theorem low_append_high (h : keys.Pairwise (· < ·)) :
    (keys.filter fun k => k ≤ c) ++ (keys.filter fun k => !decide (k ≤ c)) = keys := by
  induction keys with
  | nil => rfl
  | cons k keys ih =>
    obtain ⟨hk, hkeys⟩ := pairwise_cons.mp h
    by_cases hlow : k ≤ c
    · rw [filter_cons_of_pos (by simpa using hlow), filter_cons_of_neg (by simpa using hlow), cons_append,
        ih hkeys]
    · have hhigh : ∀ k' ∈ keys, ¬ k' ≤ c := fun k' hk' hle =>
        hlow (Std.le_of_lt (Std.lt_of_lt_of_le (hk k' hk') hle))
      rw [filter_cons_of_neg (by simpa using hlow), filter_cons_of_pos (by simpa using hlow),
        filter_eq_nil_iff.mpr (by simpa using hhigh), filter_eq_self.mpr (by simpa using hhigh), nil_append]

theorem drop_append_take (h : keys.Pairwise (· < ·)) :
    keys.drop (keys.filter fun k => k ≤ c).length ++ keys.take (keys.filter fun k => k ≤ c).length = turn c keys := by
  unfold turn
  generalize hlow : (keys.filter fun k => k ≤ c) = low
  generalize hhigh : (keys.filter fun k => !decide (k ≤ c)) = high
  rw [← low_append_high (c := c) h, hlow, hhigh, drop_left, take_left]

theorem turn_at (h : (before ++ y :: after).Pairwise (· < ·)) :
    turn y (before ++ y :: after) = after ++ before ++ [y] := by
  obtain ⟨-, hafter, hbefore⟩ := pairwise_append.mp h
  have hlow : ∀ k ∈ before, k ≤ y := fun k hk => Std.le_of_lt (hbefore k hk y mem_cons_self)
  have hhigh : ∀ k ∈ after, ¬ k ≤ y := fun k hk => Std.not_le.mpr ((pairwise_cons.mp hafter).1 k hk)
  have hy : y ≤ y := Std.le_refl y
  unfold turn
  simp only [filter_append, filter_cons, hy, decide_true, Bool.not_true, if_true]
  rw [filter_eq_nil_iff.mpr (by simpa using hlow), filter_eq_self.mpr (by simpa using hhigh),
    filter_eq_self.mpr (by simpa using hlow), filter_eq_nil_iff.mpr (by simpa using hhigh)]
  simp

theorem turn_served (h : keys.Pairwise (· < ·)) (hturn : turn c keys = before ++ y :: after) :
    turn y keys = after ++ before ++ [y] := by
  have hsplit := low_append_high (c := c) h
  unfold turn at hturn
  generalize (keys.filter fun k => k ≤ c) = low at hsplit hturn
  generalize (keys.filter fun k => !decide (k ≤ c)) = high at hsplit hturn
  rw [← hsplit] at h ⊢
  obtain ⟨rest, rfl, rfl⟩ | ⟨rest, rfl, hrest⟩ := append_eq_append_iff.mp hturn
  · rw [append_assoc, cons_append] at h ⊢
    rw [turn_at h]
    simp
  · cases rest with
    | nil =>
      rw [nil_append] at hrest
      rw [← hrest, append_nil, cons_append] at h ⊢
      have hturn : turn y ([] ++ y :: (after ++ before)) = after ++ before ++ [] ++ [y] := turn_at h
      exact hturn.trans (by simp)
    | cons k rest =>
      obtain ⟨rfl, rfl⟩ := cons_eq_cons.mp hrest
      rw [← append_assoc] at h ⊢
      rw [turn_at h]
      simp

/-- Whoever waits behind the one who is served, waits for fewer others. -/
theorem turn_sooner (h : keys.Pairwise (· < ·)) (hturn : turn c keys = before ++ y :: (between ++ x :: after)) :
    turn y keys = between ++ x :: (after ++ before ++ [y]) := by
  rw [turn_served h hturn]
  simp

end RoundRobin
