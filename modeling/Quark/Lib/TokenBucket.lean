import Mathlib.Algebra.Order.Field.Rat
import Mathlib.Tactic.Linarith
import Mathlib.Tactic.Ring

/-! A token bucket over time: units are spent one at a time, out of tokens that grow no faster than at a given
rate. As long as no unit is spent out of a full bucket, every window of time holds a bounded number of
them. -/
namespace TokenBucket

open List

def since (a : ℚ) (spent : List ℚ) : Nat := spent.countP fun t => decide (a ≤ t)

def during (a T : ℚ) (spent : List ℚ) : Nat := spent.countP fun t => decide (a ≤ t ∧ t ≤ a + T)

/-- Whatever was spent since any instant, and the tokens left, stay below the burst and what the rate has granted. -/
structure Paced (rate burst last tokens : ℚ) (spent : List ℚ) : Prop where
  nonneg : 0 ≤ tokens
  past : ∀ t ∈ spent, t ≤ last
  running : ∀ a, since a spent = 0 ∨ since a spent + tokens < rate * (last - a) + burst
  windows : ∀ a T, 0 ≤ T → during a T spent < rate * T + burst

variable {rate burst last tokens now tokens' : ℚ} {spent : List ℚ}

theorem during_le_since (a T : ℚ) (spent : List ℚ) : during a T spent ≤ since a spent := by
  refine countP_mono_left fun t _ ht => ?_
  rw [decide_eq_true_eq] at ht ⊢
  exact ht.1

/-- Nothing is spent yet. -/
theorem Paced.start (hrate : 0 ≤ rate) (hburst : 0 < burst) (htokens : 0 ≤ tokens) :
    Paced rate burst last tokens [] where
  nonneg := htokens
  past t ht := by cases ht
  running a := .inl rfl
  windows a T hT := by
    have hgranted : 0 ≤ rate * T := mul_nonneg hrate hT
    simp only [during, countP_nil, Nat.cast_zero]
    linarith

/-- Tokens are granted at no more than the rate. -/
theorem Paced.grant (h : Paced rate burst last tokens spent) (hnow : last ≤ now) (hnonneg : 0 ≤ tokens')
    (hgrant : tokens' ≤ tokens + rate * (now - last)) : Paced rate burst now tokens' spent where
  nonneg := hnonneg
  past t ht := (h.past t ht).trans hnow
  running a := (h.running a).imp_right fun hlt => by
    have hsplit : rate * (now - a) = rate * (last - a) + rate * (now - last) := by ring
    linarith
  windows := h.windows

/-- A unit is spent out of a bucket that is not full. -/
theorem Paced.spend (h : Paced rate burst last tokens spent) (hrate : 0 ≤ rate) (hone : 1 ≤ tokens)
    (hroom : tokens < burst) : Paced rate burst last (tokens - 1) (spent ++ [last]) := by
  have hrunning : ∀ a, a ≤ last →
      (since a (spent ++ [last]) : ℚ) + (tokens - 1) < rate * (last - a) + burst := by
    intro a ha
    have hcount : since a (spent ++ [last]) = since a spent + 1 := by
      rw [since, countP_append, countP_singleton, if_pos (decide_eq_true ha)]
      rfl
    rw [hcount, Nat.cast_add, Nat.cast_one]
    rcases h.running a with hzero | hlt
    · have hgranted : 0 ≤ rate * (last - a) := mul_nonneg hrate (by linarith)
      rw [hzero, Nat.cast_zero]
      linarith
    · linarith
  refine ⟨by linarith, fun t ht => ?_, fun a => ?_, fun a T hT => ?_⟩
  · rcases mem_append.mp ht with ht | ht
    · exact h.past t ht
    · exact (mem_singleton.mp ht).le
  · by_cases ha : a ≤ last
    · exact .inr (hrunning a ha)
    · refine .inl (countP_eq_zero.mpr fun t ht hle => ha ?_)
      rw [decide_eq_true_eq] at hle
      rcases mem_append.mp ht with ht | ht
      · exact hle.trans (h.past t ht)
      · rwa [mem_singleton.mp ht] at hle
  · by_cases hin : a ≤ last ∧ last ≤ a + T
    · have hle : (during a T (spent ++ [last]) : ℚ) ≤ since a (spent ++ [last]) :=
        Nat.cast_le.mpr (during_le_since a T _)
      have hlt := hrunning a hin.1
      have hspan : rate * (last - a) ≤ rate * T := mul_le_mul_of_nonneg_left (by linarith [hin.2]) hrate
      linarith
    · have hsame : during a T (spent ++ [last]) = during a T spent := by
        rw [during, countP_append, countP_singleton, if_neg (by simpa using hin)]
        rfl
      rw [hsame]
      exact h.windows a T hT

end TokenBucket
