import Mathlib.Tactic.Linarith
import Mathlib.Data.List.Chain
import Quark.Lib.Machine
import Quark.Swim

/-! `RateBucket` of `rate_bucket.hpp`: the token bucket that limits the control frames and the data frames of
a peer. Times are nanoseconds of a clock and unbounded; what is counted is a 64-bit word and wraps. -/
namespace Quark

open Machine List UInt64

structure RateBucket where
  lastNs : Int := 0
  tokens : UInt64 := 0
  deriving DecidableEq, Repr

namespace RateBucket

def refill (b : RateBucket) (now : Int) (rate burst : UInt64) : RateBucket :=
  if b.lastNs = 0 then { lastNs := now, tokens := burst }
  else if b.lastNs < now then
    let elapsed := now - b.lastNs
    if 1000000000 ≤ elapsed then { lastNs := now, tokens := burst }
    else
      let add := UInt64.ofNat elapsed.toNat * rate / 1000000000
      if 0 < add then
        let want := b.tokens + add
        { lastNs := if burst < want then now else b.lastNs + (add * 1000000000 / rate).toNat
          tokens := min burst want }
      else b
  else b

def admit_ (b : RateBucket) (now : Int) (rate burst : UInt64) : Bool × RateBucket :=
  let b := b.refill now rate burst
  if b.tokens = 0 then (false, b) else (true, { b with tokens := b.tokens - 1 })

def worth (b : RateBucket) (now : Int) (rate : UInt64) : Nat := (now - b.lastNs).toNat * rate.toNat

/-- No product and no sum of the call wraps. -/
def Fits (rate : UInt64) (b : RateBucket) (now : Int) : Prop :=
  b.lastNs + 1000000000 ≤ now ∨ b.worth now rate < 2 ^ 64 ∧ b.tokens.toNat + b.worth now rate / 1000000000 < 2 ^ 64

/-- A call of a bucket in use adds no more than the time is worth: a second without a refill fills it, and
what is added is worth a whole number of nanoseconds. -/
structure Exact (rate burst : UInt64) (b : RateBucket) (now : Int) : Prop where
  used : b.lastNs ≠ 0
  fits : b.Fits rate now
  second : b.lastNs + 1000000000 ≤ now → burst.toNat * 1000000000 ≤ b.tokens.toNat * 1000000000 + b.worth now rate
  whole : now < b.lastNs + 1000000000 → b.tokens.toNat + b.worth now rate / 1000000000 ≤ burst.toNat →
    rate.toNat ∣ b.worth now rate / 1000000000 * 1000000000

def wide (b : RateBucket) : Swim.RateBucket := ⟨b.lastNs, b.tokens.toNat⟩

@[simp] theorem wide_last (b : RateBucket) : b.wide.last = b.lastNs := rfl

@[simp] theorem wide_tokens (b : RateBucket) : b.wide.tokens = b.tokens.toNat := rfl

variable {b : RateBucket} {now : Int} {rate burst : UInt64}

theorem min_toNat (a c : UInt64) : (min a c).toNat = min a.toNat c.toNat := by
  have hmin : min a c = if a ≤ c then a else c := rfl
  rw [hmin, Nat.min_def]
  simp only [le_iff_toNat_le]
  split <;> rfl

theorem refill_wide (h : b.Fits rate now) :
    (b.refill now rate burst).wide = b.wide.refill now rate.toNat burst.toNat := by
  unfold refill Swim.RateBucket.refill
  simp only [wide_last, wide_tokens]
  by_cases hlast : b.lastNs = 0
  · simp only [hlast, if_true]
    rfl
  simp only [hlast, if_false]
  by_cases hlt : b.lastNs < now
  swap
  · simp only [hlt, if_false]
  simp only [hlt, if_true]
  by_cases hlong : 1000000000 ≤ now - b.lastNs
  · simp only [hlong, if_true]
    rfl
  simp only [hlong, if_false]
  obtain hsecond | ⟨hworth, htokens⟩ := h
  · omega
  unfold worth at hworth htokens
  have hadd : (UInt64.ofNat (now - b.lastNs).toNat * rate / 1000000000).toNat =
      (now - b.lastNs).toNat * rate.toNat / 1000000000 := by
    rw [UInt64.toNat_div, UInt64.toNat_mul, UInt64.toNat_ofNat',
      Nat.mod_eq_of_lt (a := (now - b.lastNs).toNat) (by omega), Nat.mod_eq_of_lt hworth]
    rfl
  have hwant : (b.tokens + UInt64.ofNat (now - b.lastNs).toNat * rate / 1000000000).toNat =
      b.tokens.toNat + (now - b.lastNs).toNat * rate.toNat / 1000000000 := by
    rw [UInt64.toNat_add, hadd, Nat.mod_eq_of_lt htokens]
  have hback : (UInt64.ofNat (now - b.lastNs).toNat * rate / 1000000000 * 1000000000 / rate).toNat =
      (now - b.lastNs).toNat * rate.toNat / 1000000000 * 1000000000 / rate.toNat := by
    rw [UInt64.toNat_div, UInt64.toNat_mul, hadd]
    congr 1
    exact Nat.mod_eq_of_lt (lt_of_le_of_lt (Nat.div_mul_le_self _ _) hworth)
  have hpos : 0 < UInt64.ofNat (now - b.lastNs).toNat * rate / 1000000000 ↔
      0 < (now - b.lastNs).toNat * rate.toNat / 1000000000 := by
    rw [lt_iff_toNat_lt, hadd]
    rfl
  by_cases hadded : 0 < (now - b.lastNs).toNat * rate.toNat / 1000000000
  · simp only [hpos.mpr hadded, hadded, if_true]
    simp only [wide, min_toNat, hwant, lt_iff_toNat_lt, hback]
    rfl
  · simp only [mt hpos.mp hadded, hadded, if_false]
end RateBucket

namespace Swim.RateBucket

def level (c : RateBucket) (now : Int) (rate : Nat) : Int := c.tokens * 1000000000 + (now - c.last) * rate

variable {c : RateBucket} {now : Int} {rate burst : Nat}

/-- A refill that is worth the time that it uses leaves less than a token of time. -/
theorem level_refill (hrate : 0 < rate) (hlast : c.last ≠ 0) (hle : c.last ≤ now) (htokens : c.tokens ≤ burst)
    (hsecond : c.last + 1000000000 ≤ now → (burst * 1000000000 : Int) ≤ c.level now rate)
    (hwhole : now < c.last + 1000000000 → c.tokens + (now - c.last).toNat * rate / 1000000000 ≤ burst →
      rate ∣ (now - c.last).toNat * rate / 1000000000 * 1000000000) :
    (c.refill now rate burst).last ≤ now ∧ (c.refill now rate burst).tokens ≤ burst ∧
      (now - (c.refill now rate burst).last) * rate < 1000000000 ∧
      (c.refill now rate burst).level now rate ≤ c.level now rate := by
  unfold refill
  rw [if_neg hlast]
  by_cases hlt : c.last < now
  swap
  · have heq : c.last = now := by omega
    rw [if_neg hlt, heq, Int.sub_self, Int.zero_mul]
    exact ⟨Int.le_refl _, htokens, by decide, Int.le_refl _⟩
  rw [if_pos hlt]
  by_cases hlong : 1000000000 ≤ now - c.last
  · rw [if_pos hlong]
    refine ⟨Int.le_refl _, le_rfl, ?_, ?_⟩
    · rw [Int.sub_self, Int.zero_mul]
      decide
    · have hfull := hsecond (by omega)
      unfold level at hfull ⊢
      dsimp only
      rw [Int.sub_self, Int.zero_mul, Int.add_zero]
      exact hfull
  rw [if_neg hlong]
  obtain ⟨e, he⟩ := Int.eq_ofNat_of_zero_le (Int.sub_nonneg_of_le hle)
  have hnow : now = c.last + e := by omega
  subst hnow
  rw [he, Int.toNat_natCast] at hwhole ⊢
  dsimp only
  have hdiv := Nat.div_add_mod (e * rate) 1000000000
  have hmod := Nat.mod_lt (e * rate) (show 0 < 1000000000 by decide)
  generalize e * rate / 1000000000 = add at *
  have hparts : ((e : Int) * rate) = 1000000000 * add + (e * rate % 1000000000 : Nat) := by
    rw [← Int.natCast_mul]
    omega
  split
  swap
  · next hnone =>
    refine ⟨hle, htokens, ?_, Int.le_refl _⟩
    rw [he, hparts]
    omega
  split
  · next hclip =>
    refine ⟨Int.le_refl _, min_le_left _ _, ?_, ?_⟩
    · rw [Int.sub_self, Int.zero_mul]
      decide
    · unfold level
      dsimp only
      rw [Int.sub_self, Int.zero_mul, he, hparts]
      omega
  · next hclip =>
    obtain ⟨q, hq⟩ := hwhole (by omega) (by omega)
    have hback : add * 1000000000 / rate = q := by
      rw [hq, Nat.mul_div_cancel_left q hrate]
    rw [hback]
    have hq' : (q : Int) * rate = add * 1000000000 := by
      rw [← Int.natCast_mul, mul_comm, ← hq]
      rfl
    have hqe : q ≤ e := by
      refine Nat.le_of_mul_le_mul_right (?_ : q * rate ≤ e * rate) hrate
      rw [mul_comm, ← hq]
      omega
    have hleft : (c.last + (e : Int) - (c.last + (q : Int))) * rate = (e : Int) * rate - q * rate := by
      rw [Int.add_sub_add_left, Int.sub_mul]
    dsimp only
    refine ⟨by omega, min_le_left _ _, ?_, ?_⟩
    · rw [hleft, hparts, hq']
      omega
    · unfold level
      dsimp only
      rw [hleft, he, hparts, hq', Nat.min_eq_right (by omega)]
      omega

theorem refill_gap (hrate : 0 < rate) (hburst : 1 ≤ burst)
    (hgap : c.last + ((1000000000 + rate - 1) / rate : Nat) ≤ now) : 1 ≤ (c.refill now rate burst).tokens := by
  have hceil : 1000000000 ≤ (1000000000 + rate - 1) / rate * rate := by
    have hdiv := Nat.div_add_mod (1000000000 + rate - 1) rate
    have hmod := Nat.mod_lt (1000000000 + rate - 1) hrate
    rw [mul_comm] at hdiv
    omega
  have hone : 1 ≤ (1000000000 + rate - 1) / rate := by
    rw [Nat.le_div_iff_mul_le hrate]
    omega
  unfold refill
  split
  · exact hburst
  split
  swap
  · omega
  split
  · exact hburst
  have hadd : 0 < (now - c.last).toNat * rate / 1000000000 := by
    rw [Nat.lt_iff_add_one_le, Nat.zero_add, Nat.le_div_iff_mul_le (by decide), Nat.one_mul]
    exact hceil.trans (Nat.mul_le_mul_right rate (by omega))
  dsimp only
  rw [if_pos hadd]
  exact Nat.le_min.mpr ⟨hburst, Nat.le_trans hadd (Nat.le_add_left _ _)⟩

/-- A refill never moves past the call that makes it. -/
theorem last_refill (hle : c.last ≤ now) : (c.refill now rate burst).last ≤ now := by
  unfold refill
  split
  · exact Int.le_refl now
  split
  swap
  · exact hle
  split
  · exact Int.le_refl now
  dsimp only
  split
  swap
  · exact hle
  dsimp only
  split
  · exact Int.le_refl now
  -- what was added is worth no more nanoseconds than went by
  have hback : (now - c.last).toNat * rate / 1000000000 * 1000000000 / rate ≤ (now - c.last).toNat :=
    Nat.div_le_of_le_mul (by rw [mul_comm rate]; exact Nat.div_mul_le_self _ _)
  omega

end Swim.RateBucket

namespace RateBucket

/-- A bucket and the calls it answered, with their times and answers. -/
structure Served where
  bucket : RateBucket := {}
  now : Int := 0
  calls : List (Int × Bool) := []
  deriving DecidableEq, Repr

def call (rate burst : UInt64) (s : Served) (now : Int) : Option Served :=
  if s.calls = [] ∨ s.now ≤ now then
    let r := s.bucket.admit_ now rate burst
    some { bucket := r.2, now, calls := s.calls ++ [(now, r.1)] }
  else none

/-- The first call, or one that adds no more than the time is worth. -/
def Metered (rate burst : UInt64) (s : Served) (now : Int) : Prop := s.calls = [] ∨ s.bucket.Exact rate burst now

/-- The first call, or one in which no product and no sum wraps. -/
def Unwrapped (rate : UInt64) (s : Served) (now : Int) : Prop := s.calls = [] ∨ s.bucket.Fits rate now

def admitted (a b : Int) (calls : List (Int × Bool)) : Nat :=
  calls.countP fun c => c.2 && decide (a ≤ c.1) && decide (c.1 ≤ b)

def gap (rate : UInt64) : Nat := (1000000000 + rate.toNat - 1) / rate.toNat

def Spaced (rate : UInt64) (calls : List (Int × Bool)) : Prop := calls.IsChain fun c d : Int × Bool =>
    c.1 + gap rate ≤ d.1

variable {b b' : RateBucket} {now a : Int} {rate burst : UInt64} {s s' : Served} {calls : List (Int × Bool)}

theorem admitted_concat (a b : Int) (calls : List (Int × Bool)) (now : Int) (ok : Bool) :
    admitted a b (calls ++ [(now, ok)]) = admitted a b calls + if ok = true ∧ a ≤ now ∧ now ≤ b then 1 else 0 := by
  unfold admitted
  rw [countP_append, countP_singleton]
  simp only [Bool.and_eq_true, decide_eq_true_eq, and_assoc]

theorem admitted_eq_zero (h : ∀ c ∈ calls, c.1 < a) : admitted a now calls = 0 := by
  rw [admitted, countP_eq_zero]
  intro c hc
  have hlt := h c hc
  simp only [Bool.and_eq_true, decide_eq_true_eq, not_and]
  omega

theorem admitted_until {later : Int} (h : ∀ c ∈ calls, c.1 ≤ now) (hle : now ≤ later) :
    admitted a later calls = admitted a now calls := by
  unfold admitted
  refine countP_congr fun c hc => ?_
  have hpast := h c hc
  simp only [Bool.and_eq_true, decide_eq_true_eq, hpast, hpast.trans hle, and_true]

/-- What holds after every call that was made so far. -/
structure Paced (rate burst : UInt64) (s : Served) : Prop where
  past : ∀ c ∈ s.calls, c.1 ≤ s.now
  fresh : s.calls = [] → s.bucket = {}
  refilled : s.calls ≠ [] → s.bucket.lastNs ≤ s.now ∧ s.bucket.tokens ≤ burst
  since : ∀ a ≤ s.now, s.calls ≠ [] → admitted a s.now s.calls * 1000000000 + s.bucket.wide.level s.now rate.toNat ≤
    (burst.toNat + 1) * 1000000000 + (s.now - a) * rate.toNat
  window : ∀ a b, a ≤ b → (admitted a b s.calls * 1000000000 : Int) ≤ (burst.toNat + 1) * 1000000000 +
    (b - a) * rate.toNat

/-- What a caller that keeps the gap relies on. -/
structure Attended (rate : UInt64) (s : Served) : Prop where
  latest : ∀ c ∈ s.calls.getLast?, c.1 = s.now
  fresh : s.calls = [] → s.bucket = {}
  last : s.calls ≠ [] → s.bucket.lastNs ≤ s.now
  spaced : Spaced rate s.calls → ∀ c ∈ s.calls, c.2 = true

/-- What a refill at `now` leaves, where it adds no more than the time is worth. -/
structure Refilled (rate burst : UInt64) (b : RateBucket) (now : Int) : Prop where
  last : b.lastNs ≤ now
  tokens : b.tokens ≤ burst
  time : (now - b.lastNs) * rate.toNat < 1000000000

theorem refilled_first : Refilled rate burst (refill {} now rate burst) now := by
  refine ⟨Int.le_refl _, UInt64.le_refl _, ?_⟩
  change (now - now) * _ < _
  rw [Int.sub_self, Int.zero_mul]
  decide

theorem Exact.refilled (h : b.Exact rate burst now) (hrate : 0 < rate) (hle : b.lastNs ≤ now)
    (htokens : b.tokens ≤ burst) : Refilled rate burst (b.refill now rate burst) now ∧
      (b.refill now rate burst).wide.level now rate.toNat ≤ b.wide.level now rate.toNat := by
  have hworth : ((now - b.lastNs) * rate.toNat : Int) = b.worth now rate := by
    rw [worth, Int.natCast_mul, Int.toNat_of_nonneg (by omega)]
  have hpos : 0 < rate.toNat := hrate
  have hburst : b.wide.tokens ≤ burst.toNat := htokens
  obtain ⟨hlast, hburst, htime, hlevel⟩ := Swim.RateBucket.level_refill (c := b.wide) hpos h.used hle hburst
    (fun hlong => by
      have hsecond := h.second hlong
      unfold Swim.RateBucket.level
      rw [wide_last, wide_tokens, hworth]
      omega) h.whole
  rw [← refill_wide h.fits] at hlast hburst htime hlevel
  exact ⟨⟨hlast, hburst, htime⟩, hlevel⟩

theorem Refilled.admit_ (h : Refilled rate burst (b.refill now rate burst) now) :
    (b.admit_ now rate burst).2.lastNs ≤ now ∧ (b.admit_ now rate burst).2.tokens ≤ burst ∧
      (if (b.admit_ now rate burst).1 = true then 1000000000 else 0) +
        (b.admit_ now rate burst).2.wide.level now rate.toNat =
        (b.refill now rate burst).wide.level now rate.toNat := by
  unfold RateBucket.admit_
  dsimp only
  split
  · exact ⟨h.last, h.tokens, by simp⟩
  · next hsome =>
    have hone : 1 ≤ (b.refill now rate burst).tokens.toNat := UInt64.pos_iff_ne_zero.mpr hsome
    have hpos : 1 ≤ (b.refill now rate burst).tokens := hone
    have hless : ((b.refill now rate burst).tokens - 1).toNat = (b.refill now rate burst).tokens.toNat - 1 :=
      UInt64.toNat_sub_of_le _ _ hpos
    refine ⟨h.last, ?_, ?_⟩
    · refine UInt64.le_trans ?_ h.tokens
      rw [le_iff_toNat_le, hless]
      exact Nat.sub_le _ _
    · unfold Swim.RateBucket.level
      simp only [wide_last, wide_tokens, hless, if_true]
      omega

theorem admit_gap (hrate : 0 < rate) (hburst : 1 ≤ burst) (hfits : b.Fits rate now)
    (hgap : b.lastNs + gap rate ≤ now) : (b.admit_ now rate burst).1 = true := by
  have hpos : 0 < rate.toNat := hrate
  have hburst : 1 ≤ burst.toNat := hburst
  have hone := Swim.RateBucket.refill_gap (c := b.wide) hpos hburst hgap
  rw [← refill_wide hfits] at hone
  unfold RateBucket.admit_
  dsimp only
  rw [if_neg]
  intro hzero
  rw [wide_tokens, hzero] at hone
  exact absurd hone (by decide)

theorem admit_first (hburst : 1 ≤ burst) : (admit_ {} now rate burst).1 = true := by
  have hburst : 1 ≤ burst.toNat := hburst
  unfold RateBucket.admit_ refill
  dsimp only
  rw [if_pos rfl, if_neg]
  intro hzero
  have hzero : burst = 0 := hzero
  rw [hzero] at hburst
  exact absurd hburst (by decide)

theorem Paced.start (rate burst : UInt64) : Paced rate burst {} := by
  refine ⟨fun c hc => ?_, fun _ => rfl, fun hne => absurd rfl hne, fun a _ hne => absurd rfl hne, fun a b hab => ?_⟩
  · cases hc
  · have hroom := Int.mul_nonneg (Int.sub_nonneg_of_le hab) (Int.natCast_nonneg rate.toNat)
    change (0 : Int) * _ ≤ _
    omega

theorem Paced.call (h : Paced rate burst s) (hrate : 0 < rate) (hok : Metered rate burst s now)
    (hstep : call rate burst s now = some s') : Paced rate burst s' := by
  unfold RateBucket.call at hstep
  split at hstep
  swap
  · cases hstep
  next htime =>
  obtain rfl := Option.some.inj hstep
  have hrefilled : Refilled rate burst (s.bucket.refill now rate burst) now ∧ (s.calls ≠ [] →
      (s.bucket.refill now rate burst).wide.level now rate.toNat ≤ s.bucket.wide.level now rate.toNat) := by
    obtain hnil | hexact := hok
    · rw [h.fresh hnil]
      exact ⟨refilled_first, fun hne => absurd hnil hne⟩
    · have hne : s.calls ≠ [] := by
        intro hnil
        apply hexact.used
        rw [h.fresh hnil]
      obtain ⟨hlast, htokens⟩ := h.refilled hne
      have hle := (htime.resolve_left hne)
      obtain ⟨hrefilled, hlevel⟩ := hexact.refilled hrate (by omega) htokens
      exact ⟨hrefilled, fun _ => hlevel⟩
  obtain ⟨hlast, htokens, hlevel⟩ := hrefilled.1.admit_
  have hpast : ∀ c ∈ s.calls, c.1 ≤ now := by
    intro c hc
    exact (h.past c hc).trans (htime.resolve_left (ne_nil_of_mem hc))
  have hsince : ∀ a ≤ now, (admitted a now (s.calls ++ [(now, (s.bucket.admit_ now rate burst).1)]) *
    1000000000 : Int) + (s.bucket.admit_ now rate burst).2.wide.level now rate.toNat ≤
        (burst.toNat + 1) * 1000000000 + (now - a) * rate.toNat := by
    intro a ha
    rw [admitted_concat]
    simp only [ha, Int.le_refl, and_true]
    by_cases hold : s.calls ≠ [] ∧ a ≤ s.now
    · have hle := htime.resolve_left hold.1
      have hbefore := h.since a hold.2 hold.1
      have hmore := hrefilled.2 hold.1
      rw [admitted_until h.past hle, Nat.cast_add]
      unfold Swim.RateBucket.level at *
      have htimes : ((now - s.bucket.wide.last) * rate.toNat : Int) =
          (s.now - s.bucket.wide.last) * rate.toNat + (now - s.now) * rate.toNat := by
        rw [← Int.add_mul]
        congr 1
        omega
      have hwindow : ((now - a) * rate.toNat : Int) = (s.now - a) * rate.toNat + (now - s.now) * rate.toNat := by
        rw [← Int.add_mul]
        congr 1
        omega
      split at hlevel
      · next hok => rw [if_pos hok]; omega
      · next hok => rw [if_neg hok]; omega
    · have hnone : admitted a now s.calls = 0 := by
        refine admitted_eq_zero fun c hc => ?_
        have hc' := h.past c hc
        have hlt := not_and.mp hold (ne_nil_of_mem hc)
        omega
      have hroom := Int.mul_nonneg (Int.sub_nonneg_of_le ha) (Int.natCast_nonneg rate.toNat)
      have htime := hrefilled.1.time
      have hburst' : (s.bucket.refill now rate burst).tokens.toNat ≤ burst.toNat := hrefilled.1.tokens
      rw [hnone, zero_add]
      unfold Swim.RateBucket.level at *
      simp only [wide_last, wide_tokens] at hlevel ⊢
      split at hlevel
      · next hok => rw [if_pos hok]; omega
      · next hok => rw [if_neg hok]; omega
  refine ⟨?_, ?_, ?_, ?_, ?_⟩
  · intro c hc
    obtain hc | hc := mem_append.mp hc
    · exact hpast c hc
    · rw [mem_singleton.mp hc]
  · intro hnil
    exact absurd hnil (append_ne_nil_of_right_ne_nil _ (cons_ne_nil _ _))
  · exact fun _ => ⟨hlast, htokens⟩
  · exact fun a ha _ => hsince a ha
  · intro a b hab
    by_cases hin : a ≤ now ∧ now ≤ b
    · have hbefore := hsince a hin.1
      have hsame : admitted a b (s.calls ++ [(now, (s.bucket.admit_ now rate burst).1)]) =
          admitted a now (s.calls ++ [(now, (s.bucket.admit_ now rate burst).1)]) := by
        refine admitted_until (fun c hc => ?_) hin.2
        obtain hc | hc := mem_append.mp hc
        · exact hpast c hc
        · rw [mem_singleton.mp hc]
      have hlevel' : 0 ≤ (s.bucket.admit_ now rate burst).2.wide.level now rate.toNat :=
        Int.add_nonneg (Int.mul_nonneg (Int.natCast_nonneg _) (by decide))
          (Int.mul_nonneg (Int.sub_nonneg_of_le hlast) (Int.natCast_nonneg _))
      have hlonger := Int.mul_le_mul_of_nonneg_right (Int.sub_le_sub_right hin.2 a) (Int.natCast_nonneg rate.toNat)
      rw [hsame]
      omega
    · rw [admitted_concat, if_neg fun hin' => hin hin'.2]
      exact h.window a b hab

theorem Attended.start (rate : UInt64) : Attended rate {} :=
  ⟨fun _ hc => absurd hc (by simp), fun _ => rfl, fun hne => absurd rfl hne, fun _ _ hc => absurd hc not_mem_nil⟩

theorem admit_last : (b.admit_ now rate burst).2.lastNs = (b.refill now rate burst).lastNs := by
  unfold RateBucket.admit_
  dsimp only
  split <;> rfl

theorem Attended.call (h : Attended rate s) (hrate : 0 < rate) (hburst : 1 ≤ burst) (hok : Unwrapped rate s now)
    (hstep : RateBucket.call rate burst s now = some s') : Attended rate s' := by
  unfold RateBucket.call at hstep
  split at hstep
  swap
  · cases hstep
  next htime =>
  obtain rfl := Option.some.inj hstep
  refine ⟨fun c hc => ?_, fun hnil => ?_, fun _ => ?_, fun hspaced c hc => ?_⟩
  · rw [getLast?_concat] at hc
    cases hc
    rfl
  · exact absurd hnil (append_ne_nil_of_right_ne_nil _ (cons_ne_nil _ _))
  · change (s.bucket.admit_ now rate burst).2.lastNs ≤ now
    rw [admit_last]
    by_cases hnil : s.calls = []
    · rw [h.fresh hnil]
      exact Int.le_refl now
    · have hle : s.bucket.wide.last ≤ now := (h.last hnil).trans (htime.resolve_left hnil)
      have hrefilled : (s.bucket.wide.refill now rate.toNat burst.toNat).last ≤ now := Swim.RateBucket.last_refill hle
      rwa [← refill_wide (hok.resolve_left hnil)] at hrefilled
  · obtain ⟨hbefore, -, hgap⟩ := isChain_append.mp hspaced
    obtain hc | hc := mem_append.mp hc
    · exact h.spaced hbefore c hc
    rw [mem_singleton.mp hc]
    by_cases hnil : s.calls = []
    · rw [h.fresh hnil]
      exact admit_first hburst
    · have hafter := hgap _ (getLast?_eq_some_getLast hnil) _ rfl
      rw [h.latest _ (getLast?_eq_some_getLast hnil)] at hafter
      have hlast := h.last hnil
      exact admit_gap hrate hburst (hok.resolve_left hnil) (by omega)

/-- Where every call adds no more than the time is worth, a window is granted the burst, the rate and one
token more; where nothing wraps, a caller that keeps the gap is never refused. -/
theorem admitted_within_rate (hrate : 0 < rate) (hburst : 1 ≤ burst) :
    (Reach (call rate burst) (Metered rate burst) {} s → ∀ (a : Int) (t : Nat),
      admitted a (a + t) s.calls ≤ burst.toNat + rate.toNat * t / 1000000000 + 1) ∧
    (Reach (call rate burst) (Unwrapped rate) {} s → Spaced rate s.calls → ∀ c ∈ s.calls, c.2 = true) := by
  refine ⟨fun h a t => ?_, fun h => ?_⟩
  · have hpaced : Paced rate burst s := by
      refine h.invariant (Paced.start rate burst) fun s now s' hpaced hok hstep => ?_
      exact hpaced.call hrate hok hstep
    have hwindow := hpaced.window a (a + t) (by omega)
    have hlength : a + t - a = t := by omega
    rw [hlength, ← Int.natCast_mul, mul_comm t] at hwindow
    omega
  · have hattended : Attended rate s := by
      refine h.invariant (Attended.start rate) fun s now s' hattended hok hstep => ?_
      exact hattended.call hrate hburst hok hstep
    exact hattended.spaced

/-- Two tokens a second, of which the third call takes the first one that is added; and a caller that keeps
the gap, though the fraction of a nanosecond is given away. -/
theorem admitted_within_rate_third :
    (∃ s : Served, s.calls = [(1, true), (1, true), (500000001, true)] ∧
      admitted 1 500000001 s.calls ≤ 2 + 2 * 500000000 / 1000000000 + 1) ∧
    ∃ s : Served, s.calls.map Prod.fst = [1, 3] ∧ ¬ Metered 600000000 1 ⟨⟨1, 0⟩, 1, [(1, true)]⟩ 3 ∧
      ∀ c ∈ s.calls, c.2 = true := by
  have hlast : RateBucket.Exact 2 2 { lastNs := 1, tokens := 0 } 500000001 :=
    ⟨by decide, .inr ⟨by decide, by decide⟩, fun h => absurd h (by decide), fun _ _ => by decide⟩
  have hsecond : RateBucket.Exact 2 2 { lastNs := 1, tokens := 1 } 1 :=
    ⟨by decide, .inr ⟨by decide, by decide⟩, fun h => absurd h (by decide), fun _ _ => by decide⟩
  have hone : Reach (call 2 2) (Metered 2 2) {} ⟨⟨1, 1⟩, 1, [(1, true)]⟩ :=
    .step (a := 1) .start (.inl rfl) (by decide)
  have htwo : Reach (call 2 2) (Metered 2 2) {} ⟨⟨1, 0⟩, 1, [(1, true), (1, true)]⟩ :=
    .step (a := 1) hone (.inr hsecond) (by decide)
  have hthree : Reach (call 2 2) (Metered 2 2) {} ⟨⟨500000001, 0⟩, 500000001,
      [(1, true), (1, true), (500000001, true)]⟩ :=
    .step (a := 500000001) htwo (.inr hlast) (by decide)
  have hfirst : Reach (call 600000000 1) (Unwrapped 600000000) {} ⟨⟨1, 0⟩, 1, [(1, true)]⟩ :=
    .step (a := 1) .start (.inl rfl) (by decide)
  have hspaced : Reach (call 600000000 1) (Unwrapped 600000000) {} ⟨⟨2, 0⟩, 3, [(1, true), (3, true)]⟩ :=
    .step (a := 3) hfirst (.inr (.inr ⟨by decide, by decide⟩)) (by decide)
  have hlossy : ¬ Metered 600000000 1 ⟨⟨1, 0⟩, 1, [(1, true)]⟩ 3 := by
    rintro (hnil | hexact)
    · cases hnil
    · exact absurd (hexact.whole (by decide) (by decide)) (by decide)
  refine ⟨⟨_, rfl, (admitted_within_rate (by decide) (by decide)).1 hthree 1 500000000⟩,
    ⟨⟨2, 0⟩, 3, [(1, true), (3, true)]⟩, rfl, hlossy, ?_⟩
  exact (admitted_within_rate (by decide) (by decide)).2 hspaced (by unfold Spaced; decide)

/-- A burst above the rate is refilled every second, though the caller is never idle; the fraction of a
nanosecond is given away; a first call at 0 leaves the bucket unused; a sum that wraps loses the tokens. -/
theorem rate_exceeded :
    ((Machine.run (call 1 8) {}
      ((List.range 5).flatMap fun i => List.replicate 8 (1000000000 + 500000000 * i))).any fun s =>
      8 + 1 * 2000000000 / 1000000000 + 1 < admitted 1000000000 3000000000 s.calls) = true ∧
    ((Machine.run (call 600000000 1) {} ((List.range 20).map fun i => 1 + i)).any fun s =>
      1 + 600000000 * 19 / 1000000000 + 1 < admitted 1 20 s.calls) = true ∧
    ((Machine.run (call 1 1) {} [0, 0, 0]).any fun s => 1 + 1 * 0 / 1000000000 + 1 < admitted 0 0 s.calls) = true ∧
    ((Machine.run (call 3 18446744073709551615) {} [1, 700000001]).any fun s => s.calls = [(1, true),
    (700000001, false)]) =
      true := by
  decide +kernel

end RateBucket

end Quark
