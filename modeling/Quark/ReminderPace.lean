import Quark.Lib.TokenBucket
import Quark.ReminderService

/-! How fast the ready segment is drained: the reminders fired in any window of time. -/
namespace Quark.Reminder

open Option ReminderService

/-- The service, the instant of the last tick, and those at which reminders fired. -/
structure Pace where
  service : ReminderService
  prev : Option WallNs := none
  fires : List ℚ := []

namespace Pace

def step (cfg : ReminderConfig) (w : Pace) (label : Label) : Option Pace :=
  (w.service.step cfg label).map fun s =>
    match label with
    | .tick now _ => { w with service := s, prev := some now }
    | .drain =>
      match s.phase with
      | .firing now _ _ _ _ => { w with service := s, fires := w.fires ++ [(now.toInt : ℚ)] }
      | _ => { w with service := s }
    | _ => { w with service := s }

def rate (cfg : ReminderConfig) : ℚ := cfg.fireRate.toNat / 10 ^ 9

/-- The tokens of one bucket and a fraction that was carried over. -/
def burst (cfg : ReminderConfig) : ℚ := rate cfg * cfg.bucketNs.toInt + 1

/-- The instants of the ticks do not go back. A tick that finds something to fire has no more tokens than those of one
bucket and a fraction, and no tick follows one before 1970 by less than a bucket. -/
def Within (cfg : ReminderConfig) (w : Pace) : Label → Prop
  | .tick now _ =>
    (∀ p ∈ w.prev, p.toInt ≤ now.toInt ∧ (0 ≤ p.toInt ∨ p.toInt + cfg.bucketNs.toInt ≤ now.toInt)) ∧
      (w.service.ready ++ w.service.due cfg now = [] ∨ w.service.accrue cfg now < burst cfg)
  | _ => True

/-- The tokens in each phase; the one of the reminder in the callback is taken after it. -/
def Spends (cfg : ReminderConfig) (w : Pace) : Phase → Prop
  | .idle => TokenBucket.Paced (rate cfg) (burst cfg) w.service.lastTickNs.toInt w.service.tokens w.fires
  | .draining now budget fired =>
    now = w.service.lastTickNs ∧ TokenBucket.Paced (rate cfg) (burst cfg) now.toInt w.service.tokens w.fires ∧
      (budget : ℚ) ≤ w.service.tokens + fired ∧ (w.service.ready = [] ∨ w.service.tokens < burst cfg)
  | .firing now budget fired _ _ =>
    now = w.service.lastTickNs ∧ fired < budget ∧
      TokenBucket.Paced (rate cfg) (burst cfg) now.toInt (w.service.tokens - 1) w.fires ∧
      (budget : ℚ) ≤ w.service.tokens + fired ∧ w.service.tokens < burst cfg

structure Even (cfg : ReminderConfig) (w : Pace) : Prop where
  spends : Spends cfg w w.service.phase
  ticked : ∀ p ∈ w.prev, p = w.service.lastTickNs
  unticked : w.prev = none → w.fires = [] ∧ w.service.lastTickNs < 0 ∧ w.service.phase = .idle

section

variable {cfg : ReminderConfig} {w w' : Pace} {s s' : ReminderService} {label : Label} {now : WallNs}
variable {row : ReminderRow} {item : ReadyItem} {stored : Bool}

theorem rate_nonneg (cfg : ReminderConfig) : 0 ≤ rate cfg := div_nonneg (Nat.cast_nonneg _) (by norm_num)

theorem burst_pos (hbucket : 0 < cfg.bucketNs) : 0 < burst cfg := by
  have hint : (0 : ℚ) ≤ cfg.bucketNs.toInt := by exact_mod_cast (Int64.lt_iff_toInt_lt.mp hbucket).le
  have hgranted := mul_nonneg (rate_nonneg cfg) hint
  unfold burst
  linarith

/-- What the calls of a handler and of the application leave alone. -/
structure SameMeter (s s' : ReminderService) : Prop where
  tokens : s'.tokens = s.tokens
  lastTickNs : s'.lastTickNs = s.lastTickNs
  phase : s'.phase = s.phase
  ready : s'.ready = s.ready ∨ s'.ready = []

theorem sameMeter_confirmed (h : s.confirmed cfg item row stored = some s') : SameMeter s s' := by
  rcases confirmed_cases h with ⟨-, rfl⟩ | ⟨-, ⟨-, rfl⟩ | ⟨-, next, -, -, rfl⟩ | ⟨-, -, rfl⟩⟩
  all_goals exact ⟨rfl, rfl, rfl, .inl rfl⟩

theorem Even.same (h : Even cfg w) (hs : SameMeter w.service s') : Even cfg { w with service := s' } := by
  refine ⟨?_, fun p hp => (h.ticked p hp).trans hs.lastTickNs.symm,
    fun hp => by rw [hs.lastTickNs, hs.phase]; exact h.unticked hp⟩
  have hspends := h.spends
  change Spends cfg { w with service := s' } s'.phase
  rw [hs.phase]
  revert hspends
  cases w.service.phase with
  | idle =>
    intro hidle
    simp only [Spends, hs.tokens, hs.lastTickNs] at hidle ⊢
    exact hidle
  | draining now budget fired =>
    rintro ⟨hnow, hpaced, hbudget, hroom⟩
    refine ⟨hnow.trans hs.lastTickNs.symm, by rw [hs.tokens]; exact hpaced, by rw [hs.tokens]; exact hbudget, ?_⟩
    rcases hs.ready with hready | hready
    · rw [hs.tokens, hready]
      exact hroom
    · exact .inl hready
  | firing now budget fired item row =>
    rintro ⟨hnow, hleft, hpaced, hbudget, hroom⟩
    simp only [Spends, hs.tokens, hs.lastTickNs]
    exact ⟨hnow, hleft, hpaced, hbudget, hroom⟩

theorem accrue_eq : s.accrue cfg now = min (s.tokens + rate cfg *
    (if s.lastTickNs < 0 then (cfg.bucketNs.toInt : ℚ) else now.toInt - s.lastTickNs.toInt)) cfg.credit.toNat := by
  unfold accrue rate
  dsimp only
  congr 2
  split
  · ring
  · push_cast
    ring

theorem budget_le {tokens : ℚ} {ready : Nat} (hrate : cfg.fireRate ≠ 0) (htokens : 0 ≤ tokens) :
    (budget cfg tokens ready : ℚ) ≤ tokens := by
  unfold budget
  rw [if_neg hrate]
  refine (Nat.cast_le.mpr (min_le_left _ _)).trans ?_
  split
  · have hfloor : (tokens.floor : ℚ) ≤ tokens := Rat.floor_le tokens
    have hnonneg : 0 ≤ tokens.floor := Rat.le_floor_iff.mpr (by exact_mod_cast htokens)
    have hcast : ((tokens.floor.toNat : Int) : ℚ) = tokens.floor := by rw [Int.toNat_of_nonneg hnonneg]
    rw [Int.cast_natCast] at hcast
    rw [hcast]
    exact hfloor
  · simpa using htokens

theorem Even.granted (h : Even cfg w) (hbucket : 0 < cfg.bucketNs) (hidle : w.service.phase = .idle)
    (hprev : ∀ p ∈ w.prev, p.toInt ≤ now.toInt ∧ (0 ≤ p.toInt ∨ p.toInt + cfg.bucketNs.toInt ≤ now.toInt)) :
    TokenBucket.Paced (rate cfg) (burst cfg) now.toInt (w.service.accrue cfg now) w.fires := by
  have hpaced : TokenBucket.Paced (rate cfg) (burst cfg) w.service.lastTickNs.toInt w.service.tokens w.fires := by
    have hspends := h.spends
    rwa [hidle] at hspends
  have hspan : (0 : ℚ) ≤ cfg.bucketNs.toInt := by exact_mod_cast (Int64.lt_iff_toInt_lt.mp hbucket).le
  rw [accrue_eq]
  cases hp : w.prev with
  | none =>
    obtain ⟨hnone, hlast, -⟩ := h.unticked hp
    rw [hnone, if_pos hlast]
    have hfirst := mul_nonneg (rate_nonneg cfg) hspan
    exact TokenBucket.Paced.start (rate_nonneg cfg) (burst_pos hbucket)
      (le_min (add_nonneg hpaced.nonneg hfirst) (Nat.cast_nonneg _))
  | some p =>
    obtain ⟨hback, hgap⟩ := hprev p hp
    have hlast := h.ticked p hp
    rw [← hlast] at hpaced ⊢
    have hbackq : (p.toInt : ℚ) ≤ now.toInt := by exact_mod_cast hback
    have hdt : 0 ≤ (if p < 0 then (cfg.bucketNs.toInt : ℚ) else now.toInt - p.toInt) ∧
        (if p < 0 then (cfg.bucketNs.toInt : ℚ) else now.toInt - p.toInt) ≤ now.toInt - p.toInt := by
      split
      · next hneg =>
        have hgapq : (p.toInt : ℚ) + cfg.bucketNs.toInt ≤ now.toInt := by
          refine (hgap.resolve_left fun hpos => ?_) |> fun hle => by exact_mod_cast hle
          exact absurd (Int64.lt_iff_toInt_lt.mp hneg) (Int.not_lt.mpr hpos)
        exact ⟨hspan, by linarith⟩
      · exact ⟨by linarith, le_refl _⟩
    have hgrant := mul_le_mul_of_nonneg_left hdt.2 (rate_nonneg cfg)
    refine hpaced.grant hbackq (le_min (add_nonneg hpaced.nonneg (mul_nonneg (rate_nonneg cfg) hdt.1))
      (Nat.cast_nonneg _)) ?_
    exact (min_le_left _ _).trans (by linarith)

theorem Even.ticking (h : Even cfg w) (hphase : w.service.phase ≠ .idle) : w.prev ≠ none := fun hp =>
  hphase (h.unticked hp).2.2

theorem Even.step (h : Even cfg w) (hrate : cfg.fireRate ≠ 0) (hbucket : 0 < cfg.bucketNs) (hok : Within cfg w label)
    (hstep : w.step cfg label = some w') : Even cfg w' := by
  obtain ⟨s', hs', rfl⟩ := map_eq_some_iff.mp hstep
  have hspends := h.spends
  cases does_of_step hs' with
  | @open_ rows hidle hrows =>
    obtain ⟨-, hready, htokens, hlast, hphase⟩ :=
      @ReminderService.insertAll_frame cfg { w.service with index := [], byKey := ∅, ready := [] } (rows.getD [])
    exact h.same ⟨htokens, hlast, hphase, .inr hready⟩
  | remindAt hcalls =>
    obtain ⟨hready, htokens, hlast, hphase⟩ := remindAt_frame
    exact h.same ⟨htokens, hlast, hphase, .inl hready⟩
  | cancel hcalls => exact h.same ⟨rfl, rfl, rfl, .inl rfl⟩
  | @tick now sorted ready hidle hperm hsorted =>
    obtain ⟨hprev, hroom⟩ := hok
    have hpaced := h.granted hbucket hidle hprev
    refine ⟨?_, fun p hp => (some.inj hp).symm, nofun⟩
    change Spends cfg _ (.draining _ _ _)
    simp only [if_neg hrate]
    refine ⟨rfl, hpaced, ?_, hroom.imp_left fun hnone => ?_⟩
    · rw [Nat.cast_zero, add_zero]
      exact budget_le hrate hpaced.nonneg
    · rw [hnone] at hperm
      exact hperm.eq_nil
  | finish hphase =>
    rw [hphase] at hspends
    obtain ⟨hnow, hpaced, -, -⟩ := hspends
    refine ⟨?_, h.ticked, fun hp => ⟨(h.unticked hp).1, (h.unticked hp).2.1, rfl⟩⟩
    change Spends cfg _ .idle
    rw [hnow] at hpaced
    exact hpaced
  | @skip now budget fired item ready hphase hready hstale =>
    rw [hphase] at hspends
    obtain ⟨hnow, hpaced, hbudgeted, hroom⟩ := hspends
    have hticked := h.ticking (by rw [hphase]; exact nofun)
    simp only [hphase]
    refine ⟨⟨hnow, hpaced, hbudgeted, .inr (hroom.resolve_left ?_)⟩, h.ticked, fun hp => absurd hp hticked⟩
    rw [hready]
    exact List.cons_ne_nil _ _
  | @fire now budget fired item ready l hphase hready hbudget hl hepoch =>
    rw [hphase] at hspends
    obtain ⟨hnow, hpaced, hbudgeted, hroom⟩ := hspends
    have hticked := h.ticking (by rw [hphase]; exact nofun)
    have hlt : w.service.tokens < burst cfg := by
      refine hroom.resolve_left ?_
      rw [hready]
      exact List.cons_ne_nil _ _
    have hone : 1 ≤ w.service.tokens := by
      have hleft : (fired : ℚ) + 1 ≤ budget := by exact_mod_cast hbudget
      linarith
    exact ⟨⟨hnow, hbudget, hpaced.spend (rate_nonneg cfg) hone hlt, hbudgeted, hlt⟩, h.ticked,
      fun hp => absurd hp hticked⟩
  | @confirm now budget fired item row stored mid hphase hmid =>
    rw [hphase] at hspends
    obtain ⟨hnow, hleft, hpaced, hbudgeted, hroom⟩ := hspends
    have hticked := h.ticking (by rw [hphase]; exact nofun)
    have hsame := sameMeter_confirmed hmid
    refine ⟨?_, fun p hp => (h.ticked p hp).trans hsame.lastTickNs.symm, fun hp => absurd hp hticked⟩
    change Spends cfg _ (.draining _ _ _)
    simp only [Spends, if_neg hrate, hsame.tokens, hsame.lastTickNs]
    refine ⟨hnow, hpaced, ?_, .inr (by linarith)⟩
    push_cast
    linarith

end

/-- In every run that keeps within what one bucket grants, a window of length `T` holds at most `fire_rate`
times `T` and one bucket, rounded up. -/
theorem fires_within_rate {cfg : ReminderConfig} {rows : Table ReminderKey ReminderRow} {w : Pace}
    (hrate : cfg.fireRate ≠ 0) (hbucket : 0 < cfg.bucketNs)
    (hreach : Machine.Reach (step cfg) (Within cfg) { service := { rows } } w) (a : ℚ) {T : ℚ} (hT : 0 ≤ T) :
    (TokenBucket.during a T w.fires : Int) ≤ ⌈(cfg.fireRate.toNat : ℚ) * (T + cfg.bucketNs.toInt) / 10 ^ 9⌉ := by
  have heven : Even cfg w := by
    refine hreach.invariant ⟨?_, nofun, fun _ => ⟨rfl, (by decide : (-1 : WallNs) < 0), rfl⟩⟩
      fun w label w' h hok hstep => h.step hrate hbucket hok hstep
    exact TokenBucket.Paced.start (rate_nonneg cfg) (burst_pos hbucket) (le_refl _)
  have hwindow : (TokenBucket.during a T w.fires : ℚ) < rate cfg * T + burst cfg := by
    have hspends := heven.spends
    revert hspends
    cases w.service.phase with
    | idle => exact fun hpaced => hpaced.windows a T hT
    | draining now budget fired => exact fun hpaced => hpaced.2.1.windows a T hT
    | firing now budget fired item row => exact fun hpaced => hpaced.2.2.1.windows a T hT
  have hsum : rate cfg * T + burst cfg = (cfg.fireRate.toNat : ℚ) * (T + cfg.bucketNs.toInt) / 10 ^ 9 + 1 := by
    unfold burst rate
    ring
  rw [hsum] at hwindow
  have hbelow : ((TokenBucket.during a T w.fires : Int) - 1 : ℚ) < (cfg.fireRate.toNat : ℚ) *
      (T + cfg.bucketNs.toInt) / 10 ^ 9 := by
    push_cast
    linarith
  have hceil := Int.lt_ceil.mpr (show (((TokenBucket.during a T w.fires : Int) - 1 : Int) : ℚ) < _ by
    push_cast at hbelow ⊢; exact hbelow)
  omega

instance (cfg : ReminderConfig) (w : Pace) (label : Label) : Decidable (Within cfg w label) :=
  match label with
  | .tick _ _ => @instDecidableAnd _ _ (Option.decidableForallMem w.prev) (inferInstanceAs (Decidable (_ ∨ _)))
  | .open_ _ | .remindAt _ _ | .cancel _ _ _ | .drain | .confirm _ => inferInstanceAs (Decidable True)

/-- Two reminders fire a second apart: two in a window of one second. -/
theorem fires_within_rate_paced : ∃ w, Machine.run
    (Machine.guarded (step { fireRate := 1 }) (Within { fireRate := 1 }))
      { service := {} } [.remindAt (reminder 1 1000000000) true, .remindAt (reminder 3 2000000000) true,
        .tick 1000000000 [readyItem 1 1], .drain, .confirm true, .drain, .tick 2000000000 [readyItem 3 2],
        .drain] = some w ∧
    w.fires = [1000000000, 2000000000] ∧ (TokenBucket.during 1000000000 1000000000 w.fires : Int) ≤ 2 := by
  obtain ⟨w, hw, hfires⟩ := map_eq_some_iff.mp (show (Machine.run (Machine.guarded (step { fireRate := 1 })
    (Within { fireRate := 1 })) { service := {} } [.remindAt (reminder 1 1000000000) true,
      .remindAt (reminder 3 2000000000) true, .tick 1000000000 [readyItem 1 1], .drain, .confirm true, .drain,
      .tick 2000000000 [readyItem 3 2], .drain]).map Pace.fires = some [1000000000, 2000000000] by decide +kernel)
  have hceil : ⌈(((1 : UInt32).toNat : Nat) : ℚ) * (1000000000 + ((1000000000 : Int64).toInt : Int)) /
      10 ^ 9⌉ = 2 := by
    decide +kernel
  refine ⟨w, hw, hfires, ?_⟩
  rw [← hceil]
  exact fires_within_rate (by decide) (by decide) (Machine.reach_of_run hw) 1000000000 (by decide +kernel)

/-- Two ticks found nothing to fire: three tokens are there when two reminders fall due, and both fire at one
instant. -/
theorem idle_tokens_burst : ∃ w, Machine.run (step { fireRate := 1 }) { service := {} }
      [.tick 1000000000 [], .drain, .tick 2000000000 [], .drain, .remindAt (reminder 1 3000000000) true,
        .remindAt (reminder 3 3000000000) true, .tick 3000000000 [readyItem 1 1, readyItem 3 2],
        .drain, .confirm true, .drain] = some w ∧
    TokenBucket.during 3000000000 0 w.fires = 2 ∧
    ⌈(((1 : UInt32).toNat : Nat) : ℚ) * (0 + ((1000000000 : Int64).toInt : Int)) / 10 ^ 9⌉ = 1 := by
  obtain ⟨w, hw, hfires⟩ := map_eq_some_iff.mp (show (Machine.run (step { fireRate := 1 }) { service := {} }
    [.tick 1000000000 [], .drain, .tick 2000000000 [], .drain, .remindAt (reminder 1 3000000000) true,
      .remindAt (reminder 3 3000000000) true, .tick 3000000000 [readyItem 1 1, readyItem 3 2], .drain, .confirm true,
      .drain]).map Pace.fires = some [3000000000, 3000000000] by decide +kernel)
  refine ⟨w, hw, ?_, by decide +kernel⟩
  rw [hfires]
  decide +kernel

end Pace

end Quark.Reminder
