import Mathlib.Tactic.Ring
import Quark.TimerServiceOnce

/-! A `TimerService` that is driven by real time: `poll` brings the wheel up to the clock, and between two polls
the wheel stands still while timers are asked for. -/
namespace Quark.TimerService

open TimingWheel List Option Machine State

def State.firing (s : State) : Option Nat :=
  match s.phase with
  | .firing _ (d :: _) => if d.live then some (s.entries d.item.val).payload else none
  | _ => none

section

variable {B : Type} {g : Timer → B} {s s' : State} {e : Nat}

/-- What no step of an advance changes of a timer, but for a fire. -/
structure Steady (g : Timer → B) : Prop where
  pop : ∀ t, g t.pop = g t
  destroy : ∀ t, g t.destroy = g t
  finish : ∀ t, g t.finish = g t

theorem map_onPayload {f : Timer → Timer} (hf : ∀ t, g (f t) = g t) :
    (s.onPayload e f).timers.map g = s.timers.map g := by
  apply List.ext_getElem?
  intro k
  rw [onPayload, List.getElem?_map, List.getElem?_map, List.getElem?_modify, Option.map_eq_map, Option.map_map]
  congr 1
  funext t
  rw [Function.comp_apply]
  split
  · exact hf t
  · rfl

namespace Steady

theorem release (hg : Steady g) : (s.release e).timers.map g = s.timers.map g := map_onPayload hg.finish

theorem popAll (hg : Steady g) (due : List (TimingItem Nat)) :
    (due.foldl (fun s it => s.onPayload it.val Timer.pop) s).timers.map g = s.timers.map g := by
  induction due generalizing s with
  | nil => rfl
  | cons it due ih => rw [foldl_cons, ih, map_onPayload hg.pop]

theorem popDue (hg : Steady g) : s.popDue.timers.map g = s.timers.map g := hg.popAll _

theorem settleOne (hg : Steady g) (acc : State × List Nat) (d : Due) :
    (State.settleOne acc d).1.timers.map g = acc.1.timers.map g ∧
    (State.settleOne acc d).1.wheel.now = acc.1.wheel.now := by
  rw [State.settleOne]
  dsimp only
  split
  · exact ⟨hg.release, rfl⟩
  · split
    · exact ⟨rfl, rfl⟩
    · exact ⟨rfl, now_insert⟩

theorem settleAll (hg : Steady g) (batch : List Due) (acc : State × List Nat) :
    (batch.foldl State.settleOne acc).1.timers.map g = acc.1.timers.map g ∧
      (batch.foldl State.settleOne acc).1.wheel.now = acc.1.wheel.now := by
  induction batch generalizing acc with
  | nil => exact ⟨rfl, rfl⟩
  | cons d batch ih =>
    obtain ⟨htimers, hnow⟩ := ih (State.settleOne acc d)
    obtain ⟨hone, hstill⟩ := hg.settleOne acc d
    exact ⟨htimers.trans hone, hnow.trans hstill⟩

theorem releaseAll (hg : Steady g) (late : List Nat) :
    (late.foldl State.release s).timers.map g = s.timers.map g ∧
    (late.foldl State.release s).wheel.now = s.wheel.now := by
  induction late generalizing s with
  | nil => exact ⟨rfl, rfl⟩
  | cons e late ih =>
    obtain ⟨htimers, hnow⟩ := ih (s := s.release e)
    exact ⟨htimers.trans hg.release, hnow⟩

theorem go (hg : Steady g) (hfire : s.firing = none ∨ ∀ t now, g (Timer.fire t now) = g t) (hstep : s.go = some s') :
    s'.timers.map g = s.timers.map g ∧ s'.wheel.now = s.wheel.now := by
  cases hphase : s.phase with
  | idle =>
    simp only [State.go, hphase] at hstep
    cases hstep
  | firing done todo =>
    cases todo with
    | nil =>
      simp only [State.go, hphase, some.injEq] at hstep
      subst hstep
      exact hg.settleAll done (s, [])
    | cons d todo =>
      simp only [State.go, hphase] at hstep
      simp only [State.firing, hphase] at hfire
      split at hstep
      · rename_i hlive
        cases hstep
        rw [if_pos hlive] at hfire
        exact ⟨map_onPayload fun t => hfire.resolve_left (some_ne_none _) t _, rfl⟩
      · cases hstep
        exact ⟨map_onPayload hg.destroy, rfl⟩
  | destroying done d todo =>
    simp only [State.go, hphase, some.injEq] at hstep
    subst hstep
    exact ⟨map_onPayload hg.destroy, rfl⟩
  | lateDestroying done todo =>
    cases todo with
    | nil =>
      simp only [State.go, hphase, some.injEq] at hstep
      subst hstep
      exact hg.releaseAll done
    | cons e todo =>
      simp only [State.go, hphase, some.injEq] at hstep
      subst hstep
      exact ⟨map_onPayload hg.destroy, rfl⟩

end Steady

theorem arm_spec {cfg : Config} {delay period : Int} (hstep : s.arm cfg delay period = some s') : ∃ t : Timer,
    s'.timers = s.timers ++ [t] ∧ t.first = s.wheel.now + cfg.ticksCeil delay ∧
    (t.period = if 0 < period then cfg.ticksCeil period else 0) ∧ t.cancelled = none ∧ t.fired = [] ∧
    s'.wheel.now = s.wheel.now ∧ s'.phase = s.phase := by
  have hgrown : ∀ s₀ : State, s₀ = (if s.free = [] then s.grow cfg else s) →
      s₀.timers = s.timers ∧ s₀.wheel = s.wheel ∧ s₀.phase = s.phase := by
    rintro s₀ rfl
    split <;> exact ⟨rfl, rfl, rfl⟩
  simp only [arm] at hstep
  obtain ⟨htimers, hwheel, hphase⟩ := hgrown _ rfl
  split at hstep
  · cases hstep
  · cases hstep
    refine ⟨_, congrArg (· ++ [_]) htimers, ?_, rfl, rfl, rfl, ?_, hphase⟩
    · exact congrArg (·.now + _) hwheel
    · exact now_insert.trans (congrArg (·.now) hwheel)

theorem cancelEntry_spec {gen : Nat} (hg : ∀ t, g t.cancel = g t) :
    (s.cancelEntry e gen).timers.map g = s.timers.map g ∧
    (s.cancelEntry e gen).wheel = s.wheel ∧ (s.cancelEntry e gen).phase = s.phase := by
  rw [cancelEntry]
  split
  · exact ⟨map_onPayload hg, rfl, rfl⟩
  · exact ⟨rfl, rfl, rfl⟩

end

/-- What was asked of a timer, with the clock and the wheel's time then. -/
structure Ask where
  clock : Nat
  now : Nat
  delay : Int
  period : Int
  deriving DecidableEq, Repr

/-- `clock` is the time since `start_tp_`; `polling` is the target of the poll that runs; `fires` are the
timers that fired, with the clock. -/
structure Driven where
  svc : State := {}
  clock : Nat := 0
  polling : Option Nat := none
  asked : List Ask := []
  fires : List (Nat × Nat) := []

namespace Driven

/-- `pass` lets time go by; `go` is the next step of the poll. -/
inductive Label
  | pass (ns : Nat)
  | scheduleAfter (delay : Int)
  | scheduleEvery (period : Int)
  | cancel (k : Nat)
  | poll
  | go
  deriving DecidableEq, Repr

variable (cfg : Config) (d : Driven)

def ask (delay period : Int) : Ask := { clock := d.clock, now := d.svc.wheel.now, delay, period }

def schedule (delay period : Int) (svc : State) : Driven := { d with svc, asked := d.asked ++ [d.ask delay period] }

def advance (svc : State) : Driven := { d with svc, fires := d.fires ++ d.svc.firing.toList.map (·, d.clock) }

def step (d : Driven) : Label → Option Driven
  | .pass ns => some { d with clock := d.clock + ns }
  | .scheduleAfter delay => (d.svc.step cfg (.scheduleAfter delay)).map (d.schedule delay 0)
  | .scheduleEvery period => (d.svc.step cfg (.scheduleEvery period)).map (d.schedule period period)
  | .cancel k => (d.svc.step cfg (.cancel k)).map fun svc => { d with svc }
  -- `adv_mu_` lets one poll run at a time
  | .poll => if d.polling = none then some { d with polling := some (d.clock / cfg.tickNs) } else none
  | .go =>
    match d.polling with
    | none => none
    | some target =>
      if d.svc.phase ≠ .idle then (d.svc.step cfg .go).map d.advance
      else if d.svc.wheel.now < target then (d.svc.step cfg .tick).map d.advance
      else some { d with polling := none }

def OnTime : Prop :=
  ∀ fire ∈ d.fires, ∀ ask : Ask, d.asked[fire.1]? = some ask → (ask.clock : Int) + ask.delay ≤ fire.2

/-- In wheel time, the fires of a periodic timer are a period or more apart. -/
def Spaced : Prop :=
  ∀ (k : Nat) (t : Timer) (ask : Ask), d.svc.timers[k]? = some t → d.asked[k]? = some ask → 0 < ask.period →
    ∀ n x y : Nat, t.fired[n]? = some x → t.fired[n + 1]? = some y →
    (x * cfg.tickNs : Int) + ask.period ≤ y * cfg.tickNs

/-- The wheel was no further behind the clock than a tick and what rounding the delay up adds. -/
def Near (ask : Ask) : Prop :=
  0 < ask.delay → (ask.clock : Int) + ask.delay ≤ (ask.now + cfg.ticksCeil ask.delay + 1) * cfg.tickNs

/-- A timer is asked for only while the wheel is near the clock. -/
def CaughtUp (d : Driven) : Label → Prop
  | .scheduleAfter delay => Near cfg (d.ask delay 0)
  | .scheduleEvery period => Near cfg (d.ask period period)
  | _ => True

section

variable {cfg : Config} {d d' : Driven} {a : Label}

theorem tickNs_pos (cfg : Config) : 0 < cfg.tickNs := by
  unfold Config.tickNs
  split <;> omega

theorem le_ticksCeil (cfg : Config) (delay : Int) : delay ≤ cfg.ticksCeil delay * cfg.tickNs := by
  have hpos := tickNs_pos cfg
  have hround : (if delay ≤ 0 then 0 else delay.toNat) ≤ cfg.ticksCeil delay * cfg.tickNs := by
    simp only [Config.ticksCeil]
    generalize (if delay ≤ 0 then 0 else delay.toNat) = ns
    have hdiv := Nat.div_add_mod (ns + cfg.tickNs - 1) cfg.tickNs
    have hmod := Nat.mod_lt (ns + cfg.tickNs - 1) hpos
    rw [mul_comm] at hdiv
    split
    · rename_i hzero
      rw [hzero] at hdiv
      omega
    · omega
  split at hround <;> omega

def plan (t : Timer) : Nat × Nat := (t.first, t.period)

theorem steady_plan : Steady plan := ⟨fun _ => rfl, fun _ => rfl, fun _ => rfl⟩

def Planned (cfg : Config) (ask : Ask) (p : Nat × Nat) : Prop :=
  p.1 = ask.now + cfg.ticksCeil ask.delay ∧ p.2 = if 0 < ask.period then cfg.ticksCeil ask.period else 0

structure Sound (cfg : Config) (d : Driven) : Prop where
  svc : Reachable (State.step cfg) {} d.svc
  behind : d.svc.wheel.now * cfg.tickNs ≤ d.clock
  target : ∀ target ∈ d.polling, target * cfg.tickNs ≤ d.clock
  idle : d.polling = none → d.svc.phase = .idle
  planned : List.Forall₂ (Planned cfg) d.asked (d.svc.timers.map plan)
  asked : ∀ ask ∈ d.asked, ask.clock ≤ d.clock
  fires : ∀ fire ∈ d.fires, ∃ p ask, (d.svc.timers.map plan)[fire.1]? = some p ∧ d.asked[fire.1]? = some ask ∧
    (p.1 + 1) * cfg.tickNs ≤ fire.2 ∧ ask.clock ≤ fire.2 ∧ fire.2 ≤ d.clock

/-- The timer that fires next was due when the wheel was one tick back. -/
theorem firing_due {s : State} {k : Nat} (h : TimerService.Sound s) (hfire : s.firing = some k) :
    ∃ t, s.timers[k]? = some t ∧ t.first + 1 ≤ s.wheel.now := by
  unfold firing at hfire
  split at hfire
  · rename_i done e todo hphase
    split at hfire
    · rename_i hlive
      obtain rfl := some.inj hfire
      have hin : (e.item.val, Spot.due e.item.expiry true) ∈ s.spots := by
        rw [spots, flight, hphase, ← hlive]
        apply Multiset.mem_add.mpr (.inr (Multiset.mem_coe.mpr _))
        exact mem_append_right _ (.head _)
      rcases h.ledger.fits _ hin with ⟨hfree, -⟩ | ⟨t, hbound⟩
      · cases hfree
      · obtain ⟨-, hexpiry, hnow, -⟩ := hbound.at_
        refine ⟨t, hbound.timer, ?_⟩
        rw [← hnow, hexpiry]
        exact Nat.succ_le_succ (Nat.le_add_right _ _)
    · cases hfire
  · cases hfire

namespace Sound

theorem start : Sound cfg {} :=
  ⟨.start, by simp, by simp, fun _ => rfl, .nil, by simp, by simp⟩

theorem pass (h : Sound cfg d) (ns : Nat) : Sound cfg { d with clock := d.clock + ns } where
  svc := h.svc
  behind := h.behind.trans (Nat.le_add_right _ _)
  target target ht := (h.target target ht).trans (Nat.le_add_right _ _)
  idle := h.idle
  planned := h.planned
  asked ask hin := (h.asked ask hin).trans (Nat.le_add_right _ _)
  fires fire hin := by
    obtain ⟨p, ask, hp, hask, hdue, hafter, hpast⟩ := h.fires fire hin
    exact ⟨p, ask, hp, hask, hdue, hafter, hpast.trans (Nat.le_add_right _ _)⟩

theorem schedule {delay period : Int} {svc : State} {label : TimerService.Label} (h : Sound cfg d)
    (harm : State.step cfg d.svc label = d.svc.arm cfg delay period) (hstep : State.step cfg d.svc label = some svc) :
    Sound cfg (d.schedule delay period svc) := by
  obtain ⟨t, htimers, hfirst, hperiod, -, -, hnow, hphase⟩ := arm_spec (harm.symm.trans hstep)
  have hplans : svc.timers.map plan = d.svc.timers.map plan ++ [plan t] := by
    rw [htimers, map_append, map_singleton]
  refine ⟨.step h.svc trivial hstep, ?_, h.target, ?_, ?_, ?_, ?_⟩
  · exact (congrArg (· * cfg.tickNs) hnow).trans_le h.behind
  · exact fun hnone => hphase.trans (h.idle hnone)
  · change List.Forall₂ _ (d.asked ++ [_]) (svc.timers.map plan)
    rw [hplans]
    exact rel_append h.planned (.cons ⟨hfirst, hperiod⟩ .nil)
  · intro ask hin
    rcases mem_append.mp hin with hin | hin
    · exact h.asked ask hin
    · obtain rfl := mem_singleton.mp hin
      exact le_rfl
  · intro fire hin
    obtain ⟨p, ask, hp, hask, hrest⟩ := h.fires fire hin
    refine ⟨p, ask, ?_, ?_, hrest⟩
    · change (svc.timers.map plan)[fire.1]? = some p
      rw [hplans, List.getElem?_append_left (List.getElem?_eq_some_iff.mp hp).1, hp]
    · change (d.asked ++ [_])[fire.1]? = some ask
      rw [List.getElem?_append_left (List.getElem?_eq_some_iff.mp hask).1, hask]

theorem keeps {svc : State} {polling : Option Nat} (h : Sound cfg d) (hsvc : Reachable (State.step cfg) {} svc)
    (hplans : svc.timers.map plan = d.svc.timers.map plan) (hbehind : svc.wheel.now * cfg.tickNs ≤ d.clock)
    (htarget : ∀ target ∈ polling, target * cfg.tickNs ≤ d.clock) (hidle : polling = none → svc.phase = .idle) :
    Sound cfg { d with svc, polling } where
  svc := hsvc
  behind := hbehind
  target := htarget
  idle := hidle
  planned := hplans ▸ h.planned
  asked := h.asked
  fires := hplans ▸ h.fires

theorem advance {svc : State} {label : TimerService.Label} (h : Sound cfg d) (hpolling : d.polling ≠ none)
    (hstep : State.step cfg d.svc label = some svc) (hplans : svc.timers.map plan = d.svc.timers.map plan)
    (hbehind : svc.wheel.now * cfg.tickNs ≤ d.clock) : Sound cfg (d.advance svc) := by
  have hnext := h.keeps (h.svc.step trivial hstep) hplans hbehind h.target (fun hnone => absurd hnone hpolling)
  refine ⟨hnext.svc, hnext.behind, hnext.target, hnext.idle, hnext.planned, hnext.asked, fun fire hin => ?_⟩
  rcases mem_append.mp hin with hin | hin
  · exact hnext.fires fire hin
  · obtain ⟨k, hk, rfl⟩ := mem_map.mp hin
    obtain ⟨t, ht, hdue⟩ := firing_due (TimerService.Sound.of_reachable h.svc) (mem_toList.mp hk)
    have hp : (d.svc.timers.map plan)[k]? = some (plan t) := by rw [getElem?_map, ht, map_some]
    have hlt : k < d.asked.length := by
      rw [h.planned.length_eq]
      exact (List.getElem?_eq_some_iff.mp hp).1
    refine ⟨plan t, d.asked[k], ?_, List.getElem?_eq_getElem hlt, ?_, ?_, le_rfl⟩
    · change (svc.timers.map plan)[k]? = _
      rw [hplans, hp]
    · exact (Nat.mul_le_mul_right _ hdue).trans h.behind
    · exact h.asked _ (getElem_mem hlt)

theorem now_tick {s s' : State} (h : TimerService.Sound s) (hstep : State.step cfg s .tick = some s') :
    s.phase = .idle ∧ s' = s.popDue ∧ s'.wheel.now = s.wheel.now + 1 := by
  simp only [State.step, ite_none_right_eq_some, some.injEq] at hstep
  obtain ⟨hidle, rfl⟩ := hstep
  exact ⟨hidle, rfl, (tick_placed h.placed (by decide) (by decide)).2.2.1⟩

theorem step (h : Sound cfg d) (hstep : Driven.step cfg d a = some d') : Sound cfg d' := by
  cases a with
  | pass ns =>
    cases hstep
    exact h.pass ns
  | scheduleAfter delay | scheduleEvery period =>
    obtain ⟨svc, hsvc, rfl⟩ := map_eq_some_iff.mp hstep
    exact h.schedule rfl hsvc
  | cancel k =>
    obtain ⟨svc, hsvc, rfl⟩ := map_eq_some_iff.mp hstep
    obtain ⟨t, -, rfl⟩ := map_eq_some_iff.mp hsvc
    obtain ⟨hplans, hwheel, hphase⟩ := @cancelEntry_spec _ plan d.svc t.entry t.gen fun _ => rfl
    refine h.keeps (h.svc.step trivial hsvc) hplans ?_ h.target fun hnone => hphase.trans (h.idle hnone)
    rw [hwheel]
    exact h.behind
  | poll =>
    simp only [Driven.step, ite_none_right_eq_some, some.injEq] at hstep
    obtain ⟨hnone, rfl⟩ := hstep
    refine h.keeps h.svc rfl h.behind ?_ nofun
    rintro target ⟨⟩
    exact Nat.div_mul_le_self _ _
  | go =>
    simp only [Driven.step] at hstep
    split at hstep
    · cases hstep
    rename_i target hpolling
    have hbusy : d.polling ≠ none := by rw [hpolling]; exact some_ne_none _
    split at hstep
    · obtain ⟨svc, hsvc, rfl⟩ := map_eq_some_iff.mp hstep
      obtain ⟨hplans, hnow⟩ := steady_plan.go (.inr fun _ _ => rfl) hsvc
      exact h.advance hbusy hsvc hplans (hnow ▸ h.behind)
    rename_i hidle
    split at hstep
    · rename_i hlt
      obtain ⟨svc, hsvc, rfl⟩ := map_eq_some_iff.mp hstep
      obtain ⟨-, rfl, hnow⟩ := now_tick (TimerService.Sound.of_reachable h.svc) hsvc
      refine h.advance hbusy hsvc steady_plan.popDue ?_
      rw [hnow]
      exact (Nat.mul_le_mul_right _ hlt).trans (h.target target hpolling)
    · cases hstep
      exact h.keeps h.svc rfl h.behind (by simp) fun _ => not_not.mp hidle

theorem of_reachable (hreach : Reachable (Driven.step cfg) {} d) : Sound cfg d :=
  hreach.invariant start fun _ _ _ h hstep => h.step hstep

theorem planned_at {k : Nat} {ask : Ask} {p : Nat × Nat} (h : Sound cfg d) (hask : d.asked[k]? = some ask)
    (hp : (d.svc.timers.map plan)[k]? = some p) : Planned cfg ask p := by
  obtain ⟨hlt, rfl⟩ := List.getElem?_eq_some_iff.mp hask
  obtain ⟨hlt', rfl⟩ := List.getElem?_eq_some_iff.mp hp
  exact h.planned.get hlt hlt'

/-- The periods of a timer are whole, so they are no shorter than what was asked for. -/
theorem spaced (h : Sound cfg d) : d.Spaced cfg := by
  intro k t ask ht hask hpos n x y hx hy
  have hplan : (d.svc.timers.map plan)[k]? = some (plan t) := by rw [getElem?_map, ht, map_some]
  obtain ⟨-, hperiod⟩ := h.planned_at hask hplan
  have hfired := ((TimerService.Sound.of_reachable h.svc).ledger.sound t (mem_of_getElem? ht)).fired
  have hnth : ∀ {m z : Nat}, t.fired[m]? = some z → z = t.first + m * t.period + 1 := by
    intro m z hz
    rw [hfired, getElem?_map] at hz
    obtain ⟨i, hi, rfl⟩ := Option.map_eq_some_iff.mp hz
    obtain ⟨hlt, rfl⟩ := List.getElem?_eq_some_iff.mp hi
    rw [List.getElem_range]
  have hceil := le_ticksCeil cfg ask.period
  have hperiod : t.period = cfg.ticksCeil ask.period := hperiod.trans (if_pos hpos)
  rw [← hperiod] at hceil
  have hstep : y = x + t.period := by
    rw [hnth hx, hnth hy, Nat.succ_mul]
    omega
  rw [hstep]
  push_cast
  rw [Int.add_mul]
  omega

/-- A timer that was asked for with the wheel near the clock is not early, whatever became of the others. -/
theorem late_of_near {fire : Nat × Nat} {ask : Ask} (h : Sound cfg d) (hin : fire ∈ d.fires)
    (hask : d.asked[fire.1]? = some ask) (hnear : Near cfg ask) : (ask.clock : Int) + ask.delay ≤ fire.2 := by
  obtain ⟨p, ask', hp, hask', hdue, hafter, -⟩ := h.fires fire hin
  obtain rfl := some.inj (hask'.symm.trans hask)
  obtain ⟨hfirst, -⟩ := h.planned_at hask hp
  rcases Int.lt_or_le 0 ask'.delay with hpos | hneg
  · rw [hfirst] at hdue
    exact (hnear hpos).trans (by exact_mod_cast hdue)
  · omega

end Sound

theorem asked_step (hstep : step cfg d a = some d') : d'.asked = d.asked ∨
    ∃ delay period, d'.asked = d.asked ++ [d.ask delay period] ∧
    (CaughtUp cfg d a → Near cfg (d.ask delay period)) := by
  cases a with
  | pass ns =>
    cases hstep
    exact .inl rfl
  | scheduleAfter delay =>
    obtain ⟨svc, -, rfl⟩ := map_eq_some_iff.mp hstep
    exact .inr ⟨delay, 0, rfl, id⟩
  | scheduleEvery period =>
    obtain ⟨svc, -, rfl⟩ := map_eq_some_iff.mp hstep
    exact .inr ⟨period, period, rfl, id⟩
  | cancel k =>
    obtain ⟨svc, -, rfl⟩ := map_eq_some_iff.mp hstep
    exact .inl rfl
  | poll =>
    simp only [step, ite_none_right_eq_some, some.injEq] at hstep
    exact .inl (hstep.2 ▸ rfl)
  | go =>
    simp only [step] at hstep
    split at hstep
    · cases hstep
    split at hstep
    · obtain ⟨svc, -, rfl⟩ := map_eq_some_iff.mp hstep
      exact .inl rfl
    split at hstep
    · obtain ⟨svc, -, rfl⟩ := map_eq_some_iff.mp hstep
      exact .inl rfl
    · cases hstep
      exact .inl rfl

theorem near_of_reach (h : Reach (step cfg) (CaughtUp cfg) {} d) : ∀ ask ∈ d.asked, Near cfg ask := by
  apply Reach.invariant (I := fun d => ∀ ask ∈ d.asked, Near cfg ask) h (by simp)
  intro s a s' hs hok hstep
  rcases asked_step hstep with hsame | ⟨delay, period, hnew, hnear⟩
  · rwa [hsame]
  · rw [hnew]
    exact forall_mem_append.mpr ⟨hs, forall_mem_singleton.mpr (hnear hok)⟩

theorem onTime_of_reach (h : Reach (step cfg) (CaughtUp cfg) {} d) : d.OnTime := by
  intro fire hin ask hask
  exact (Sound.of_reachable h.reachable).late_of_near hin hask (near_of_reach h ask (mem_of_getElem? hask))

def Recorded (d : Driven) : Prop := ∀ k t, d.svc.timers[k]? = some t → t.fired ≠ [] → ∃ c, (k, c) ∈ d.fires

theorem firing_go {s s' : State} {k : Nat} (hfire : s.firing = some k) (hgo : s.go = some s') :
    ∃ f, s'.timers = s.timers.modify k f := by
  unfold firing at hfire
  split at hfire
  · rename_i done e todo hphase
    split at hfire
    · rename_i hlive
      obtain rfl := some.inj hfire
      simp only [go, hphase, hlive, if_true, some.injEq] at hgo
      subst hgo
      exact ⟨_, rfl⟩
    · cases hfire
  · cases hfire

namespace Recorded

theorem same (h : Recorded d) (hfired : d'.svc.timers.map Timer.fired = d.svc.timers.map Timer.fired)
    (hfires : d.fires ⊆ d'.fires) : Recorded d' := by
  intro k t' ht' hne
  have hat := congrArg (·[k]?) hfired
  simp only [getElem?_map, ht', map_some] at hat
  obtain ⟨t, ht, heq⟩ := map_eq_some_iff.mp hat.symm
  obtain ⟨c, hc⟩ := h k t ht (heq ▸ hne)
  exact ⟨c, hfires hc⟩

theorem schedule {delay period : Int} {svc : State} {label : TimerService.Label} (h : Recorded d)
    (harm : State.step cfg d.svc label = d.svc.arm cfg delay period) (hstep : State.step cfg d.svc label = some svc) :
    Recorded (d.schedule delay period svc) := by
  obtain ⟨t, htimers, -, -, -, hnew, -, -⟩ := arm_spec (harm.symm.trans hstep)
  intro k t' ht' hne
  change svc.timers[k]? = some t' at ht'
  rw [htimers] at ht'
  rcases lt_or_ge k d.svc.timers.length with hlt | hge
  · rw [getElem?_append_left hlt] at ht'
    exact h k t' ht' hne
  · rw [getElem?_append_right hge] at ht'
    obtain rfl := mem_singleton.mp (mem_of_getElem? ht')
    exact absurd hnew hne

theorem steady_fired : Steady Timer.fired := ⟨fun _ => rfl, fun _ => rfl, fun _ => rfl⟩

theorem advance {svc : State} (h : Recorded d) (hgo : d.svc.go = some svc) : Recorded (d.advance svc) := by
  cases hfire : d.svc.firing with
  | none => exact h.same (steady_fired.go (.inl hfire) hgo).1 (subset_append_left _ _)
  | some k =>
    obtain ⟨f, hmodify⟩ := firing_go hfire hgo
    have hnew : (k, d.clock) ∈ (d.advance svc).fires := by
      apply mem_append_right
      rw [hfire]
      exact .head _
    intro j t' ht' hne
    by_cases hj : k = j
    · subst hj
      exact ⟨_, hnew⟩
    · change svc.timers[j]? = some t' at ht'
      rw [hmodify, getElem?_modify_ne f d.svc.timers hj] at ht'
      obtain ⟨c, hc⟩ := h j t' ht' hne
      exact ⟨c, mem_append_left _ hc⟩

theorem step (h : Recorded d) (hstep : Driven.step cfg d a = some d') : Recorded d' := by
  cases a with
  | pass ns =>
    cases hstep
    exact h
  | scheduleAfter delay | scheduleEvery period =>
    obtain ⟨svc, hsvc, rfl⟩ := map_eq_some_iff.mp hstep
    exact h.schedule rfl hsvc
  | cancel k =>
    obtain ⟨svc, hsvc, rfl⟩ := map_eq_some_iff.mp hstep
    obtain ⟨t, -, rfl⟩ := map_eq_some_iff.mp hsvc
    exact h.same (cancelEntry_spec fun _ => rfl).1 (List.Subset.refl _)
  | poll =>
    simp only [Driven.step, ite_none_right_eq_some, some.injEq] at hstep
    exact hstep.2 ▸ h
  | go =>
    simp only [Driven.step] at hstep
    split at hstep
    · cases hstep
    split at hstep
    · obtain ⟨svc, hsvc, rfl⟩ := map_eq_some_iff.mp hstep
      exact h.advance hsvc
    split at hstep
    · obtain ⟨svc, hsvc, rfl⟩ := map_eq_some_iff.mp hstep
      simp only [State.step, ite_none_right_eq_some, some.injEq] at hsvc
      exact h.same (hsvc.2 ▸ steady_fired.popDue) (subset_append_left _ _)
    · cases hstep
      exact h

theorem of_reachable (hreach : Reachable (Driven.step cfg) {} d) : Recorded d :=
  hreach.invariant nofun fun _ _ _ h hstep => h.step hstep

end Recorded

/-- What a poll does not change of a timer, whatever it fires. -/
def mark (t : Timer) : Nat × Option Cancel := (t.first, t.cancelled)

theorem steady_mark : Steady mark := ⟨fun _ => rfl, fun _ => rfl, fun _ => rfl⟩

/-- A poll has gone on, with the clock as it was. -/
structure Follows (d d' : Driven) : Prop where
  clock : d'.clock = d.clock
  asked : d'.asked = d.asked
  marks : d'.svc.timers.map mark = d.svc.timers.map mark
  now : d.svc.wheel.now ≤ d'.svc.wheel.now

namespace Follows

theorem refl (d : Driven) : Follows d d := ⟨rfl, rfl, rfl, Nat.le_refl _⟩

theorem trans {d'' : Driven} (h : Follows d d') (h' : Follows d' d'') : Follows d d'' :=
  ⟨h'.clock.trans h.clock, h'.asked.trans h.asked, h'.marks.trans h.marks, h.now.trans h'.now⟩

end Follows

theorem advance_ends (cfg : Config) {target : Nat} (d : Driven) (hpolling : d.polling = some target) :
    ∃ n d', Machine.run (step cfg) d (List.replicate n .go) = some d' ∧ d'.polling = some target ∧
      d'.svc.phase = .idle ∧ Follows d d' := by
  induction hleft : d.svc.phase.left using Nat.strong_induction_on generalizing d with
  | _ left ih =>
    by_cases hidle : d.svc.phase = .idle
    · exact ⟨0, d, rfl, hpolling, hidle, .refl d⟩
    · obtain ⟨svc, hgo, hlt⟩ := go_left hidle
      obtain ⟨hmarks, hnow⟩ := steady_mark.go (.inr fun _ _ => rfl) hgo
      have hfirst : Follows d (d.advance svc) := ⟨rfl, rfl, hmarks, hnow.ge⟩
      have hstep : step cfg d .go = some (d.advance svc) := by
        simp only [step, hpolling]
        rw [if_pos hidle]
        exact map_eq_some_iff.mpr ⟨svc, hgo, rfl⟩
      obtain ⟨n, d', hrun, hstill, hdone, hrest⟩ := ih _ (hleft ▸ hlt) (d.advance svc) hpolling rfl
      exact ⟨n + 1, d', run_cons.mpr ⟨_, hstep, hrun⟩, hstill, hdone, hfirst.trans hrest⟩

theorem poll_ends {target : Nat} (d : Driven) (hreach : Reachable (step cfg) {} d)
    (hpolling : d.polling = some target) : ∃ n d', Machine.run (step cfg) d (List.replicate n .go) = some d' ∧
      d'.polling = none ∧ target ≤ d'.svc.wheel.now ∧ Follows d d' := by
  induction hleft : target - d.svc.wheel.now using Nat.strong_induction_on generalizing d with
  | _ left ih =>
    obtain ⟨n, mid, hrun, hstill, hidle, hfirst⟩ := advance_ends cfg d hpolling
    have hmid := hreach.run hrun
    by_cases hlt : mid.svc.wheel.now < target
    · have hsvc : State.step cfg mid.svc .tick = some mid.svc.popDue := if_pos hidle
      have hstep : step cfg mid .go = some (mid.advance mid.svc.popDue) := by
        simp only [step, hstill]
        rw [if_neg (not_not.mpr hidle), if_pos hlt, hsvc, map_some]
      obtain ⟨-, -, hnow⟩ := Sound.now_tick (TimerService.Sound.of_reachable (Sound.of_reachable hmid).svc) hsvc
      have hsecond : Follows mid (mid.advance mid.svc.popDue) := ⟨rfl, rfl, steady_mark.popDue, hnow ▸ Nat.le_succ _⟩
      have hcloser : target - (mid.advance mid.svc.popDue).svc.wheel.now < left := by
        have hbefore := hfirst.now
        change target - mid.svc.popDue.wheel.now < left
        omega
      obtain ⟨m, d', hrun', hdone, hthere, hthird⟩ := ih _ hcloser _ (.step hmid trivial hstep) hstill rfl
      refine ⟨n + (m + 1), d', ?_, hdone, hthere, hfirst.trans (hsecond.trans hthird)⟩
      rw [replicate_add]
      exact run_append.mpr ⟨mid, hrun, run_cons.mpr ⟨_, hstep, hrun'⟩⟩
    · have hstep : step cfg mid .go = some { mid with polling := none } := by
        simp only [step, hstill]
        rw [if_neg (not_not.mpr hidle), if_neg hlt]
      refine ⟨n + 1, { mid with polling := none }, ?_, rfl, not_lt.mp hlt, hfirst.trans ⟨rfl, rfl, rfl, le_rfl⟩⟩
      rw [replicate_add]
      exact run_append.mpr ⟨mid, hrun, run_cons.mpr ⟨_, hstep, rfl⟩⟩

/-- Between two polls, in a service with nothing to do: time goes by up to `clock`, and a poll brings the
wheel there. -/
theorem polled (clock : Nat) (hreach : Reachable (step cfg) {} d) (hnone : d.polling = none)
    (hclock : d.clock ≤ clock) :
    ∃ labels d', Machine.run (step cfg) d labels = some d' ∧ d'.polling = none ∧
    clock / cfg.tickNs ≤ d'.svc.wheel.now ∧
      d'.clock = clock ∧ d'.asked = d.asked ∧ d'.svc.timers.map mark = d.svc.timers.map mark := by
  have hpass : step cfg d (.pass (clock - d.clock)) = some { d with clock } := by
    rw [step, Nat.add_sub_of_le hclock]
  have hpoll : step cfg { d with clock } .poll = some { d with clock, polling := some (clock / cfg.tickNs) } := by
    rw [step, if_pos hnone]
  have hready := (hreach.step trivial hpass).step trivial hpoll
  obtain ⟨n, d', hrun, hdone, hthere, hfollows⟩ := poll_ends _ hready rfl
  exact ⟨_, d', run_cons.mpr ⟨_, hpass, run_cons.mpr ⟨_, hpoll, hrun⟩⟩, hdone, hthere, hfollows.clock,
    hfollows.asked, hfollows.marks⟩

/-- A timer that was asked for with the wheel too far behind is early if the next poll comes as soon as it is due. -/
theorem early_of_far {k : Nat} {ask : Ask} {t : Timer} (hreach : Reachable (step cfg) {} d)
    (hask : d.asked[k]? = some ask) (ht : d.svc.timers[k]? = some t) (hcancel : t.cancelled = none)
    (hclock : d.clock = ask.clock) (hfar : ¬ Near cfg ask) :
    ∃ labels d', Machine.run (step cfg) d labels = some d' ∧ ¬ d'.OnTime := by
  have hfirst : t.first = ask.now + cfg.ticksCeil ask.delay :=
    ((Sound.of_reachable hreach).planned_at hask (by rw [getElem?_map, ht, map_some])).1
  obtain ⟨hpos, hearly⟩ := Classical.not_imp.mp hfar
  have hearly : (((t.first + 1) * cfg.tickNs : Nat) : Int) < ask.clock + ask.delay := by
    rw [hfirst]
    push_cast
    exact Int.not_le.mp hearly
  -- the poll that runs, if one does, is waited for
  obtain ⟨before, mid, hbefore, hidle, hwait⟩ : ∃ labels mid, Machine.run (step cfg) d labels = some mid ∧
      mid.polling = none ∧ Follows d mid := by
    cases hpolling : d.polling with
    | none => exact ⟨[], d, rfl, hpolling, .refl d⟩
    | some target =>
      obtain ⟨n, mid, hrun, hdone, -, hfollows⟩ := poll_ends d hreach hpolling
      exact ⟨_, mid, hrun, hdone, hfollows⟩
  have hmid := hreach.run hbefore
  obtain ⟨after, d', hafter, hdone, hthere, hclock', hasked, hmarks⟩ :=
    polled (max d.clock ((t.first + 1) * cfg.tickNs)) hmid hidle (hwait.clock.trans_le (le_max_left _ _))
  have hreach' := hmid.run hafter
  refine ⟨before ++ after, d', run_append.mpr ⟨mid, hbefore, hafter⟩, fun hontime => ?_⟩
  have hmark := congrArg (·[k]?) (hmarks.trans hwait.marks)
  simp only [getElem?_map, ht, map_some] at hmark
  obtain ⟨t', ht', hsame⟩ := map_eq_some_iff.mp hmark
  obtain ⟨hfirst', hcancel'⟩ := Prod.mk.injEq .. ▸ hsame
  have hsound := Sound.of_reachable hreach'
  have hdue : t'.first + 0 * t'.period < d'.svc.wheel.now := by
    have hticks := (Nat.le_div_iff_mul_le (tickNs_pos cfg)).mpr (le_max_right d.clock ((t.first + 1) * cfg.tickNs))
    omega
  have hfired := (fired_iff (.of_reachable hsound.svc) ht' (hsound.idle hdone)
    (hcancel'.trans hcancel) 0 fun _ => rfl).mpr hdue
  obtain ⟨c, hc⟩ := Recorded.of_reachable hreach' k t' ht' (ne_nil_of_length_pos hfired)
  have hlate := hontime (k, c) hc ask (by rw [hasked, hwait.asked, hask])
  obtain ⟨-, -, -, -, -, -, hpast⟩ := hsound.fires (k, c) hc
  have hpast : c ≤ max ask.clock ((t.first + 1) * cfg.tickNs) := by rwa [hclock', hclock] at hpast
  have hlate : (ask.clock : Int) + ask.delay ≤ c := hlate
  rcases le_max_iff.mp hpast with hle | hle <;> omega

/-- With the wheel too far behind at a call, there is a run on which its timer is early. -/
theorem early_of_schedule {delay period : Int} {svc : State} {label : TimerService.Label}
    (hreach : Reachable (step cfg) {} d) (hreach' : Reachable (step cfg) {} (d.schedule delay period svc))
    (harm : State.step cfg d.svc label = d.svc.arm cfg delay period) (hstep : State.step cfg d.svc label = some svc)
    (hfar : ¬ Near cfg (d.ask delay period)) :
    ∃ labels d', Machine.run (step cfg) (d.schedule delay period svc) labels = some d' ∧ ¬ d'.OnTime := by
  obtain ⟨t, htimers, -, -, hcancel, -, -, -⟩ := arm_spec (harm.symm.trans hstep)
  have hlen : d.asked.length = d.svc.timers.length := by
    rw [(Sound.of_reachable hreach).planned.length_eq, length_map]
  have hask : (d.schedule delay period svc).asked[d.asked.length]? = some (d.ask delay period) :=
    getElem?_concat_length
  have ht : svc.timers[d.asked.length]? = some t := by
    rw [hlen, htimers]
    exact getElem?_concat_length
  exact early_of_far hreach' hask ht hcancel rfl hfar

/-- As long as timers are asked for with the wheel near the clock, none is early; periodic timers keep their distance
whatever happens; and a timer that is asked for with the wheel too far behind is early on some run. -/
theorem onTime_iff_caughtUp (cfg : Config) :
    (∀ d, Reach (step cfg) (CaughtUp cfg) {} d → d.OnTime) ∧
    (∀ d, Reachable (step cfg) {} d → d.Spaced cfg) ∧
    ∀ d d' a, Reachable (step cfg) {} d → step cfg d a = some d' → ¬ CaughtUp cfg d a →
      ∃ labels d'', Machine.run (step cfg) d' labels = some d'' ∧ ¬ d''.OnTime := by
  refine ⟨fun d h => onTime_of_reach h, fun d h => (Sound.of_reachable h).spaced, ?_⟩
  intro d d' a hreach hstep hfar
  have hreach' := hreach.step trivial hstep
  cases a with
  | scheduleAfter delay | scheduleEvery period =>
    obtain ⟨svc, hsvc, rfl⟩ := map_eq_some_iff.mp hstep
    exact early_of_schedule hreach hreach' rfl hsvc hfar
  | pass ns => exact absurd trivial hfar
  | cancel k => exact absurd trivial hfar
  | poll => exact absurd trivial hfar
  | go => exact absurd trivial hfar

/-- A delay of one tick asked for at the end of the tenth tick, with the wheel still at the first: the poll that comes
next fires the timer at once. -/
theorem fires_at_next_poll : ∃ d, Reachable (step { tick := 10, entryCapacity := 1 }) {} d ∧
    d.asked = [{ clock := 99, now := 0, delay := 10, period := 0 }] ∧ d.fires = [(0, 100)] ∧ ¬ d.OnTime := by
  obtain ⟨d, hrun, hview⟩ := map_eq_some_iff.mp (show (Machine.run (step { tick := 10, entryCapacity := 1 }) {}
    [.pass 99, .scheduleAfter 10, .pass 1, .poll, .go, .go, .go]).map (fun d => (d.asked, d.fires)) =
      some ([{ clock := 99, now := 0, delay := 10, period := 0 }], [(0, 100)]) by decide +kernel)
  obtain ⟨hasked, hfires⟩ := Prod.mk.inj hview
  refine ⟨d, reachable_of_run hrun, hasked, hfires, fun hontime => ?_⟩
  have hearly := hontime (0, 100) (by rw [hfires]; exact .head _) { clock := 99, now := 0, delay := 10, period := 0 }
    (by rw [hasked]; rfl)
  exact absurd hearly (by decide)

end

end Driven

end Quark.TimerService
