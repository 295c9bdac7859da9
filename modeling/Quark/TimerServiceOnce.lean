import Quark.Lib.Machine
import Quark.TimerService

/-! What becomes of the timers of a `TimerService`: how often they fire, and when their payloads are destroyed. -/
namespace Quark.TimerService

open Multiset TimingWheel State

/-- Where an entry of the pool is. -/
inductive Spot
  | free
  | armed (expiry : Nat)
  | due (expiry : Nat) (live : Bool)
  | spent (expiry : Nat) (live : Bool)
  | done (expiry : Nat) (live : Bool)
  | late
  | gone
  deriving DecidableEq, Repr

def Due.done (d : Due) : Nat × Spot := (d.item.val, .done d.item.expiry d.live)

def Due.due (d : Due) : Nat × Spot := (d.item.val, .due d.item.expiry d.live)

def armed (it : TimingItem Nat) : Nat × Spot := (it.val, .armed it.expiry)

def Phase.spots : Phase → List (Nat × Spot)
  | .idle => []
  | .firing done todo => done.map Due.done ++ todo.map Due.due
  | .destroying done d todo => done.map Due.done ++ (d.item.val, .spent d.item.expiry d.live) :: todo.map Due.due
  | .lateDestroying done todo => done.map (·, .gone) ++ todo.map (·, .late)

def freeSpots (free : List Nat) : Multiset (Nat × Spot) := ↑(free.map (·, Spot.free))

def State.rest (s : State) : Multiset (Nat × Spot) := freeSpots s.free + s.wheel.items.map armed

def State.flight (s : State) : Multiset (Nat × Spot) := ↑s.phase.spots

def State.spots (s : State) : Multiset (Nat × Spot) := s.rest + s.flight

namespace Timer

variable (t : Timer)

/-- What holds of a timer at every moment. -/
structure Sound (now : Nat) : Prop where
  fired : t.fired = (List.range t.fired.length).map fun n => t.first + n * t.period + 1
  past : ∀ n, n < t.fired.length → t.first + n * t.period < now
  once : t.period = 0 → t.fired.length ≤ 1
  cancels : ∀ c, t.cancelled = some c → t.fired.length ≤ c.pops ∧ c.pops ≤ c.fires + 1
  destroyed : t.destroyed ≤ 1
  ended : t.ended = true → t.destroyed = 1 ∧ (t.cancelled = none → t.period = 0 ∧ t.fired.length = 1) ∧
    (t.period = 0 → t.fired.length = 1 ∨ ∃ c, t.cancelled = some c ∧ c.pops = 0)

/-- The timer was popped `skipped` times without firing, and `cs` holds of its cancel. -/
structure Counts (skipped destroyed : Nat) (cs : Cancel → Prop) : Prop where
  pops : t.pops = t.fired.length + skipped
  destroyed : t.destroyed = destroyed
  cancel : ∀ c, t.cancelled = some c → cs c

/-- A timer whose entry is at a spot; what is armed expires at `low` or later. -/
def At (now low : Nat) : Spot → Prop
  | .free => False
  | .armed e =>
    t.Counts 0 0 (· = ⟨t.fired.length, t.fired.length⟩) ∧ e = t.first + t.fired.length * t.period ∧ low ≤ e ∧
      (t.period = 0 → t.fired.length = 0)
  | .due e live =>
    t.Counts 1 0 (· = ⟨if live then t.fired.length + 1 else t.fired.length, t.fired.length⟩) ∧
      e = t.first + t.fired.length * t.period ∧ e + 1 = now ∧ (t.period = 0 → t.fired.length = 0) ∧
      (live = false → t.cancelled ≠ none)
  | .spent e live =>
    t.Counts 0 0 (fun c => c.pops = 1 ∧ c.fires ≤ 1) ∧ e + 1 = now ∧ e = t.first ∧ t.period = 0 ∧
      t.fired.length = 1 ∧ live = true
  | .done e true =>
    t.Counts 0 (if t.period = 0 then 1 else 0) (fun c => c.pops = t.fired.length ∧ c.fires ≤ c.pops ∧
      c.pops ≤ c.fires + 1) ∧
      e + 1 = now ∧ e + t.period = t.first + t.fired.length * t.period ∧ (t.period = 0 → t.fired.length = 1)
  | .done _ false =>
    t.Counts 1 1 (· = ⟨t.fired.length, t.fired.length⟩) ∧ t.cancelled ≠ none ∧ (t.period = 0 → t.fired.length = 0)
  | .late => t.Counts 0 0 (fun c => c.pops = t.fired.length) ∧ t.cancelled ≠ none ∧ t.period ≠ 0
  | .gone => t.Counts 0 1 (fun c => c.pops = t.fired.length) ∧ t.cancelled ≠ none ∧ t.period ≠ 0

end Timer

/-- The entry at `e` is bound to a timer that has not ended. -/
structure Bound (s : State) (now low e : Nat) (sp : Spot) (t : Timer) : Prop where
  timer : s.timers[(s.entries e).payload]? = some t
  entry : t.entry = e
  gen : t.gen = (s.entries e).gen
  period : t.period = (s.entries e).period
  running : t.ended = false
  active : (s.entries e).active = true
  flag : (s.entries e).cancelled = true ↔ t.cancelled ≠ none
  at_ : t.At now low sp

def Fits (s : State) (now low e : Nat) (sp : Spot) : Prop :=
  (sp = .free ∧ (s.entries e).active = false) ∨ ∃ t, Bound s now low e sp t

/-- The entries of the pool with their spots, and the timers. -/
structure Ledger (s : State) (now low : Nat) (spots : Multiset (Nat × Spot)) : Prop where
  nodup : (spots.map Prod.fst).Nodup
  made : ∀ x ∈ spots, x.1 < s.made
  fits : ∀ x ∈ spots, Fits s now low x.1 x.2
  sound : ∀ t ∈ s.timers, t.Sound now
  running : ∀ k t, s.timers[k]? = some t → t.ended = false →
    (s.entries t.entry).payload = k ∧ ∃ sp, sp ≠ .free ∧ (t.entry, sp) ∈ spots
  gens : ∀ t ∈ s.timers, t.gen ≤ (s.entries t.entry).gen ∧ (t.ended = true → t.gen < (s.entries t.entry).gen)
  fresh : ∀ e, s.made ≤ e → (s.entries e).active = false

namespace Ledger

variable {s s' : State} {now low e : Nat} {sp sp' : Spot} {spots : Multiset (Nat × Spot)} {t : Timer}

theorem bound (h : Ledger s now low ((e, sp) ::ₘ spots)) (hsp : sp ≠ .free) : ∃ t, Bound s now low e sp t := by
  rcases h.fits _ (mem_cons_self _ _) with ⟨hfree, -⟩ | hbound
  · exact absurd hfree hsp
  · exact hbound

theorem others (h : Ledger s now low ((e, sp) ::ₘ spots)) : ∀ x ∈ spots, x.1 ≠ e := by
  intro x hx heq
  have hnodup := h.nodup
  rw [map_cons, nodup_cons] at hnodup
  have hin := mem_map_of_mem Prod.fst hx
  rw [heq] at hin
  exact hnodup.1 hin

theorem nodup_moved (h : Ledger s now low ((e, sp) ::ₘ spots)) : (((e, sp') ::ₘ spots).map Prod.fst).Nodup := by
  have hnodup := h.nodup
  rw [map_cons] at hnodup ⊢
  exact hnodup

theorem change (h : Ledger s now low ((e, sp) ::ₘ spots)) (hbound : Bound s now low e sp t)
    (hentries : ∀ e', e' ≠ e → s'.entries e' = s.entries e') (hmade : s'.made = s.made)
    (htimers : ∀ k, k ≠ (s.entries e).payload → s'.timers[k]? = s.timers[k]?) {t' : Timer}
    (ht' : s'.timers[(s.entries e).payload]? = some t') (hsound : t'.Sound now) (hentry : t'.entry = e)
    (hgen : t'.gen = t.gen) (hgens : (s.entries e).gen ≤ (s'.entries e).gen)
    (hended : t'.ended = true → (s.entries e).gen < (s'.entries e).gen)
    (hpayload : (s'.entries e).payload = (s.entries e).payload) (hsp' : t'.ended = false → sp' ≠ .free)
    (hfits : Fits s' now low e sp') : Ledger s' now low ((e, sp') ::ₘ spots) := by
  have hother := h.others
  have hmem : ∀ t'' ∈ s'.timers, t'' = t' ∨ ∃ k, k ≠ (s.entries e).payload ∧ s.timers[k]? = some t'' := by
    intro t'' ht''
    obtain ⟨k, hk⟩ := List.mem_iff_getElem?.mp ht''
    by_cases hpay : k = (s.entries e).payload
    · rw [hpay, ht'] at hk
      exact .inl (Option.some.inj hk).symm
    · rw [htimers k hpay] at hk
      exact .inr ⟨k, hpay, hk⟩
  refine ⟨?_, fun x hx => ?_, fun x hx => ?_, fun t'' ht'' => ?_, fun k t'' hk hrun => ?_, fun t'' ht'' => ?_,
    fun e' he' => ?_⟩
  · exact h.nodup_moved
  · rw [hmade]
    rcases mem_cons.mp hx with rfl | hin
    · exact h.made (e, sp) (mem_cons_self _ _)
    · exact h.made x (mem_cons_of_mem hin)
  · rcases mem_cons.mp hx with rfl | hin
    · exact hfits
    · have hne := hother x hin
      rcases h.fits x (mem_cons_of_mem hin) with ⟨hfree, hactive⟩ | ⟨u, hu⟩
      · exact .inl ⟨hfree, (hentries _ hne).symm ▸ hactive⟩
      · have hpay : (s.entries x.1).payload ≠ (s.entries e).payload := by
          intro heq
          have htimer := hu.timer
          rw [heq, hbound.timer] at htimer
          exact hne (hu.entry.symm.trans ((Option.some.inj htimer) ▸ hbound.entry))
        refine .inr ⟨u, ?_, hu.entry, ?_, ?_, hu.running, ?_, ?_, hu.at_⟩
        · rw [hentries _ hne, htimers _ hpay]
          exact hu.timer
        · rw [hentries _ hne]
          exact hu.gen
        · rw [hentries _ hne]
          exact hu.period
        · rw [hentries _ hne]
          exact hu.active
        · rw [hentries _ hne]
          exact hu.flag
  · rcases hmem t'' ht'' with rfl | ⟨k, -, hk⟩
    · exact hsound
    · exact h.sound t'' (List.mem_of_getElem? hk)
  · by_cases hpay : k = (s.entries e).payload
    · rw [hpay, ht'] at hk
      obtain rfl := Option.some.inj hk
      exact ⟨by rw [hentry, hpayload, hpay], sp', hsp' hrun, hentry ▸ mem_cons_self _ _⟩
    · rw [htimers k hpay] at hk
      obtain ⟨hown, sp'', hsp'', hin⟩ := h.running k t'' hk hrun
      have hne : t''.entry ≠ e := by
        rintro heq
        exact hpay (heq ▸ hown.symm)
      refine ⟨by rw [hentries _ hne, hown], sp'', hsp'', mem_cons_of_mem ?_⟩
      rcases mem_cons.mp hin with heq | hin
      · exact absurd (congrArg Prod.fst heq) hne
      · exact hin
  · rcases hmem t'' ht'' with rfl | ⟨k, -, hk⟩
    · have hsame := hbound.gen
      rw [hentry, hgen, hsame]
      exact ⟨hgens, hended⟩
    · obtain ⟨hle, hlt⟩ := h.gens t'' (List.mem_of_getElem? hk)
      by_cases heq : t''.entry = e
      · rw [heq] at hle hlt ⊢
        exact ⟨hle.trans hgens, fun hend => (hlt hend).trans_le hgens⟩
      · rw [hentries _ heq]
        exact ⟨hle, hlt⟩
  · have hlt := h.made (e, sp) (mem_cons_self _ _)
    rw [hmade] at he'
    rw [hentries e' (Nat.ne_of_gt (hlt.trans_le he'))]
    exact h.fresh e' he'

theorem advance (h : Ledger s now low ((e, sp) ::ₘ spots)) (hbound : Bound s now low e sp t)
    {f : Timer → Timer} (flag : Bool)
    (hentries : ∀ e', e' ≠ e → s'.entries e' = s.entries e') (hmade : s'.made = s.made)
    (hentry : s'.entries e = { s.entries e with cancelled := flag })
    (htimers : s'.timers = s.timers.modify (s.entries e).payload f) (hsp' : sp' ≠ .free) (hsound : (f t).Sound now)
    (hkeeps : (f t).entry = t.entry ∧ (f t).gen = t.gen ∧ (f t).period = t.period ∧ (f t).ended = t.ended)
    (hflag : flag = true ↔ (f t).cancelled ≠ none) (hat : (f t).At now low sp') :
    Ledger s' now low ((e, sp') ::ₘ spots) := by
  obtain ⟨hkeepEntry, hkeepGen, hkeepPeriod, hkeepEnded⟩ := hkeeps
  have hrunning := hkeepEnded.trans hbound.running
  have ht' : s'.timers[(s.entries e).payload]? = some (f t) := by
    rw [htimers, List.getElem?_modify_eq, hbound.timer]
    rfl
  refine h.change hbound hentries hmade (fun k hk => ?_) ht' hsound (hkeepEntry.trans hbound.entry) hkeepGen ?_
    (fun hend => ?_) ?_
    (fun _ => hsp') (.inr ⟨f t, ?_, hkeepEntry.trans hbound.entry, ?_, ?_, hrunning, ?_, ?_, hat⟩)
  · rw [htimers, List.getElem?_modify_ne _ _ (Ne.symm hk)]
  · rw [hentry]
  · rw [hrunning] at hend
    cases hend
  · rw [hentry]
  · rw [hentry]
    exact ht'
  · rw [hentry, hkeepGen]
    exact hbound.gen
  · rw [hentry, hkeepPeriod]
    exact hbound.period
  · rw [hentry]
    exact hbound.active
  · rw [hentry]
    exact hflag

theorem respot (h : Ledger s now low ((e, sp) ::ₘ spots)) (hbound : Bound s now low e sp t) (hsp' : sp' ≠ .free)
    (hat : t.At now low sp') : Ledger s now low ((e, sp') ::ₘ spots) :=
  h.change hbound (fun _ _ => rfl) rfl (fun _ _ => rfl) hbound.timer (h.sound t (List.mem_of_getElem? hbound.timer))
    hbound.entry rfl
    le_rfl (fun hend => by rw [hbound.running] at hend; cases hend) rfl (fun _ => hsp')
    (.inr ⟨t, hbound.timer, hbound.entry, hbound.gen, hbound.period, hbound.running, hbound.active, hbound.flag, hat⟩)

section

variable {x : Nat} {live : Bool} {f : Timer → Timer}

theorem onPayload (h : Ledger s now low ((e, sp) ::ₘ spots)) (hbound : Bound s now low e sp t) (hsp' : sp' ≠ .free)
    (hsound : (f t).Sound now)
    (hkeeps : (f t).entry = t.entry ∧ (f t).gen = t.gen ∧ (f t).period = t.period ∧ (f t).ended = t.ended)
    (hflag : (f t).cancelled = t.cancelled) (hat : (f t).At now low sp') :
    Ledger (s.onPayload e f) now low ((e, sp') ::ₘ spots) :=
  h.advance hbound (s.entries e).cancelled (fun _ _ => rfl) rfl rfl rfl hsp' hsound hkeeps
    (hflag ▸ hbound.flag) hat

theorem fire (h : Ledger s now low ((e, .due x true) ::ₘ spots)) :
    Ledger (s.onPayload e fun t => t.fire now) now low
      ((e, if (s.entries e).period = 0 then .spent x true else .done x true) ::ₘ spots) := by
  obtain ⟨t, hbound⟩ := h.bound nofun
  obtain ⟨hcounts, hexpiry, hnow, honce, -⟩ := hbound.at_
  have hsound := h.sound t (List.mem_of_getElem? hbound.timer)
  have hlength : (t.fire now).fired.length = t.fired.length + 1 := List.length_append
  have hcancels : ∀ c, t.cancelled = some c → c = ⟨t.fired.length + 1, t.fired.length⟩ := hcounts.cancel
  have hfired : (t.fire now).Sound now := by
    refine ⟨?_, fun n hn => ?_, fun hzero => ?_, fun c hc => ?_, hsound.destroyed, fun hend => ?_⟩
    · rw [hlength, List.range_succ, List.map_append, ← hnow, hexpiry]
      exact congrArg (· ++ _) hsound.fired
    · rw [hlength] at hn
      rcases Nat.lt_succ_iff_lt_or_eq.mp hn with hlt | rfl
      · exact hsound.past n hlt
      · change t.first + t.fired.length * t.period < now
        omega
    · rw [hlength, honce hzero]
    · obtain rfl := hcancels c hc
      rw [hlength]
      exact ⟨le_rfl, le_rfl⟩
    · exact absurd (hbound.running.symm.trans hend) (by decide)
  split
  · next hzero =>
    have hzero : t.period = 0 := hbound.period.trans hzero
    have hnone := honce hzero
    refine h.onPayload (f := fun t => t.fire now) hbound nofun hfired ⟨rfl, rfl, rfl, rfl⟩ rfl
      ⟨⟨?_, hcounts.destroyed, fun c hc => ?_⟩, hnow, ?_, hzero, by rw [hlength, hnone], rfl⟩
    · rw [hlength]
      exact hcounts.pops
    · obtain rfl := hcancels c hc
      rw [hnone]
      exact ⟨rfl, Nat.zero_le _⟩
    · rw [hexpiry, hzero, Nat.mul_zero]
      rfl
  · next hperiod =>
    have hperiod : t.period ≠ 0 := hbound.period ▸ hperiod
    refine h.onPayload (f := fun t => t.fire now) hbound nofun hfired ⟨rfl, rfl, rfl, rfl⟩ rfl
      ⟨⟨?_, ?_, fun c hc => ?_⟩, hnow, ?_, fun hzero => absurd hzero hperiod⟩
    · rw [hlength]
      exact hcounts.pops
    · rw [if_neg (show ¬(t.fire now).period = 0 from hperiod)]
      exact hcounts.destroyed
    · obtain rfl := hcancels c hc
      rw [hlength]
      exact ⟨rfl, Nat.le_succ _, Nat.le_refl _⟩
    · rw [hlength, Nat.add_mul, Nat.one_mul, ← Nat.add_assoc, hexpiry]
      rfl

theorem destroy (h : Ledger s now low ((e, sp) ::ₘ spots)) (hbound : Bound s now low e sp t) (hsp' : sp' ≠ .free)
    (hfresh : t.destroyed = 0) (hat : t.destroy.At now low sp') :
    Ledger (s.onPayload e Timer.destroy) now low ((e, sp') ::ₘ spots) := by
  have hsound := h.sound t (List.mem_of_getElem? hbound.timer)
  refine h.onPayload hbound hsp' ⟨hsound.fired, hsound.past, hsound.once, hsound.cancels, ?_,
    fun hend => ?_⟩ ⟨rfl, rfl, rfl, rfl⟩ rfl hat
  · rw [Timer.destroy, hfresh]
  · exact absurd (hbound.running.symm.trans hend) (by decide)

theorem destroyDead (h : Ledger s now low ((e, .due x false) ::ₘ spots)) :
    Ledger (s.onPayload e Timer.destroy) now low ((e, .done x false) ::ₘ spots) := by
  obtain ⟨t, hbound⟩ := h.bound nofun
  obtain ⟨hcounts, -, -, honce, hcancelled⟩ := hbound.at_
  exact h.destroy hbound nofun hcounts.destroyed
    ⟨⟨hcounts.pops, congrArg (· + 1) hcounts.destroyed, hcounts.cancel⟩, hcancelled rfl, honce⟩

theorem destroySpent (h : Ledger s now low ((e, .spent x live) ::ₘ spots)) :
    Ledger (s.onPayload e Timer.destroy) now low ((e, .done x live) ::ₘ spots) := by
  obtain ⟨t, hbound⟩ := h.bound nofun
  obtain ⟨hcounts, hnow, hexpiry, hzero, hone, rfl⟩ := hbound.at_
  refine h.destroy hbound nofun hcounts.destroyed
    ⟨⟨hcounts.pops, ?_, fun c hc => ?_⟩, hnow, ?_, fun _ => hone⟩
  · rw [if_pos (show t.destroy.period = 0 from hzero)]
    exact congrArg (· + 1) hcounts.destroyed
  · obtain ⟨hpops, hfires⟩ := hcounts.cancel c hc
    change c.pops = t.fired.length ∧ c.fires ≤ c.pops ∧ c.pops ≤ c.fires + 1
    omega
  · change x + t.period = t.first + t.fired.length * t.period
    rw [hzero, hexpiry, Nat.mul_zero]

theorem destroyLate (h : Ledger s now low ((e, .late) ::ₘ spots)) :
    Ledger (s.onPayload e Timer.destroy) now low ((e, .gone) ::ₘ spots) := by
  obtain ⟨t, hbound⟩ := h.bound nofun
  obtain ⟨hcounts, hrest⟩ := hbound.at_
  exact h.destroy hbound nofun hcounts.destroyed
    ⟨⟨hcounts.pops, congrArg (· + 1) hcounts.destroyed, hcounts.cancel⟩, hrest⟩

theorem pop (h : Ledger s now low ((e, .armed x) ::ₘ spots)) (hnow : x + 1 = now) :
    Ledger (s.onPayload e Timer.pop) now low ((e, .due x !(s.entries e).cancelled) ::ₘ spots) := by
  obtain ⟨t, hbound⟩ := h.bound nofun
  obtain ⟨hcounts, hexpiry, -, honce⟩ := hbound.at_
  have hsound := h.sound t (List.mem_of_getElem? hbound.timer)
  refine h.onPayload hbound nofun
    ⟨hsound.fired, hsound.past, hsound.once, hsound.cancels, hsound.destroyed, hsound.ended⟩ ⟨rfl, rfl, rfl, rfl⟩ rfl
    ⟨⟨congrArg (· + 1) hcounts.pops, hcounts.destroyed, fun c hc => ?_⟩, hexpiry, hnow, honce, fun hlive => ?_⟩
  · have hflag : (s.entries e).cancelled = true := hbound.flag.mpr fun hnone => by
      rw [show t.cancelled = some c from hc] at hnone
      cases hnone
    rw [hflag]
    exact hcounts.cancel c hc
  · exact hbound.flag.mp ((Bool.not_eq_false' _).mp hlive)

theorem armedAgain (h : Ledger s now low ((e, .done x true) ::ₘ spots)) (hperiod : (s.entries e).period ≠ 0)
    (hflag : (s.entries e).cancelled = false) (hlow : low = now) :
    Ledger s now low ((e, .armed (x + (s.entries e).period)) ::ₘ spots) := by
  obtain ⟨t, hbound⟩ := h.bound nofun
  obtain ⟨hcounts, hnow, hnext, -⟩ := hbound.at_
  have hnone : t.cancelled = none := by
    by_contra hsome
    rw [hbound.flag.mpr hsome] at hflag
    cases hflag
  have hperiod : t.period ≠ 0 := hbound.period ▸ hperiod
  rw [if_neg hperiod] at hcounts
  refine h.respot hbound nofun
    ⟨⟨hcounts.pops, hcounts.destroyed, fun c hc => ?_⟩, ?_, ?_, fun hzero => absurd hzero hperiod⟩
  · rw [hnone] at hc
    cases hc
  · rw [← hbound.period, hnext]
  · rw [← hbound.period]
    omega

theorem cancelledLate (h : Ledger s now low ((e, .done x true) ::ₘ spots)) (hperiod : (s.entries e).period ≠ 0)
    (hflag : (s.entries e).cancelled = true) : Ledger s now low ((e, .late) ::ₘ spots) := by
  obtain ⟨t, hbound⟩ := h.bound nofun
  obtain ⟨hcounts, -⟩ := hbound.at_
  have hperiod : t.period ≠ 0 := hbound.period ▸ hperiod
  rw [if_neg hperiod] at hcounts
  exact h.respot hbound nofun
    ⟨⟨hcounts.pops, hcounts.destroyed, fun c hc => (hcounts.cancel c hc).1⟩, hbound.flag.mp hflag, hperiod⟩

theorem cancelled_cancel {c : Cancel} (hc : t.cancel.cancelled = some c) :
    t.cancelled = some c ∨ t.cancelled = none ∧ c = ⟨t.pops, t.fired.length⟩ := by
  rw [Timer.cancel] at hc
  cases hold : t.cancelled with
  | none =>
    rw [hold] at hc
    cases hc
    exact .inr ⟨rfl, rfl⟩
  | some c' =>
    rw [hold] at hc
    exact .inl hc

theorem counts_cancel {skipped destroyed : Nat} {cs : Cancel → Prop} (h : t.Counts skipped destroyed cs)
    (hnew : t.cancelled = none → cs ⟨t.pops, t.fired.length⟩) : t.cancel.Counts skipped destroyed cs := by
  refine ⟨h.pops, h.destroyed, fun c hc => ?_⟩
  rcases cancelled_cancel hc with hold | ⟨hnone, rfl⟩
  · exact h.cancel c hold
  · exact hnew hnone

theorem at_cancel (hat : t.At now low sp) : t.cancel.At now low sp ∧ t.fired.length ≤ t.pops ∧
    t.pops ≤ t.fired.length + 1 := by
  have hsome : t.cancel.cancelled ≠ none := by
    cases hold : t.cancelled <;> simp [Timer.cancel, hold]
  cases sp with
  | free => exact hat.elim
  | armed x =>
    obtain ⟨hcounts, hrest⟩ := hat
    have hpops := hcounts.pops
    exact ⟨⟨counts_cancel hcounts fun _ => by rw [hpops]; rfl, hrest⟩, by omega, by omega⟩
  | due x live =>
    obtain ⟨hcounts, hexpiry, hnow, honce, hcancelled⟩ := hat
    have hpops := hcounts.pops
    refine ⟨⟨counts_cancel hcounts fun hnone => ?_, hexpiry, hnow, honce, fun _ => hsome⟩, by omega, by omega⟩
    cases live with
    | true => exact congrArg (Cancel.mk · _) hpops
    | false => exact absurd hnone (hcancelled rfl)
  | spent x live =>
    obtain ⟨hcounts, hnow, hexpiry, hzero, hone, hlive⟩ := hat
    have hpops := hcounts.pops
    exact ⟨⟨counts_cancel hcounts fun _ => ⟨by rw [hpops, hone], le_of_eq hone⟩, hnow, hexpiry, hzero, hone, hlive⟩,
      by omega, by omega⟩
  | done x live =>
    cases live with
    | true =>
      obtain ⟨hcounts, hrest⟩ := hat
      have hpops := hcounts.pops
      exact ⟨⟨counts_cancel hcounts fun _ => ⟨hpops, le_of_eq hpops.symm, Nat.le_succ_of_le (le_of_eq hpops)⟩, hrest⟩,
        by omega, by omega⟩
    | false =>
      obtain ⟨hcounts, hcancelled, hrest⟩ := hat
      have hpops := hcounts.pops
      exact ⟨⟨counts_cancel hcounts fun hnone => absurd hnone hcancelled, hsome, hrest⟩, by omega, by omega⟩
  | late | gone =>
    obtain ⟨hcounts, hcancelled, hrest⟩ := hat
    have hpops := hcounts.pops
    exact ⟨⟨counts_cancel hcounts fun hnone => absurd hnone hcancelled, hsome, hrest⟩, by omega, by omega⟩

theorem cancel (h : Ledger s now low ((e, sp) ::ₘ spots)) (hbound : Bound s now low e sp t) (hsp : sp ≠ .free) :
    Ledger ((s.onPayload e Timer.cancel).setEntry e { s.entries e with cancelled := true }) now low
    ((e, sp) ::ₘ spots) := by
  have hsound := h.sound t (List.mem_of_getElem? hbound.timer)
  obtain ⟨hat, hle, hlt⟩ := at_cancel hbound.at_
  refine h.advance hbound true (fun e' he' => Function.update_of_ne he' ..) rfl (Function.update_self ..) rfl hsp
    ⟨hsound.fired, hsound.past, hsound.once, fun c hc => ?_, hsound.destroyed,
    fun hend => ?_⟩ ⟨rfl, rfl, rfl, rfl⟩ ?_ hat
  · rcases cancelled_cancel hc with hold | ⟨-, rfl⟩
    · exact hsound.cancels c hold
    · exact ⟨hle, hlt⟩
  · exact absurd (hbound.running.symm.trans hend) (by decide)
  · cases hold : t.cancelled <;> simp [Timer.cancel, hold]

theorem release (h : Ledger s now low ((e, sp) ::ₘ spots)) (hbound : Bound s now low e sp t)
    (hdestroyed : t.destroyed = 1)
    (hcancelled : t.cancelled = none → t.period = 0 ∧ t.fired.length = 1)
    (honce : t.period = 0 → t.fired.length = 1 ∨ ∃ c, t.cancelled = some c ∧ c.pops = 0) :
    Ledger (s.release e) now low ((e, .free) ::ₘ spots) := by
  have hsound := h.sound t (List.mem_of_getElem? hbound.timer)
  have ht' : (s.release e).timers[(s.entries e).payload]? = some t.finish := by
    change (s.timers.modify (s.entries e).payload Timer.finish)[(s.entries e).payload]? = _
    rw [List.getElem?_modify_eq, hbound.timer]
    rfl
  have hentry : (s.release e).entries e =
      { s.entries e with active := false, cancelled := false, gen := (s.entries e).gen + 1 } :=
      Function.update_self ..
  refine h.change hbound (fun e' he' => Function.update_of_ne he' ..) rfl (fun k hk => ?_) ht'
    ⟨hsound.fired, hsound.past, hsound.once, hsound.cancels, hsound.destroyed,
    fun _ => ⟨hdestroyed, hcancelled, honce⟩⟩ hbound.entry rfl
    ?_ (fun _ => ?_) ?_ nofun (.inl ⟨rfl, ?_⟩)
  · change (s.timers.modify (s.entries e).payload Timer.finish)[k]? = _
    rw [List.getElem?_modify_ne _ _ (Ne.symm hk)]
  · rw [hentry]
    exact Nat.le_succ _
  · rw [hentry]
    exact Nat.lt_succ_self _
  · rw [hentry]
  · rw [hentry]

theorem releaseGone (h : Ledger s now low ((e, .gone) ::ₘ spots)) : Ledger (s.release e) now low
    ((e, .free) ::ₘ spots) := by
  obtain ⟨t, hbound⟩ := h.bound nofun
  obtain ⟨hcounts, hcancelled, hperiod⟩ := hbound.at_
  exact h.release hbound hcounts.destroyed (fun hnone => absurd hnone hcancelled) fun hzero => absurd hzero hperiod

theorem releaseDone (h : Ledger s now low ((e, .done x live) ::ₘ spots))
    (hdone : live = false ∨ (s.entries e).period = 0) : Ledger (s.release e) now low ((e, .free) ::ₘ spots) := by
  obtain ⟨t, hbound⟩ := h.bound nofun
  have hat := hbound.at_
  cases live with
  | true =>
    obtain ⟨hcounts, -, -, honce⟩ := hat
    have hzero : t.period = 0 := hbound.period.trans (hdone.resolve_left nofun)
    rw [if_pos hzero] at hcounts
    exact h.release hbound hcounts.destroyed (fun _ => ⟨hzero, honce hzero⟩) fun _ => .inl (honce hzero)
  | false =>
    obtain ⟨hcounts, hcancelled, honce⟩ := hat
    refine h.release hbound hcounts.destroyed (fun hnone => absurd hnone hcancelled) fun hzero => .inr ?_
    obtain ⟨c, hc⟩ := Option.ne_none_iff_exists'.mp hcancelled
    exact ⟨c, hc, by rw [hcounts.cancel c hc]; exact honce hzero⟩

theorem place {free : List Nat} {delay period : Nat} (h : Ledger s now low ((e, .free) ::ₘ spots))
    (hnow : s.wheel.now = now)
    (hlow : low ≤ now + delay) :
    Ledger (s.place e free delay period) now low ((e, .armed (now + delay)) ::ₘ spots) := by
  subst hnow
  have hother := h.others
  have hinactive : (s.entries e).active = false := by
    rcases h.fits _ (mem_cons_self _ _) with ⟨-, hactive⟩ | ⟨t, hbound⟩
    · exact hactive
    · exact hbound.at_.elim
  let t : Timer := { entry := e, gen := (s.entries e).gen, first := s.wheel.now + delay, period }
  have hentry : (s.place e free delay period).entries e =
      { s.entries e with period, cancelled := false, active := true, payload := s.timers.length } :=
      Function.update_self ..
  have hentries : ∀ e', e' ≠ e → (s.place e free delay period).entries e' = s.entries e' :=
    fun e' he' => Function.update_of_ne he' ..
  have htimers : (s.place e free delay period).timers = s.timers ++ [t] := rfl
  have hnew : (s.timers ++ [t])[s.timers.length]? = some t := by
    rw [List.getElem?_append_right (Nat.le_refl _), Nat.sub_self]
    rfl
  have hold : ∀ k t', s.timers[k]? = some t' → (s.timers ++ [t])[k]? = some t' := fun k t' hk => by
    rw [List.getElem?_append_left (List.getElem?_eq_some_iff.mp hk).1]
    exact hk
  refine ⟨?_, fun x hx => ?_, fun x hx => ?_, fun t' ht' => ?_, fun k t' hk hrun => ?_, fun t' ht' => ?_,
    fun e' he' => ?_⟩
  · exact h.nodup_moved
  · rcases mem_cons.mp hx with rfl | hin
    · exact h.made (e, .free) (mem_cons_self _ _)
    · exact h.made x (mem_cons_of_mem hin)
  · rcases mem_cons.mp hx with rfl | hin
    · refine .inr ⟨t, ?_, rfl, ?_, ?_, rfl, ?_, ?_, ⟨rfl, rfl, nofun⟩, ?_, hlow, fun _ => rfl⟩
      · rw [hentry]
        exact hnew
      · rw [hentry]
      · rw [hentry]
      · rw [hentry]
      · rw [hentry]
        exact ⟨nofun, fun hc => absurd rfl hc⟩
      · change s.wheel.now + delay = s.wheel.now + delay + 0 * period
        rw [Nat.zero_mul, Nat.add_zero]
    · have hne := hother x hin
      rcases h.fits x (mem_cons_of_mem hin) with ⟨hfree, hactive⟩ | ⟨u, hu⟩
      · exact .inl ⟨hfree, (hentries _ hne).symm ▸ hactive⟩
      · have hsame := hentries _ hne
        refine .inr ⟨u, ?_, hu.entry, ?_, ?_, hu.running, ?_, ?_, hu.at_⟩
        · rw [hsame]
          exact hold _ _ hu.timer
        · rw [hsame]
          exact hu.gen
        · rw [hsame]
          exact hu.period
        · rw [hsame]
          exact hu.active
        · rw [hsame]
          exact hu.flag
  · rcases List.mem_append.mp ht' with hin | hin
    · exact h.sound t' hin
    · rw [List.mem_singleton.mp hin]
      exact ⟨rfl, fun _ hn => absurd hn (Nat.not_lt_zero _), fun _ => Nat.zero_le _, nofun, Nat.zero_le _,
        nofun⟩
  · rw [htimers] at hk
    rcases lt_or_ge k s.timers.length with hlt | hge
    · rw [List.getElem?_append_left hlt] at hk
      obtain ⟨hown, sp', hsp', hin⟩ := h.running k t' hk hrun
      have hne : t'.entry ≠ e := by
        intro heq
        rw [heq] at hin
        rcases mem_cons.mp hin with hhead | hin
        · exact hsp' (Prod.ext_iff.mp hhead).2
        · exact hother _ hin rfl
      refine ⟨by rw [hentries _ hne, hown], sp', hsp', ?_⟩
      rcases mem_cons.mp hin with heq | hin
      · exact absurd (congrArg Prod.fst heq) hne
      · exact mem_cons_of_mem hin
    · have hk' : k = s.timers.length := by
        have hlt := (List.getElem?_eq_some_iff.mp hk).1
        rw [List.length_append, List.length_singleton] at hlt
        omega
      rw [hk', hnew] at hk
      obtain rfl := Option.some.inj hk
      exact ⟨by rw [show t.entry = e from rfl, hentry, hk'], .armed _, nofun, mem_cons_self _ _⟩
  · rcases List.mem_append.mp ht' with hin | hin
    · obtain ⟨hle, hlt⟩ := h.gens t' hin
      by_cases heq : t'.entry = e
      · rw [heq] at hle hlt ⊢
        rw [hentry]
        exact ⟨hle, hlt⟩
      · rw [hentries _ heq]
        exact ⟨hle, hlt⟩
    · rw [List.mem_singleton.mp hin, show t.entry = e from rfl, hentry]
      exact ⟨le_rfl, nofun⟩
  · have hlt := h.made (e, .free) (mem_cons_self _ _)
    rw [hentries e' (Nat.ne_of_gt (hlt.trans_le he'))]
    exact h.fresh e' he'

theorem congr (h : Ledger s now low spots) (hentries : s'.entries = s.entries) (htimers : s'.timers = s.timers)
    (hmade : s'.made = s.made) : Ledger s' now low spots := by
  refine ⟨h.nodup, hmade ▸ h.made, fun x hx => ?_, htimers ▸ h.sound, ?_, ?_, ?_⟩
  · rcases h.fits x hx with hfree | ⟨t, ht⟩
    · exact .inl (hentries ▸ hfree)
    · exact .inr ⟨t, by rw [htimers, hentries]; exact ht.timer, ht.entry, hentries ▸ ht.gen,
        hentries ▸ ht.period, ht.running, hentries ▸ ht.active, hentries ▸ ht.flag, ht.at_⟩
  · rw [hentries, htimers]
    exact h.running
  · rw [hentries, htimers]
    exact h.gens
  · rw [hentries, hmade]
    exact h.fresh

theorem raise (h : Ledger s now low spots) (low' : Nat) (hlow : ∀ e x, (e, .armed x) ∈ spots → low' ≤ x) :
    Ledger s now low' spots := by
  refine ⟨h.nodup, h.made, fun x hx => ?_, h.sound, h.running, h.gens, h.fresh⟩
  obtain ⟨e, sp⟩ := x
  rcases h.fits _ hx with hfree | ⟨t, ht⟩
  · exact .inl hfree
  · refine .inr ⟨t, ht.timer, ht.entry, ht.gen, ht.period, ht.running, ht.active, ht.flag, ?_⟩
    have hat := ht.at_
    cases sp with
    | armed x => exact ⟨hat.1, hat.2.1, hlow e x hx, hat.2.2.2⟩
    | done x live => cases live <;> exact hat
    | _ => exact hat

theorem clock (h : Ledger s now low spots) (hspots : ∀ x ∈ spots, x.2 = .free ∨ ∃ e, x.2 = .armed e) :
    Ledger s (now + 1) low spots := by
  refine ⟨h.nodup, h.made, fun x hx => ?_, fun t ht => ?_, h.running, h.gens, h.fresh⟩
  · rcases h.fits x hx with hfree | ⟨t, ht⟩
    · exact .inl hfree
    · refine .inr ⟨t, ht.timer, ht.entry, ht.gen, ht.period, ht.running, ht.active, ht.flag, ?_⟩
      have hat := ht.at_
      rcases hspots x hx with hsp | ⟨e, hsp⟩
      · rw [hsp] at hat
        exact hat.elim
      · rw [hsp] at hat ⊢
        exact hat
  · have hsound := h.sound t ht
    exact ⟨hsound.fired, fun n hn => Nat.lt_succ_of_lt (hsound.past n hn), hsound.once, hsound.cancels,
      hsound.destroyed, hsound.ended⟩

theorem grow {cfg : Config} (h : Ledger s now low spots) :
    Ledger (s.grow cfg) now low (freeSpots (List.range' s.made cfg.chunk) + spots) := by
  have hnew : ∀ x ∈ freeSpots (List.range' s.made cfg.chunk), s.made ≤ x.1 ∧ x.1 < s.made + cfg.chunk ∧
      x.2 = .free := by
    intro x hx
    obtain ⟨e, he, rfl⟩ := List.mem_map.mp (mem_coe.mp hx)
    obtain ⟨hle, hlt⟩ := List.mem_range'_1.mp he
    exact ⟨hle, hlt, rfl⟩
  refine ⟨?_, fun x hx => ?_, fun x hx => ?_, h.sound, fun k t hk hrun => ?_, h.gens, fun e he => ?_⟩
  · rw [map_add, nodup_add]
    refine ⟨?_, h.nodup, disjoint_left.mpr fun he hin => ?_⟩
    · rw [freeSpots, map_coe, List.map_map, coe_nodup]
      exact (List.map_id _).symm ▸ List.nodup_range'
    · obtain ⟨x, hx, rfl⟩ := mem_map.mp he
      obtain ⟨y, hy, heq⟩ := mem_map.mp hin
      have hlt := h.made y hy
      have hge := (hnew x hx).1
      omega
  · rcases mem_add.mp hx with hin | hin
    · exact (hnew x hin).2.1
    · exact (h.made x hin).trans_le (Nat.le_add_right _ _)
  · rcases mem_add.mp hx with hin | hin
    · exact .inl ⟨(hnew x hin).2.2, h.fresh x.1 (hnew x hin).1⟩
    · rcases h.fits x hin with hfree | ⟨t, ht⟩
      · exact .inl hfree
      · exact .inr ⟨t, ht.timer, ht.entry, ht.gen, ht.period, ht.running, ht.active, ht.flag, ht.at_⟩
  · obtain ⟨hown, sp, hsp, hin⟩ := h.running k t hk hrun
    exact ⟨hown, sp, hsp, mem_add.mpr (.inr hin)⟩
  · exact h.fresh e ((Nat.le_add_right _ _).trans he)

end

end Ledger

structure Sound (s : State) : Prop where
  placed : Placed 1 s.wheel
  ledger : Ledger s s.wheel.now s.wheel.now s.spots

section

variable {cfg : Config} {s s' : State} {now : Nat} {spots : Multiset (Nat × Spot)} {e : Nat}

theorem rest_release : (s.release e).rest = (e, .free) ::ₘ s.rest := by
  rw [rest, rest, ← cons_add]
  rfl

theorem insert_spec (it : TimingItem Nat) (hplaced : Placed 1 s.wheel) (hnow : s.wheel.now ≤ it.expiry) :
    Placed 1 (s.wheel.insert it) ∧ (s.wheel.insert it).items = it ::ₘ s.wheel.items ∧
      (s.wheel.insert it).now = s.wheel.now := hplaced.insert it (by decide) (by decide) hnow

namespace Sound

theorem start : Sound {} :=
  ⟨Placed.start, by
    rw [spots, rest, items_start]
    exact ⟨nodup_zero, fun _ hx => absurd hx (notMem_zero _), fun _ hx => absurd hx (notMem_zero _),
      nofun, nofun, nofun, fun _ _ => rfl⟩⟩

theorem place {free : List Nat} {delay period : Nat} (h : Sound s) (hfree : s.free = e :: free) :
    Sound (s.place e free delay period) := by
  obtain ⟨hplaced, hitems, hnow⟩ := insert_spec ⟨s.wheel.now + delay, e⟩ h.placed (Nat.le_add_right _ _)
  have hspots : s.spots = (e, .free) ::ₘ (freeSpots free + s.wheel.items.map armed + s.flight) := by
    rw [spots, rest, hfree, ← cons_add, ← cons_add]
    rfl
  have hledger := h.ledger
  rw [hspots] at hledger
  refine ⟨hplaced, ?_⟩
  have hspots' : (s.place e free delay period).spots =
      (e, .armed (s.wheel.now + delay)) ::ₘ (freeSpots free + s.wheel.items.map armed + s.flight) := by
    change freeSpots free + (s.wheel.insert ⟨s.wheel.now + delay, e⟩).items.map armed + s.flight = _
    rw [hitems, map_cons, add_cons, cons_add]
    rfl
  rw [hspots', show (s.place e free delay period).wheel.now = s.wheel.now from hnow]
  exact hledger.place rfl (Nat.le_add_right _ _)

theorem grow (h : Sound s) : Sound (s.grow cfg) := by
  refine ⟨h.placed, ?_⟩
  have hspots : (s.grow cfg).spots = freeSpots (List.range' s.made cfg.chunk) + s.spots := by
    change freeSpots ((List.range' s.made cfg.chunk).reverse ++ s.free) + s.wheel.items.map armed + s.flight = _
    rw [spots, rest, freeSpots, List.map_append, ← coe_add, List.map_reverse,
      coe_eq_coe.mpr (List.reverse_perm _), add_assoc, add_assoc, add_assoc]
    rfl
  rw [hspots]
  exact h.ledger.grow

theorem arm {delay period : Int} (h : Sound s) (hstep : s.arm cfg delay period = some s') : Sound s' := by
  simp only [State.arm] at hstep
  have hready : Sound (if s.free = [] then s.grow cfg else s) := by
    split
    · exact h.grow
    · exact h
  split at hstep
  · cases hstep
  · next e free hfree =>
    cases hstep
    exact hready.place hfree

theorem cancelEntry {k : Nat} {t : Timer} (h : Sound s) (hk : s.timers[k]? = some t) :
    Sound (s.cancelEntry t.entry t.gen) := by
  rw [State.cancelEntry]
  split
  · next hmatch =>
    obtain ⟨hactive, hgen⟩ := hmatch
    have hrun : t.ended = false := by
      by_contra hended
      have hlt := (h.ledger.gens t (List.mem_of_getElem? hk)).2 (Bool.eq_true_of_not_eq_false hended)
      omega
    obtain ⟨hown, sp, hsp, hin⟩ := h.ledger.running k t hk hrun
    obtain ⟨spots, hspots⟩ := exists_cons_of_mem hin
    have hledger := h.ledger
    rw [hspots] at hledger
    obtain ⟨t', hbound⟩ := hledger.bound hsp
    refine ⟨h.placed, ?_⟩
    change Ledger _ s.wheel.now s.wheel.now s.spots
    rw [hspots]
    exact hledger.cancel hbound hsp
  · exact h

theorem popAll {due : List (TimingItem Nat)} {low : Nat} (h : Ledger s now low (↑(due.map armed) + spots))
    (hnow : ∀ it ∈ due, it.expiry + 1 = now) :
    Ledger (due.foldl (fun s it => s.onPayload it.val Timer.pop) s) now low
      (↑(due.map fun it => (it.val, Spot.due it.expiry !(s.entries it.val).cancelled)) + spots) := by
  induction due generalizing s spots with
  | nil => exact h
  | cons it due ih =>
    rw [List.map_cons, ← cons_coe, cons_add] at h
    have hpopped := Ledger.pop (x := it.expiry) h (hnow it List.mem_cons_self)
    rw [← add_cons] at hpopped
    rw [List.map_cons, ← cons_coe, cons_add, ← add_cons]
    exact ih hpopped fun x hx => hnow x (List.mem_cons_of_mem it hx)

theorem free_popAll {due : List (TimingItem Nat)} :
    (due.foldl (fun s it => s.onPayload it.val Timer.pop) s).free = s.free := by
  induction due generalizing s with
  | nil => rfl
  | cons it due ih => exact ih

theorem popDue (h : Sound s) (hidle : s.phase = .idle) : Sound s.popDue := by
  obtain ⟨hplaced, hitems, hnow, hdue, hlater⟩ := tick_placed h.placed (by decide) (by decide)
  have hflight : s.flight = 0 := by
    rw [flight, hidle]
    rfl
  have hspots : s.spots = ↑(s.wheel.tick.1.map armed) + (freeSpots s.free + s.wheel.tick.2.items.map armed) := by
    rw [spots, rest, hflight, hitems, map_add, map_coe, add_zero, add_left_comm]
  have hfreeSpots : ∀ x ∈ freeSpots s.free, x.2 = .free := by
    intro x hx
    obtain ⟨e, -, rfl⟩ := List.mem_map.mp (mem_coe.mp hx)
    rfl
  have hledger := h.ledger
  rw [hspots] at hledger
  have hclock := hledger.clock fun x hx => by
    rcases mem_add.mp hx with hin | hin
    · obtain ⟨it, -, rfl⟩ := List.mem_map.mp (mem_coe.mp hin)
      exact .inr ⟨it.expiry, rfl⟩
    rcases mem_add.mp hin with hin | hin
    · exact .inl (hfreeSpots x hin)
    · obtain ⟨it, -, rfl⟩ := mem_map.mp hin
      exact .inr ⟨it.expiry, rfl⟩
  have hpopped := (popAll hclock fun it hit => by rw [hdue it hit]).raise (s.wheel.now + 1) fun e x hx => by
    rcases mem_add.mp hx with hin | hin
    · obtain ⟨it, -, heq⟩ := List.mem_map.mp (mem_coe.mp hin)
      cases heq
    rcases mem_add.mp hin with hin | hin
    · cases hfreeSpots _ hin
    · obtain ⟨it, hit, heq⟩ := mem_map.mp hin
      cases heq
      exact hlater it hit
  refine ⟨hplaced, ?_⟩
  have hflight' : s.popDue.flight =
      ↑(s.wheel.tick.1.map fun it => (it.val, Spot.due it.expiry !(s.entries it.val).cancelled)) := by
    have hmap : (s.wheel.tick.1.map fun it => (⟨it, !(s.entries it.val).cancelled⟩ : Due)).map Due.due =
        s.wheel.tick.1.map fun it => (it.val, Spot.due it.expiry !(s.entries it.val).cancelled) := by
      rw [List.map_map]
      rfl
    rw [flight, ← hmap]
    change ((if _ = [] then Phase.idle else _).spots : Multiset (Nat × Spot)) = _
    split
    · next hnone =>
      rw [hnone]
      rfl
    · rfl
  have hspots' : s.popDue.spots =
    ↑(s.wheel.tick.1.map fun it => (it.val, Spot.due it.expiry !(s.entries it.val).cancelled)) +
      (freeSpots s.free + s.wheel.tick.2.items.map armed) := by
    rw [spots, hflight', add_comm]
    refine congrArg _ ?_
    change freeSpots (s.wheel.tick.1.foldl (fun s it => s.onPayload it.val Timer.pop) s).free + _ = _
    rw [free_popAll]
    rfl
  rw [hspots', show s.popDue.wheel.now = s.wheel.now + 1 from hnow]
  exact hpopped.congr rfl rfl rfl

theorem settleAll {batch : List Due} {late : List Nat} (hplaced : Placed 1 s.wheel) (hnow : s.wheel.now = now)
    (h : Ledger s now now (s.rest + (↑(batch.map Due.done) + ↑(late.map (·, Spot.late))))) :
    Placed 1 (batch.foldl settleOne (s, late)).1.wheel ∧
      (batch.foldl settleOne (s, late)).1.wheel.now = now ∧
      Ledger (batch.foldl settleOne (s, late)).1 now now
        ((batch.foldl settleOne (s, late)).1.rest + ↑((batch.foldl settleOne (s, late)).2.map (·, Spot.late))) := by
  induction batch generalizing s late with
  | nil =>
    rw [List.map_nil, coe_nil, zero_add] at h
    exact ⟨hplaced, hnow, h⟩
  | cons d batch ih =>
    rw [List.map_cons, ← cons_coe, cons_add, add_cons] at h
    have h : Ledger s now now ((d.item.val, .done d.item.expiry d.live) ::ₘ
      (s.rest + (↑(batch.map Due.done) + ↑(late.map (·, Spot.late))))) := h
    rw [List.foldl_cons, settleOne]
    dsimp only
    split
    · next hrecycle =>
      refine ih hplaced hnow ?_
      rw [rest_release, cons_add]
      exact h.releaseDone (by simpa using hrecycle)
    · next hkeep =>
      obtain ⟨hlive, hperiod⟩ := not_or.mp hkeep
      rw [Bool.not_eq_true', Bool.not_eq_false] at hlive
      rw [hlive] at h
      split
      · next hflag =>
        refine ih hplaced hnow ?_
        rw [List.map_append, ← coe_add, ← add_assoc, ← add_assoc, List.map_singleton, coe_singleton,
          add_comm _ {_}, singleton_add]
        rw [← add_assoc] at h
        exact h.cancelledLate hperiod hflag
      · next hflag =>
        have hagain := h.armedAgain hperiod (Bool.eq_false_iff.mpr hflag) rfl
        obtain ⟨t, hbound⟩ := hagain.bound nofun
        obtain ⟨hplaced', hitems', hnow'⟩ :=
          insert_spec ⟨d.item.expiry + (s.entries d.item.val).period, d.item.val⟩ hplaced (hnow ▸ hbound.at_.2.2.1)
        refine ih hplaced' (hnow'.trans hnow) ?_
        have hrest : ({ s with
            wheel := s.wheel.insert ⟨d.item.expiry + (s.entries d.item.val).period, d.item.val⟩ } : State).rest =
            (d.item.val, .armed (d.item.expiry + (s.entries d.item.val).period)) ::ₘ s.rest := by
          change freeSpots s.free + (s.wheel.insert _).items.map armed = _
          rw [hitems', map_cons, add_cons]
          rfl
        rw [hrest, cons_add]
        exact hagain.congr rfl rfl rfl

theorem settle {batch : List Due} (h : Sound s) (hphase : s.phase = .firing batch []) : Sound (s.settle batch) := by
  have hledger := h.ledger
  rw [spots, show s.flight = ↑(batch.map Due.done) + ↑(([] : List Nat).map (·, Spot.late)) by
    rw [flight, hphase]
    rfl] at hledger
  obtain ⟨hplaced, hnow, hdone⟩ := settleAll h.placed rfl hledger
  have hflight : (s.settle batch).flight = ↑((batch.foldl settleOne (s, [])).2.map (·, Spot.late)) := by
    change ((if _ = [] then Phase.idle else _).spots : Multiset (Nat × Spot)) = _
    split
    · next hnone =>
      rw [hnone]
      rfl
    · rfl
  refine ⟨hplaced, ?_⟩
  rw [spots, hflight, show (s.settle batch).wheel.now = s.wheel.now from hnow]
  exact hdone.congr rfl rfl rfl

theorem releaseAll {late : List Nat} (h : Ledger s now now (s.rest + ↑(late.map (·, Spot.gone)))) :
    Ledger (late.foldl release s) now now (late.foldl release s).rest ∧
      (late.foldl release s).wheel = s.wheel := by
  induction late generalizing s with
  | nil => exact ⟨(add_zero s.rest) ▸ h, rfl⟩
  | cons e late ih =>
    rw [List.map_cons, ← cons_coe, add_cons] at h
    have hreleased := h.releaseGone
    rw [← cons_add, ← rest_release] at hreleased
    exact ih hreleased

theorem releaseLate {late : List Nat} (h : Sound s) (hphase : s.phase = .lateDestroying late []) :
    Sound (s.releaseLate late) := by
  have hledger := h.ledger
  rw [spots, show s.flight = ↑(late.map (·, Spot.gone)) by
    rw [flight, hphase]
    exact congrArg _ (List.append_nil _)] at hledger
  obtain ⟨hreleased, hwheel⟩ := releaseAll hledger
  refine ⟨(hwheel.symm ▸ h.placed : Placed 1 (late.foldl release s).wheel), ?_⟩
  rw [spots, show (s.releaseLate late).flight = 0 from rfl, add_zero,
    show (s.releaseLate late).wheel = s.wheel from hwheel]
  exact hreleased.congr rfl rfl rfl

/-- One entry in flight goes on; the free list and the wheel are as they were. -/
theorem inFlight {e : Nat} {sp sp' : Spot} {f : Timer → Timer} {phase : Phase} (h : Sound s)
    (hflight : s.flight = (e, sp) ::ₘ spots)
    (hnext : Ledger s s.wheel.now s.wheel.now ((e, sp) ::ₘ (s.rest + spots)) →
      Ledger (s.onPayload e f) s.wheel.now s.wheel.now ((e, sp') ::ₘ (s.rest + spots)))
    (hflight' : (phase.spots : Multiset (Nat × Spot)) = (e, sp') ::ₘ spots) :
    Sound ((s.onPayload e f).at_ phase) := by
  refine ⟨h.placed, ?_⟩
  have hledger := h.ledger
  rw [State.spots, hflight, add_cons] at hledger
  change Ledger _ s.wheel.now s.wheel.now (s.rest + phase.spots)
  rw [hflight', add_cons]
  exact (hnext hledger).congr rfl rfl rfl

theorem split_spots {xs ys : List (Nat × Spot)} {x : Nat × Spot} :
    ((xs ++ x :: ys : List _) : Multiset (Nat × Spot)) = x ::ₘ ↑(xs ++ ys) :=
  coe_eq_coe.mpr List.perm_middle

theorem go (h : Sound s) (hstep : s.go = some s') : Sound s' := by
  cases hphase : s.phase with
  | idle =>
    simp only [State.go, hphase] at hstep
    cases hstep
  | firing done todo =>
    cases todo with
    | nil =>
      simp only [State.go, hphase, Option.some.injEq] at hstep
      exact hstep ▸ h.settle hphase
    | cons d todo =>
      have hflight : s.flight = d.due ::ₘ ↑(done.map Due.done ++ todo.map Due.due) := by
        rw [flight, hphase]
        exact split_spots
      have hmoved : ((Phase.firing (done ++ [d]) todo).spots : Multiset (Nat × Spot)) =
          d.done ::ₘ ↑(done.map Due.done ++ todo.map Due.due) := by
        rw [Phase.spots, List.map_append, List.append_assoc]
        exact split_spots
      cases hlive : d.live with
      | false =>
        simp only [State.go, hphase, hlive, Bool.false_eq_true, if_false, Option.some.injEq] at hstep
        rw [Due.due, hlive] at hflight
        rw [Due.done, hlive] at hmoved
        exact hstep ▸ h.inFlight hflight Ledger.destroyDead hmoved
      | true =>
        simp only [State.go, hphase, hlive, if_true, Option.some.injEq] at hstep
        rw [Due.due, hlive] at hflight
        rw [Due.done, hlive] at hmoved
        refine hstep ▸ h.inFlight hflight Ledger.fire ?_
        split
        · rw [Phase.spots, hlive]
          exact split_spots
        · exact hmoved
  | destroying done d todo =>
    simp only [State.go, hphase, Option.some.injEq] at hstep
    have hflight : s.flight = (d.item.val, .spent d.item.expiry d.live) ::ₘ ↑(done.map Due.done ++
        todo.map Due.due) := by
      rw [State.flight, hphase]
      exact split_spots
    refine hstep ▸ h.inFlight hflight Ledger.destroySpent ?_
    rw [Phase.spots, List.map_append, List.append_assoc]
    exact split_spots
  | lateDestroying done todo =>
    cases todo with
    | nil =>
      simp only [State.go, hphase, Option.some.injEq] at hstep
      exact hstep ▸ h.releaseLate hphase
    | cons e todo =>
      simp only [State.go, hphase, Option.some.injEq] at hstep
      have hflight : s.flight = (e, .late) ::ₘ ↑(done.map (·, Spot.gone) ++ todo.map (·, Spot.late)) := by
        rw [State.flight, hphase]
        exact split_spots
      refine hstep ▸ h.inFlight hflight Ledger.destroyLate ?_
      rw [Phase.spots, List.map_append, List.append_assoc]
      exact split_spots

theorem step {a : Label} (h : Sound s) (hstep : State.step cfg s a = some s') : Sound s' := by
  cases a with
  | scheduleAfter delay => exact h.arm hstep
  | scheduleEvery period => exact h.arm hstep
  | cancel k =>
    obtain ⟨t, hk, rfl⟩ := Option.map_eq_some_iff.mp hstep
    exact h.cancelEntry hk
  | tick =>
    simp only [State.step, Option.ite_none_right_eq_some, Option.some.injEq] at hstep
    exact hstep.2 ▸ h.popDue hstep.1
  | go => exact h.go hstep

theorem of_reachable (hreach : Machine.Reachable (State.step cfg) {} s) : Sound s :=
  hreach.invariant start fun _ _ _ h hstep => h.step hstep

end Sound

def Phase.left : Phase → Nat
  | .idle => 0
  | .firing done todo => 2 * todo.length + 1 + (done.length + todo.length + 2)
  | .destroying done _ todo => 2 * todo.length + 2 + (done.length + 1 + todo.length + 2)
  | .lateDestroying _ todo => todo.length + 1

theorem late_settleAll (s : State) (batch : List Due) (late : List Nat) :
    (batch.foldl settleOne (s, late)).2.length ≤ late.length + batch.length := by
  induction batch generalizing s late with
  | nil => exact le_rfl
  | cons d batch ih =>
    have hone : ((settleOne (s, late) d).2).length ≤ late.length + 1 := by
      rw [settleOne]
      dsimp only
      split
      · exact Nat.le_succ _
      · split
        · rw [List.length_append]
          exact le_rfl
        · exact Nat.le_succ _
    rw [List.foldl_cons, List.length_cons]
    refine (ih (settleOne (s, late) d).1 (settleOne (s, late) d).2).trans ?_
    omega

theorem go_left (hbusy : s.phase ≠ .idle) : ∃ s', s.go = some s' ∧ s'.phase.left < s.phase.left := by
  cases hphase : s.phase with
  | idle => exact absurd hphase hbusy
  | firing done todo =>
    cases todo with
    | nil =>
      refine ⟨s.settle done, by simp only [go, hphase], ?_⟩
      have hlate := late_settleAll s done []
      change (if _ = [] then Phase.idle else _).left < _
      split
      · exact Nat.zero_lt_succ _
      · rw [Phase.left, Phase.left]
        simp only [List.length_nil] at hlate ⊢
        omega
    | cons d todo =>
      simp only [go, hphase]
      split
      · refine ⟨_, rfl, ?_⟩
        change (if _ = 0 then Phase.destroying done d todo else Phase.firing (done ++ [d]) todo).left < _
        split <;> simp only [Phase.left, List.length_append, List.length_cons, List.length_nil] <;> omega
      · refine ⟨_, rfl, ?_⟩
        change (Phase.firing (done ++ [d]) todo).left < _
        simp only [Phase.left, List.length_append, List.length_cons, List.length_nil]
        omega
  | destroying done d todo =>
    simp only [go, hphase]
    refine ⟨_, rfl, ?_⟩
    change (Phase.firing (done ++ [d]) todo).left < _
    simp only [Phase.left, List.length_append, List.length_cons, List.length_nil]
    omega
  | lateDestroying done todo =>
    cases todo with
    | nil => exact ⟨s.releaseLate done, by simp only [go, hphase], Nat.zero_lt_succ _⟩
    | cons e todo =>
      simp only [go, hphase]
      exact ⟨_, rfl, Nat.lt_succ_self _⟩

theorem armed_of_idle {k : Nat} {t : Timer} (h : Sound s) (hk : s.timers[k]? = some t) (hidle : s.phase = .idle)
    (hrun : t.ended = false) : s.wheel.now ≤ t.first + t.fired.length * t.period ∧
    (t.period = 0 → t.fired.length = 0) := by
  obtain ⟨hown, sp, hsp, hin⟩ := h.ledger.running k t hk hrun
  rcases h.ledger.fits _ hin with ⟨hfree, -⟩ | ⟨t', hbound⟩
  · exact absurd hfree hsp
  have htimer := hbound.timer
  rw [hown, hk] at htimer
  obtain rfl := Option.some.inj htimer
  rw [spots, rest, flight, hidle, show ((Phase.idle.spots : List _) : Multiset (Nat × Spot)) = 0 from rfl,
    add_zero] at hin
  rcases mem_add.mp hin with hin | hin
  · obtain ⟨e, -, heq⟩ := List.mem_map.mp (mem_coe.mp hin)
    exact absurd (congrArg Prod.snd heq).symm hsp
  · obtain ⟨it, -, heq⟩ := mem_map.mp hin
    have hat := hbound.at_
    rw [← show Spot.armed it.expiry = sp from congrArg Prod.snd heq] at hat
    obtain ⟨-, hexpiry, hle, honce⟩ := hat
    exact ⟨hexpiry ▸ hle, honce⟩

/-- Between two advances a timer that was not cancelled has fired as often as it was due. -/
theorem fired_iff {k : Nat} {t : Timer} (h : Sound s) (hk : s.timers[k]? = some t) (hidle : s.phase = .idle)
    (hnone : t.cancelled = none) (n : Nat) (hn : t.period = 0 → n = 0) :
    n < t.fired.length ↔ t.first + n * t.period < s.wheel.now := by
  have hsound := h.ledger.sound t (List.mem_of_getElem? hk)
  refine ⟨hsound.past n, fun hlt => ?_⟩
  cases hended : t.ended with
  | true =>
    obtain ⟨hzero, hone⟩ := (hsound.ended hended).2.1 hnone
    rw [hn hzero, hone]
    exact Nat.one_pos
  | false =>
    have hle := (armed_of_idle h hk hidle hended).1
    exact Nat.lt_of_mul_lt_mul_right (Nat.lt_of_add_lt_add_left (hlt.trans_le hle))

end

end Quark.TimerService
