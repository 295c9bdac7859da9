import Quark.Schedule
import Quark.Lib.Token

/-! One worker runs an activation, one run-queue position holds it, and while it is `Scheduled` somebody
still has to run it. Only `request_stop` may take an activation to `Scheduled` and tell nobody. -/
namespace Quark.Schedule

open Machine State Token

variable {C W : Type}

/-- Between the acquisition of `Running` and the store that gives it up. -/
def WorkerPc.Owns : WorkerPc → Prop
  | .drain | .closeOut | .yield => True
  | _ => False

/-- Who answers for a `Scheduled` activation: its run-queue position, a caller or a worker that has still
to enqueue it, or a worker that has taken it from the run-queue to run it. -/
inductive Place (C W : Type)
  | runQueue
  | caller (c : C)
  | worker (w : W)
  deriving DecidableEq, Repr

def CallerPc.demand : CallerPc → Option ExecState
  | .schedule => some .scheduled
  | _ => none

def WorkerPc.demand : WorkerPc → Option ExecState
  | .acquire | .requeue => some .scheduled
  | .drain | .closeOut | .yield => some .running
  | _ => none

def State.demand (s : State C W) : Place C W → Option ExecState
  | .runQueue => if 0 < s.queued then some .scheduled else none
  | .caller c => (s.caller c).demand
  | .worker w => (s.worker w).demand

/-- At most one worker runs the activation, it is in at most one run-queue position, and while it is
`Scheduled` somebody will run it. -/
structure Safe (s : State C W) : Prop where
  one_owner : ∀ w w', (s.worker w).Owns → (s.worker w').Owns → w = w'
  one_position : s.queued ≤ 1
  scheduled : s.exec = .scheduled → 0 < s.queued ∨ (∃ c, s.caller c = .schedule) ∨
    ∃ w, s.worker w = .requeue ∨ s.worker w = .acquire

/-- `request_stop` does not find the activation `Parked`. -/
def Sound (s : State C W) : Label C W → Prop
  | .caller c => s.caller c = .stop → s.exec ≠ .parked
  | _ => True

instance [DecidableEq C] [DecidableEq W] (s : State C W) : (l : Label C W) → Decidable (Sound s l)
  | .caller c => inferInstanceAs (Decidable (s.caller c = .stop → s.exec ≠ .parked))
  | .call _ _ | .chained _ | .select _ | .worker _ | .drained _ _ | .closeOut _ _ | .probed _ _ => .isTrue trivial

structure Inv (s : State C W) : Prop where
  exclusive : Exclusive s.exec s.demand
  one_position : s.queued ≤ 1
  answered : Answered (· = .scheduled) s.exec s.demand

section

variable {s s' : State C W} {c : C} {w : W} {x y : Place C W} {e : ExecState}

theorem demand_cases (h : s.demand x = some e) : e = .scheduled ∨ e = .running := by
  cases x with
  | runQueue =>
    simp only [demand] at h
    split at h
    · cases h
      exact Or.inl rfl
    · cases h
  | caller c =>
    simp only [demand, CallerPc.demand] at h
    split at h
    · cases h
      exact Or.inl rfl
    · cases h
  | worker w =>
    simp only [demand, WorkerPc.demand] at h
    split at h
    · cases h
      exact Or.inl rfl
    · cases h
      exact Or.inl rfl
    · cases h
      exact Or.inr rfl
    · cases h
      exact Or.inr rfl
    · cases h
      exact Or.inr rfl
    · cases h

theorem WorkerPc.Owns.demand {pc : WorkerPc} (h : pc.Owns) : pc.demand = some .running := by
  cases pc with
  | drain | closeOut | yield => rfl
  | _ => cases h

theorem queued_eq_zero (h : s.demand .runQueue = none) : s.queued = 0 := by
  by_contra hne
  simp only [demand, if_pos (Nat.pos_of_ne_zero hne)] at h
  cases h

theorem Inv.quiet (h : Inv s) (hscheduled : s.exec ≠ .scheduled) (hrunning : s.exec ≠ .running) (x : Place C W) :
    s.demand x = none := by
  refine h.exclusive.none (fun y hy => ?_) x
  rcases demand_cases hy with heq | heq
  · exact hscheduled heq
  · exact hrunning heq

theorem Inv.of_some (hothers : ∀ y, y ≠ x → s.demand y = none) (hx : s.demand x = some s.exec) (hq : s.queued ≤ 1) :
    Inv s :=
  ⟨exclusive_of_some hothers hx, hq, fun _ => ⟨x, hx⟩⟩

theorem Inv.of_none (hnone : ∀ y, s.demand y = none) (hexec : s.exec ≠ .scheduled) : Inv s :=
  ⟨exclusive_of_none (fun y _ => hnone y) (hnone .runQueue),
    by simp [queued_eq_zero (hnone .runQueue)], fun heq => absurd heq hexec⟩

theorem Inv.safe (h : Inv s) : Safe s := by
  refine ⟨fun w w' hw hw' => ?_, h.one_position, fun hexec => ?_⟩
  · have hown : s.demand (.worker w) = some .running := hw.demand
    have hown' : s.demand (.worker w') = some .running := hw'.demand
    exact Place.worker.inj (h.exclusive.unique hown hown')
  · obtain ⟨x, hx⟩ := h.answered hexec
    rw [hexec] at hx
    cases x with
    | runQueue =>
      refine Or.inl (Nat.pos_of_ne_zero fun hzero => ?_)
      simp [demand, hzero] at hx
    | caller c =>
      refine Or.inr (Or.inl ⟨c, ?_⟩)
      cases hc : s.caller c with
      | schedule => rfl
      | _ => simp [demand, hc, CallerPc.demand] at hx
    | worker w =>
      refine Or.inr (Or.inr ⟨w, ?_⟩)
      cases hw : s.worker w with
      | acquire => exact Or.inr rfl
      | requeue => exact Or.inl rfl
      | _ => simp [demand, hw, WorkerPc.demand] at hx

theorem demand_queued_ne (n : Nat) (h : y ≠ .runQueue) :
    ({ s with queued := n } : State C W).demand y = s.demand y := by
  cases y with
  | runQueue => exact absurd rfl h
  | caller c | worker w => rfl

theorem Inv.setExec {e' : ExecState} (h : Inv s) (hscheduled : s.exec ≠ .scheduled) (hrunning : s.exec ≠ .running)
    (he' : e' ≠ .scheduled) : Inv { s with exec := e' } :=
  .of_none (h.quiet hscheduled hrunning) he'

section

variable [DecidableEq C]

theorem demand_setCaller_self (pc : CallerPc) : (s.setCaller c pc).demand (.caller c) = pc.demand := by
  simp [demand, setCaller]

theorem demand_setCaller_ne (pc : CallerPc) (h : y ≠ .caller c) : (s.setCaller c pc).demand y = s.demand y := by
  cases y with
  | runQueue | worker w => rfl
  | caller c' =>
    have hne : c' ≠ c := fun heq => h (by rw [heq])
    simp [demand, setCaller, Function.update_of_ne hne]

theorem Inv.callerStay {pc : CallerPc} (h : Inv s) (hpc : pc.demand = (s.caller c).demand) :
    Inv (s.setCaller c pc) := by
  have hsame : (s.setCaller c pc).demand = s.demand := by
    funext y
    by_cases hy : y = .caller c
    · rw [hy, demand_setCaller_self, hpc]
      rfl
    · exact demand_setCaller_ne pc hy
  refine ⟨?_, h.one_position, ?_⟩
  · rw [hsame]
    exact h.exclusive
  · rw [hsame]
    exact h.answered

theorem Inv.raise (h : Inv s) (hscheduled : s.exec ≠ .scheduled) (hrunning : s.exec ≠ .running) (c : C) :
    Inv ({ s with exec := .scheduled }.setCaller c .schedule) := by
  have hquiet := h.quiet hscheduled hrunning
  refine .of_some (x := .caller c) (fun y hy => ?_) (demand_setCaller_self _) h.one_position
  rw [demand_setCaller_ne _ hy]
  exact hquiet y

theorem Inv.callerEnqueue (h : Inv s) (hc : s.caller c = .schedule) :
    Inv ({ s with queued := s.queued + 1 }.setCaller c .idle) := by
  have hself : s.demand (.caller c) = some .scheduled := by simp [demand, hc, CallerPc.demand]
  have hqueue := queued_eq_zero (h.exclusive.others hself (y := .runQueue) (by simp))
  have hexec := h.exclusive.cell_eq hself
  refine .of_some (x := .runQueue) (fun y hy => ?_) ?_ ?_
  · by_cases hyc : y = .caller c
    · rw [hyc]
      exact demand_setCaller_self _
    · rw [demand_setCaller_ne _ hyc, demand_queued_ne _ hy]
      exact h.exclusive.others hself hyc
  · simp [demand, setCaller, hexec]
  · simp [setCaller, hqueue]

end

section

variable [DecidableEq W]

theorem demand_setWorker_self (pc : WorkerPc) : (s.setWorker w pc).demand (.worker w) = pc.demand := by
  simp [demand, setWorker]

theorem demand_setWorker_ne (pc : WorkerPc) (h : y ≠ .worker w) : (s.setWorker w pc).demand y = s.demand y := by
  cases y with
  | runQueue | caller c => rfl
  | worker w' =>
    have hne : w' ≠ w := fun heq => h (by rw [heq])
    simp [demand, setWorker, Function.update_of_ne hne]

theorem Inv.workerStay {pc : WorkerPc} (h : Inv s) (hpc : pc.demand = (s.worker w).demand) :
    Inv (s.setWorker w pc) := by
  have hsame : (s.setWorker w pc).demand = s.demand := by
    funext y
    by_cases hy : y = .worker w
    · rw [hy, demand_setWorker_self, hpc]
      rfl
    · exact demand_setWorker_ne pc hy
  refine ⟨?_, h.one_position, ?_⟩
  · rw [hsame]
    exact h.exclusive
  · rw [hsame]
    exact h.answered

theorem Inv.workerEnqueue (h : Inv s) (hw : s.worker w = .requeue) :
    Inv ({ s with queued := s.queued + 1 }.setWorker w .away) := by
  have hself : s.demand (.worker w) = some .scheduled := by simp [demand, hw, WorkerPc.demand]
  have hqueue := queued_eq_zero (h.exclusive.others hself (y := .runQueue) (by simp))
  have hexec := h.exclusive.cell_eq hself
  refine .of_some (x := .runQueue) (fun y hy => ?_) ?_ ?_
  · by_cases hyw : y = .worker w
    · rw [hyw]
      exact demand_setWorker_self _
    · rw [demand_setWorker_ne _ hyw, demand_queued_ne _ hy]
      exact h.exclusive.others hself hyw
  · simp [demand, setWorker, hexec]
  · simp [setWorker, hqueue]

theorem Inv.select (h : Inv s) (hqueued : 0 < s.queued) :
    Inv ({ s with queued := s.queued - 1 }.setWorker w .acquire) := by
  have hself : s.demand .runQueue = some .scheduled := by simp [demand, hqueued]
  have hexec := h.exclusive.cell_eq hself
  have hone := h.one_position
  refine .of_some (x := .worker w) (fun y hy => ?_) ?_ ?_
  · rw [demand_setWorker_ne _ hy]
    by_cases hyq : y = .runQueue
    · have hzero : s.queued - 1 = 0 := by omega
      simp [hyq, demand, hzero]
    · rw [demand_queued_ne _ hyq]
      exact h.exclusive.others hself hyq
  · rw [demand_setWorker_self]
    simp [WorkerPc.demand, setWorker, hexec]
  · simp only [setWorker]
    omega

theorem Inv.workerClaim {pc : WorkerPc} {e e' : ExecState} (h : Inv s) (hw : s.demand (.worker w) = some e)
    (hpc : pc.demand = some e') : Inv ({ s with exec := e' }.setWorker w pc) := by
  refine .of_some (x := .worker w) (fun y hy => ?_) ?_ h.one_position
  · rw [demand_setWorker_ne _ hy]
    exact h.exclusive.others hw hy
  · rw [demand_setWorker_self, hpc]
    rfl

theorem Inv.workerTake (h : Inv s) (hscheduled : s.exec ≠ .scheduled) (hrunning : s.exec ≠ .running) (w : W) :
    Inv ({ s with exec := .running }.setWorker w .drain) := by
  refine .of_some (x := .worker w) (fun y hy => ?_) (demand_setWorker_self _) h.one_position
  rw [demand_setWorker_ne _ hy]
  exact h.quiet hscheduled hrunning y

theorem Inv.workerRelease {pc : WorkerPc} {e e' : ExecState} (h : Inv s) (hw : s.demand (.worker w) = some e)
    (hpc : pc.demand = none) (he' : e' ≠ .scheduled) : Inv ({ s with exec := e' }.setWorker w pc) := by
  refine .of_none (fun y => ?_) he'
  by_cases hy : y = .worker w
  · rw [hy, demand_setWorker_self, hpc]
  · rw [demand_setWorker_ne _ hy]
    exact h.exclusive.others hw hy

end

theorem CallerPc.demand_afterNotify {r : ExecState.NotifyStep} (h : r ≠ .ret true) :
    (CallerPc.afterNotify r).demand = none := by
  cases r with
  | goto pc => rfl
  | ret wake =>
    cases wake with
    | false => rfl
    | true => exact absurd rfl h

theorem Inv.readmit_from [DecidableEq C] {e : ExecState} (h : Inv s) (hc : (s.caller c).demand = none)
    (hscheduled : e ≠ .scheduled) (hrunning : e ≠ .running) :
    Inv ({ s with exec := (s.exec.cas e .scheduled).1 }.setCaller c
      (if (s.exec.cas e .scheduled).2 then .schedule else .idle)) := by
  unfold ExecState.cas
  by_cases hexec : s.exec = e
  · simp only [if_pos hexec]
    rw [← hexec] at hscheduled hrunning
    exact h.raise hscheduled hrunning c
  · simp only [if_neg hexec]
    exact h.callerStay (by rw [hc]; rfl)

theorem Inv.reacquire_from [DecidableEq W] {e : ExecState} (h : Inv s) (hw : (s.worker w).demand = none)
    (hscheduled : e ≠ .scheduled) (hrunning : e ≠ .running) :
    Inv ({ s with exec := (s.exec.cas e .running).1 }.setWorker w
      (if (s.exec.cas e .running).2 then .drain else .away)) := by
  unfold ExecState.cas
  by_cases hexec : s.exec = e
  · simp only [if_pos hexec]
    rw [← hexec] at hscheduled hrunning
    exact h.workerTake hscheduled hrunning w
  · simp only [if_neg hexec]
    exact h.workerStay (by rw [hw]; rfl)

theorem Inv.notify [DecidableEq C] {pc : ExecState.NotifyPc} (h : Inv s) (hc : s.caller c = .notify pc) :
    Inv ({ s with exec := (s.exec.notifyEnqueuedFast pc).1 }.setCaller c
      (.afterNotify (s.exec.notifyEnqueuedFast pc).2)) := by
  rcases s.exec.notifyEnqueuedFast_cases pc with ⟨hsame, hnot⟩ | ⟨hrest, hwake⟩
  · rw [hsame]
    exact h.callerStay (by rw [CallerPc.demand_afterNotify hnot, hc]; rfl)
  · rw [hwake]
    rcases hrest with hrest | hrest
    · exact h.raise (by simp [hrest]) (by simp [hrest]) c
    · exact h.raise (by simp [hrest]) (by simp [hrest]) c

theorem readmitFromParked_of_ne {e : ExecState} (h : e ≠ .parked) : e.readmitFromParked.1 = e := by
  simp [ExecState.readmitFromParked, ExecState.cas, h]

theorem Inv.stepCaller [DecidableEq C] (h : Inv s) (hstop : s.caller c = .stop → s.exec ≠ .parked)
    (hstep : stepCaller s c = some s') : Inv s' := by
  unfold Schedule.stepCaller at hstep
  cases hc : s.caller c with
  | idle =>
    rw [hc] at hstep
    cases hstep
  | notify pc =>
    rw [hc] at hstep
    cases hstep
    exact h.notify hc
  | gate =>
    rw [hc] at hstep
    cases hstep
    split
    · exact h.callerStay (by rw [hc]; rfl)
    · exact h
  | resumed =>
    rw [hc] at hstep
    cases hstep
    exact h.callerStay (by rw [hc]; rfl)
  | readmitParked =>
    rw [hc] at hstep
    cases hstep
    exact h.readmit_from (by rw [hc]; rfl) (by simp) (by simp)
  | stop =>
    rw [hc] at hstep
    cases hstep
    rw [readmitFromParked_of_ne (hstop hc)]
    exact h.callerStay (by rw [hc]; rfl)
  | sweepRetire =>
    rw [hc] at hstep
    cases hstep
    have hidle : Inv (s.setCaller c .idle) := h.callerStay (by rw [hc]; rfl)
    simp only [ExecState.retireFromDormant, ExecState.cas]
    by_cases hexec : s.exec = .dormant
    · rw [if_pos hexec]
      exact hidle.setExec (by simp [setCaller, hexec]) (by simp [setCaller, hexec]) (by simp)
    · rw [if_neg hexec]
      exact hidle
  | sweepRescue =>
    rw [hc] at hstep
    cases hstep
    exact h.readmit_from (by rw [hc]; rfl) (by simp) (by simp)
  | schedule =>
    rw [hc] at hstep
    cases hstep
    exact h.callerEnqueue hc

theorem Inv.stepWorker [DecidableEq W] (h : Inv s) (hstep : stepWorker s w = some s') : Inv s' := by
  unfold Schedule.stepWorker at hstep
  cases hw : s.worker w with
  | acquire =>
    have hself : s.demand (.worker w) = some .scheduled := by simp [demand, hw, WorkerPc.demand]
    have hexec := h.exclusive.cell_eq hself
    rw [hw] at hstep
    cases hstep
    simp only [ExecState.tryAcquire, ExecState.cas, hexec, if_true]
    exact h.workerClaim hself rfl
  | reacquire r =>
    rw [hw] at hstep
    cases hstep
    rw [ExecState.reacquire_eq]
    exact h.reacquire_from (by rw [hw]; rfl) (by cases r <;> simp [ExecState.Rest.state]) r.state_ne_running
  | reacquireParked =>
    rw [hw] at hstep
    cases hstep
    exact h.reacquire_from (by rw [hw]; rfl) (by simp) (by simp)
  | yield =>
    have hself : s.demand (.worker w) = some .running := by simp [demand, hw, WorkerPc.demand]
    rw [hw] at hstep
    cases hstep
    exact h.workerClaim hself rfl
  | requeue =>
    rw [hw] at hstep
    cases hstep
    exact h.workerEnqueue hw
  | away | drain | closeOut | probe r | parked =>
    rw [hw] at hstep
    cases hstep

theorem Inv.stepDrained [DecidableEq W] (h : Inv s) (hw : s.worker w = .drain) (reentrant : Bool)
    (o : DrainOutcome) : Inv (stepDrained reentrant s w o) := by
  have hself : s.demand (.worker w) = some .running := by simp [demand, hw, WorkerPc.demand]
  cases o with
  | drainedEmpty | budgetExhausted => exact h.workerStay (by rw [hw]; rfl)
  | busy => exact h
  | suspended => exact h.workerRelease hself (by cases reentrant <;> rfl) (by simp)

theorem Inv.step [DecidableEq C] [DecidableEq W] {reentrant : Bool} {l : Label C W} (h : Inv s) (hsound : Sound s l)
    (hstep : step reentrant s l = some s') : Inv s' := by
  cases l with
  | call c k =>
    simp only [Schedule.step] at hstep
    split at hstep
    · next hc =>
      cases hstep
      refine h.callerStay ?_
      rw [hc]
      cases k <;> cases reentrant <;> rfl
    · cases hstep
  | caller c => exact h.stepCaller hsound hstep
  | chained c =>
    simp only [Schedule.step] at hstep
    split at hstep
    · next hc =>
      cases hstep
      exact h.callerStay (by rw [hc]; rfl)
    · cases hstep
  | select w =>
    simp only [Schedule.step] at hstep
    split at hstep
    · next hw =>
      cases hstep
      exact h.select hw.2
    · cases hstep
  | worker w => exact h.stepWorker hstep
  | drained w o =>
    simp only [Schedule.step] at hstep
    split at hstep
    · next hw =>
      cases hstep
      exact h.stepDrained hw reentrant o
    · cases hstep
  | closeOut w retire =>
    simp only [Schedule.step] at hstep
    split at hstep
    · next hw =>
      have hself : s.demand (.worker w) = some .running := by simp [demand, hw, WorkerPc.demand]
      cases hstep
      exact h.workerRelease hself rfl (by cases retire <;> simp [ExecState.Rest.state])
    · cases hstep
  | probed w found =>
    simp only [Schedule.step] at hstep
    split at hstep
    · next hw =>
      cases hstep
      exact h.workerStay (by rw [hw]; cases found <;> rfl)
    · next hw =>
      cases hstep
      exact h.workerStay (by rw [hw]; cases found <;> rfl)
    · cases hstep

theorem Inv.initial : Inv ({} : State C W) := by
  refine .of_none (fun y => ?_) (by simp)
  cases y <;> rfl

theorem Inv.not_safe [DecidableEq C] [DecidableEq W] {reentrant : Bool} {l : Label C W} (h : Inv s)
    (hunsound : ¬ Sound s l) (hstep : Schedule.step reentrant s l = some s') : ¬ Safe s' := by
  cases l with
  | caller c =>
    obtain ⟨hc, hexec⟩ := Classical.not_imp.mp hunsound
    rw [not_not] at hexec
    have hquiet := h.quiet (by simp [hexec]) (by simp [hexec])
    simp only [Schedule.step, Schedule.stepCaller, hc] at hstep
    cases hstep
    intro hsafe
    rcases hsafe.scheduled (by simp [setCaller, hexec, ExecState.readmitFromParked, ExecState.cas]) with
      hpos | ⟨c', hc'⟩ | ⟨w, hw⟩
    · rw [setCaller, queued_eq_zero (hquiet .runQueue)] at hpos
      exact absurd hpos (Nat.lt_irrefl 0)
    · have hdemand := hquiet (.caller c')
      by_cases hne : c' = c
      · rw [hne] at hc'
        simp [setCaller] at hc'
      · simp only [setCaller, Function.update_of_ne hne] at hc'
        simp [demand, hc', CallerPc.demand] at hdemand
    · have hdemand := hquiet (.worker w)
      simp only [setCaller] at hw
      rcases hw with hw | hw <;> simp [demand, hw, WorkerPc.demand] at hdemand
  | _ => exact absurd trivial hunsound

theorem Inv.of_reach [DecidableEq C] [DecidableEq W] {reentrant : Bool}
    (h : Reach (Schedule.step reentrant) Sound {} s) : Inv s := by
  refine h.invariant .initial ?_
  intro s l s' h hsound hstep
  exact h.step hsound hstep

/-- In a run whose steps all meet the condition every state is safe, and the first step that does not meet it
ends in a state that is not. -/
theorem scheduled_is_owed [DecidableEq C] [DecidableEq W] (reentrant : Bool) :
    ∀ s : State C W, Reach (step reentrant) Sound {} s →
      Safe s ∧ ∀ l s', step reentrant s l = some s' → (Safe s' ↔ Sound s l) := by
  intro s hreach
  have hinv := Inv.of_reach hreach
  refine ⟨hinv.safe, fun l s' hstep => ?_⟩
  constructor
  · intro hsafe
    by_contra hunsound
    exact hinv.not_safe hunsound hstep hsafe
  · intro hsound
    exact (hinv.step hsound hstep).safe

/-- A stop is requested while the activation runs, it parks, and a carrier brings it back. -/
theorem scheduled_is_owed_after_readmission : ∃ s : State Unit Unit,
    s.exec = .scheduled ∧ s.queued = 1 ∧ Safe s := by
  have hrun : (Machine.run (guarded (step true) Sound) ({} : State Unit Unit)
      ([Label.call () .notify] ++ List.replicate 3 (Label.caller ()) ++
      ([.select (), .worker (), .call () .requestStop,
        .caller (), .drained () .suspended, .probed () false, .call () .completeOne] : List (Label Unit Unit)) ++
          List.replicate 2 (Label.caller ()))).map (fun s => (s.exec, s.queued)) = some (.scheduled, 1) := by
    decide +kernel
  obtain ⟨s, hs, hview⟩ := Option.map_eq_some_iff.mp hrun
  simp only [Prod.mk.injEq] at hview
  exact ⟨s, hview.1, hview.2, (scheduled_is_owed true s (reach_of_run hs)).1⟩

/-- A reentrant lane parks with a handler in flight and a stop is requested. -/
theorem stopped_is_not_owed :
    ¬ ∀ s : State Unit Unit, Reachable (step true) {} s → Safe s := by
  intro hall
  have hrun : (Machine.run (step true) ({} : State Unit Unit)
      ([Label.call () .notify] ++ List.replicate 3 (Label.caller ()) ++
      ([.select (), .worker (), .drained () .suspended,
        .probed () false, .call () .requestStop, .caller ()] : List (Label Unit Unit)))).map
          (fun s => (s.exec, s.queued, s.caller (), s.worker ())) = some (.scheduled, 0, .idle, .away) := by
    decide +kernel
  obtain ⟨s, hs, hview⟩ := Option.map_eq_some_iff.mp hrun
  simp only [Prod.mk.injEq] at hview
  obtain ⟨hexec, hqueued, hcaller, hworker⟩ := hview
  rcases (hall s (reachable_of_run hs)).scheduled hexec with hpos | ⟨c, hc⟩ | ⟨w, hw⟩
  · omega
  · rw [hcaller] at hc
    cases hc
  · rw [hworker] at hw
    rcases hw with hw | hw <;> cases hw

end

end Quark.Schedule
