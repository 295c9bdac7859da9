import Quark.Reentrant
import Quark.Lib.Token

/-! The lane of a reentrant activation: one worker at a time is between the acquisition of `Running` and the store
that gives it up. -/
namespace Quark.Reentrant

open Function Token

variable {M W P : Type}

/-- What a worker asks the exec state to be: `Running`, but outside the lane. -/
def WorkerPc.demand : WorkerPc M → Option ExecState
  | .away | .acquire | .gateProbe _ | .mailProbe _ | .readyProbe _ _ | .reacquireParked _ | .idleProbe
  | .reacquireIdle | .requeue => none
  | _ => some .running

/-- `none` is nobody. -/
def State.demand (s : State M W P) : Option W → Option ExecState
  | none => none
  | some w => (s.worker w).demand

/-- At most one worker has the lane, and then the activation is `Running`. -/
def Laned (s : State M W P) : Prop := Exclusive s.exec s.demand

theorem WorkerPc.demand_cases {pc : WorkerPc M} {e : ExecState} (h : pc.demand = some e) : e = .running := by
  cases pc <;> cases h <;> rfl

theorem Via.next_demand (via : Via) (l : Local) : (via.next l : WorkerPc M).demand = some .running := by
  cases via <;> rfl

section

variable {s s' : State M W P} {w w' : W}

theorem Laned.initial : Laned ({} : State M W P) := by
  refine exclusive_of_none (x := none) (fun o _ => ?_) rfl
  cases o <;> rfl

theorem Laned.exec_running (h : Laned s) (ho : (s.worker w).demand = some .running) : s.exec = .running :=
  h.cell_eq (x := some w) ho

theorem Laned.none_owns (h : Laned s) (hexec : s.exec ≠ .running) (w : W) : (s.worker w).demand = none := by
  refine h.none (fun o ho => ?_) (some w)
  cases o with
  | none => cases ho
  | some w' => exact hexec (WorkerPc.demand_cases ho)

theorem Laned.others (h : Laned s) (ho : (s.worker w).demand = some .running) (hne : w' ≠ w) :
    (s.worker w').demand = none :=
  Exclusive.others h (x := some w) (y := some w') ho fun heq => hne (Option.some.inj heq)

theorem Laned.same (h : Laned s) (hexec : s'.exec = s.exec) (hworker : s'.worker = s.worker) : Laned s' := by
  unfold Laned
  rw [hexec]
  refine h.congr fun o => ?_
  cases o with
  | none => rfl
  | some w => simp only [State.demand, hworker]

theorem Laned.rest (h : Laned s) (hexec : s.exec ≠ .running) (hworker : s'.worker = s.worker) : Laned s' := by
  refine exclusive_of_none (x := none) (fun o _ => ?_) rfl
  cases o with
  | none => rfl
  | some w =>
    simp only [State.demand, hworker]
    exact h.none_owns hexec w

section

variable [DecidableEq W] {pc : WorkerPc M}

theorem demand_worker_self (hworker : s'.worker = update s.worker w pc) :
    s'.demand (some w) = pc.demand := by
  simp only [State.demand, hworker, update_self]

theorem demand_worker_ne (hworker : s'.worker = update s.worker w pc) {o : Option W} (hne : o ≠ some w) :
    s'.demand o = s.demand o := by
  cases o with
  | none => rfl
  | some w' =>
    have hw : w' ≠ w := fun heq => hne (by rw [heq])
    simp only [State.demand, hworker, update_of_ne hw]

theorem Laned.goto (h : Laned s) (hexec : s'.exec = s.exec) (hworker : s'.worker = update s.worker w pc)
    (hpc : pc.demand = (s.worker w).demand) : Laned s' := by
  unfold Laned
  rw [hexec]
  refine h.congr fun o => ?_
  by_cases hne : o = some w
  · rw [hne, demand_worker_self hworker]
    exact hpc
  · exact demand_worker_ne hworker hne

theorem Laned.release (h : Laned s) (ho : (s.worker w).demand = some .running)
    (hworker : s'.worker = update s.worker w pc) (hpc : pc.demand = none) : Laned s' := by
  refine exclusive_of_none (x := some w) (fun o hne => ?_) ?_
  · rw [demand_worker_ne hworker hne]
    exact Exclusive.others h (x := some w) ho hne
  · rw [demand_worker_self hworker, hpc]

theorem Laned.enter (h : Laned s) (hexec : s.exec ≠ .running) (hexec' : s'.exec = .running)
    (hworker : s'.worker = update s.worker w pc) (hpc : pc.demand = some .running) : Laned s' := by
  refine exclusive_of_some (x := some w) (fun o hne => ?_) ?_
  · rw [demand_worker_ne hworker hne]
    cases o with
    | none => rfl
    | some w' => exact h.none_owns hexec w'
  · rw [demand_worker_self hworker, hpc, hexec']

end

end

/-- What the lane is doing for the in-flight set. -/
inductive Role
  | plain
  | gated
  | claims (f : Nat)
  | runs (f : Nat)
  | fires (f : Nat)
  /-- a frame has completed: before `maybe_resume_waiter` -/
  | left
  | pushes (f : Nat)
  /-- a restart episode is open, the gate not sealed yet -/
  | restarts
  | settles
  deriving DecidableEq, Repr

def WorkerPc.role : WorkerPc M → Role
  | .dequeue _ => .gated
  | .claim _ f => .claims f
  | .handler _ _ f => .runs f
  | .quiesceFire _ _ f => .fires f
  | .completed _ _ => .left
  | .pushWaiter _ _ f => .pushes f
  | .restartSeal _ _ => .restarts
  | .restartFire _ _ | .finishRestart _ _ => .settles
  | _ => .plain

/-- `r` is what the worker that has the lane is doing, and `plain` if nobody has it. -/
structure State.OnLane (s : State M W P) (r : Role) : Prop where
  owner : ∀ w, (s.worker w).demand = some .running → (s.worker w).role = r
  nobody : (∀ w, (s.worker w).demand = none) → r = .plain

theorem Via.next_role (via : Via) (l : Local) : (via.next l : WorkerPc M).role = .plain := by
  cases via <;> rfl

section

variable {s s' : State M W P} {r : Role} {w : W}

theorem State.OnLane.initial : State.OnLane ({} : State M W P) .plain :=
  ⟨nofun, fun _ => rfl⟩

theorem State.OnLane.same (h : s.OnLane r) (hworker : s'.worker = s.worker) : s'.OnLane r := by
  constructor
  · rw [hworker]
    exact h.owner
  · rw [hworker]
    exact h.nobody

theorem State.OnLane.exists_worker (h : s.OnLane r) (hr : r ≠ .plain) : ∃ w, (s.worker w).role = r := by
  by_contra hnone
  refine hr (h.nobody fun w => ?_)
  cases hw : (s.worker w).demand with
  | none => rfl
  | some e =>
    rw [WorkerPc.demand_cases hw] at hw
    exact absurd ⟨w, h.owner w hw⟩ hnone

variable [DecidableEq W] {pc : WorkerPc M}

theorem State.OnLane.goto (hl : Laned s) (ho : (s.worker w).demand = some .running)
    (hworker : s'.worker = update s.worker w pc) (hpc : pc.demand = some .running) : s'.OnLane pc.role := by
  constructor
  · intro w' hw'
    rw [hworker] at hw' ⊢
    by_cases hne : w' = w
    · rw [hne, update_self]
    · rw [update_of_ne hne, hl.others ho hne] at hw'
      cases hw'
  · intro hnone
    have hw := hnone w
    rw [hworker, update_self, hpc] at hw
    cases hw

theorem State.OnLane.release (hl : Laned s) (ho : (s.worker w).demand = some .running)
    (hworker : s'.worker = update s.worker w pc) (hpc : pc.demand = none) : s'.OnLane .plain := by
  refine ⟨fun w' hw' => ?_, fun _ => rfl⟩
  rw [hworker] at hw'
  by_cases hne : w' = w
  · rw [hne, update_self, hpc] at hw'
    cases hw'
  · rw [update_of_ne hne, hl.others ho hne] at hw'
    cases hw'

theorem State.OnLane.outside (h : s.OnLane r) (ho : (s.worker w).demand = none)
    (hworker : s'.worker = update s.worker w pc) (hpc : pc.demand = none) : s'.OnLane r := by
  constructor
  · intro w' hw'
    rw [hworker] at hw' ⊢
    by_cases hne : w' = w
    · rw [hne, update_self, hpc] at hw'
      cases hw'
    · rw [update_of_ne hne] at hw' ⊢
      exact h.owner w' hw'
  · intro hnone
    refine h.nobody fun w' => ?_
    by_cases hne : w' = w
    · rw [hne]
      exact ho
    · have hw' := hnone w'
      rw [hworker, update_of_ne hne] at hw'
      exact hw'

theorem State.OnLane.enter (h : s.OnLane r) (hl : Laned s) (hexec : s.exec ≠ .running)
    (hworker : s'.worker = update s.worker w pc) (hpc : pc.demand = some .running) :
    r = .plain ∧ s'.OnLane pc.role := by
  refine ⟨h.nobody (hl.none_owns hexec), fun w' hw' => ?_, fun hnone => ?_⟩
  · rw [hworker] at hw' ⊢
    by_cases hne : w' = w
    · rw [hne, update_self]
    · rw [update_of_ne hne, hl.none_owns hexec w'] at hw'
      cases hw'
  · have hw := hnone w
    rw [hworker, update_self, hpc] at hw
    cases hw

end

end Quark.Reentrant
