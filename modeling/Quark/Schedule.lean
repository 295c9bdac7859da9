import Quark.ExecState
import Quark.Lib.Machine

/-! Who owes an activation a run. Every thread that moves the exec state of one activation: producers in
their notify step, carriers, the watchdog, `request_stop`, the reclaim sweep, and the workers of
`Engine::run_activation_impl`. What a drain finds in the mailbox is left to the labels. -/
namespace Quark.Schedule

/-- The calls of threads that are not running the activation. -/
inductive Call
  | notify
  | completeOne
  | completeParked
  | pollQuiesceWatchdog
  | requestStop
  | sweepRetire
  | sweepRescue
  deriving DecidableEq, Repr

inductive CallerPc
  | idle
  | notify (pc : ExecState.NotifyPc)
  /-- the gate of `complete_parked`: wait for `Parked` -/
  | gate
  | resumed
  /-- before a `readmit_from_parked` whose result the caller gets -/
  | readmitParked
  /-- `request_stop`: before a `readmit_from_parked` whose result is dropped -/
  | stop
  | sweepRetire
  | sweepRescue
  | schedule
  deriving DecidableEq, Repr

inductive DrainOutcome
  | drainedEmpty | busy | budgetExhausted | suspended
  deriving DecidableEq, Repr

inductive WorkerPc
  | away
  | acquire
  | drain
  | closeOut
  | probe (released : ExecState.Rest)
  | reacquire (released : ExecState.Rest)
  /-- a reentrant lane has stored `Parked`: before its probes -/
  | parked
  | reacquireParked
  | yield
  | requeue
  deriving DecidableEq, Repr

structure State (C W : Type) where
  exec : ExecState := .idle
  queued : Nat := 0
  caller : C → CallerPc := fun _ => .idle
  worker : W → WorkerPc := fun _ => .away

inductive Label (C W : Type)
  | call (c : C) (k : Call)
  | caller (c : C)
  | chained (c : C)
  | select (w : W)
  | worker (w : W)
  | drained (w : W) (o : DrainOutcome)
  /-- `close_out`, with or without a Deactivate claimed in this drain -/
  | closeOut (w : W) (retire : Bool)
  | probed (w : W) (found : Bool)
  deriving DecidableEq, Repr

variable {C W : Type} [DecidableEq C] [DecidableEq W]

def State.setCaller (s : State C W) (c : C) (pc : CallerPc) : State C W :=
  { s with caller := Function.update s.caller c pc }

def State.setWorker (s : State C W) (w : W) (pc : WorkerPc) : State C W :=
  { s with worker := Function.update s.worker w pc }

/-- Where a call starts; the reentrant ones do nothing on a sequential activation, and the other way round. -/
def Call.start (reentrant : Bool) : Call → CallerPc
  | .notify => .notify .load
  | .completeOne | .pollQuiesceWatchdog => if reentrant then .readmitParked else .idle
  | .completeParked => if reentrant then .idle else .gate
  | .requestStop => if reentrant then .stop else .idle
  | .sweepRetire => .sweepRetire
  | .sweepRescue => .sweepRescue

def CallerPc.afterNotify : ExecState.NotifyStep → CallerPc
  | .goto pc => .notify pc
  | .ret true => .schedule
  | .ret false => .idle

def stepCaller (s : State C W) (c : C) : Option (State C W) :=
  match s.caller c with
  | .idle => none
  | .notify pc =>
    let r := s.exec.notifyEnqueuedFast pc
    some ({ s with exec := r.1 }.setCaller c (.afterNotify r.2))
  | .gate => some (if s.exec = .parked then s.setCaller c .resumed else s)
  | .resumed => some (s.setCaller c .readmitParked)
  | .readmitParked =>
    let r := s.exec.readmitFromParked
    some ({ s with exec := r.1 }.setCaller c (if r.2 then .schedule else .idle))
  | .stop => some ({ s with exec := s.exec.readmitFromParked.1 }.setCaller c .idle)
  | .sweepRetire => some ({ s with exec := s.exec.retireFromDormant.1 }.setCaller c .idle)
  | .sweepRescue =>
    let r := s.exec.readmitFromRetired
    some ({ s with exec := r.1 }.setCaller c (if r.2 then .schedule else .idle))
  | .schedule => some ({ s with queued := s.queued + 1 }.setCaller c .idle)

def stepWorker (s : State C W) (w : W) : Option (State C W) :=
  match s.worker w with
  | .acquire =>
    let r := s.exec.tryAcquire
    some ({ s with exec := r.1 }.setWorker w (if r.2 then .drain else .away))
  | .reacquire released =>
    let r := s.exec.reacquire released
    some ({ s with exec := r.1 }.setWorker w (if r.2 then .drain else .away))
  | .reacquireParked =>
    let r := s.exec.reacquireFromParked
    some ({ s with exec := r.1 }.setWorker w (if r.2 then .drain else .away))
  | .yield => some ({ s with exec := .scheduled }.setWorker w .requeue)
  | .requeue => some ({ s with queued := s.queued + 1 }.setWorker w .away)
  | .away | .drain | .closeOut | .probe _ | .parked => none

/-- A spun-out `Busy` leaves through the yield like an exhausted budget; before that the drain goes on. -/
def stepDrained (reentrant : Bool) (s : State C W) (w : W) : DrainOutcome → State C W
  | .drainedEmpty => s.setWorker w .closeOut
  | .busy => s
  | .budgetExhausted => s.setWorker w .yield
  | .suspended => { s with exec := .parked }.setWorker w (if reentrant then .parked else .away)

def step (reentrant : Bool) (s : State C W) : Label C W → Option (State C W)
  | .call c k => if s.caller c = .idle then some (s.setCaller c (k.start reentrant)) else none
  | .caller c => stepCaller s c
  | .chained c => if s.caller c = .resumed then some (s.setCaller c .idle) else none
  | .select w =>
    if s.worker w = .away ∧ 0 < s.queued then some ({ s with queued := s.queued - 1 }.setWorker w .acquire)
    else none
  | .worker w => stepWorker s w
  | .drained w o => if s.worker w = .drain then some (stepDrained reentrant s w o) else none
  | .closeOut w retire =>
    if s.worker w = .closeOut then
      let r : ExecState.Rest := if retire then .dormant else .idle
      some ({ s with exec := r.state }.setWorker w (.probe r))
    else none
  | .probed w found =>
    match s.worker w with
    | .probe r => some (s.setWorker w (if found then .reacquire r else .away))
    | .parked => some (s.setWorker w (if found then .reacquireParked else .away))
    | _ => none

end Quark.Schedule
