import Mathlib.Algebra.Group.Nat.Defs
import Quark.ExecState
import Quark.Mailbox

/-! One Reentrant or MaxConcurrency activation of `activation.hpp` with the threads around it: producers,
carriers, the watchdog, whoever pauses and resumes admission, and workers that run it as
`Engine::run_activation_impl` does. A handler is what it does to the gate and to the in-flight set. Each step
makes at most one access to what the threads share. -/
namespace Quark.Reentrant

open Vyukov

inductive SealState
  | opened | paused | draining | cancelling
  deriving DecidableEq, Repr

inductive QuiesceMode
  | drain | cancel
  deriving DecidableEq, Repr

inductive SupervisionDirective
  | resume | restart | stop | escalate
  deriving DecidableEq, Repr

inductive FailureSource
  | handlerThrow | resource | poisonLoop | deadline | cancellation
  deriving DecidableEq, Repr

def FailureSource.transient : FailureSource → Bool
  | .deadline | .cancellation => true
  | .handlerThrow | .resource | .poisonLoop => false

structure SupervisionPolicy where
  decision : SupervisionDirective := .restart
  maxRestarts : Nat := 2 ^ 32 - 1
  windowNs : Int := 0
  deriving DecidableEq, Repr

structure Config where
  maxConcurrency : Nat
  budget : Nat
  busySpinLimit : Nat
  sup : SupervisionPolicy := {}
  deriving DecidableEq, Repr

def Config.cap (cfg : Config) : Nat := if cfg.maxConcurrency = 0 then 2 ^ 64 - 1 else cfg.maxConcurrency

/-- The sliding window of `MaxRestarts`. -/
structure Window where
  windowOpen : Bool := false
  windowStart : Int := 0
  restartCount : Nat := 0
  deriving DecidableEq, Repr

def Window.charge (p : SupervisionPolicy) (now : Int) (win : Window) : Window × Bool :=
  let win := if 0 < p.windowNs ∧ (win.windowOpen = false ∨ p.windowNs < now - win.windowStart) then
      { windowOpen := true, windowStart := now, restartCount := 0 }
    else win
  let count := (win.restartCount + 1) % 2 ^ 32
  ({ win with restartCount := count }, decide (count ≤ p.maxRestarts))

inductive CallerPc (M : Type)
  | idle
  | linking (m : M)
  | notify (pc : ExecState.NotifyPc)
  | raise
  | readmitParked
  | schedule
  deriving DecidableEq, Repr

/-- Where a step of `notify_enqueued_fast` leads. -/
def CallerPc.afterNotify {M : Type} : ExecState.NotifyStep → CallerPc M
  | .goto pc => .notify pc
  | .ret true => .schedule
  | .ret false => .idle

/-- The locals of a drain: Busy outcomes in a row, and the budget left. -/
structure Local where
  busy : Nat
  remaining : Nat
  deriving DecidableEq, Repr

/-- Who started or resumed the handler that is running. -/
inductive Via
  | admission | drainReady
  deriving DecidableEq, Repr

inductive WorkerPc (M : Type)
  | away
  | acquire
  /-- the top of the loop of `drain_step_reentrant` -/
  | actions (l : Local)
  | escalate (l : Local)
  | escalateFire (l : Local)
  | drainReady (l : Local)
  /-- the synchronous region of a handler -/
  | handler (l : Local) (via : Via) (f : Nat)
  | quiesceFire (l : Local) (via : Via) (f : Nat)
  | completed (l : Local) (via : Via)
  | pushWaiter (l : Local) (via : Via) (f : Nat)
  | restartSeal (l : Local) (via : Via)
  | restartFire (l : Local) (via : Via)
  | finishRestart (l : Local) (via : Via)
  | gate (l : Local)
  | dequeue (l : Local)
  | claim (l : Local) (f : Nat)
  | pendingReady (l : Local)
  | quiescent (l : Local)
  | park (l : Local)
  /-- `Parked` is stored: before the loads of the re-probe, the first that of the seal -/
  | gateProbe (l : Local)
  | mailProbe (l : Local)
  | readyProbe (l : Local) (admittable : Bool)
  | reacquireParked (l : Local)
  | closeOut
  /-- `Idle` is stored: before the probe of `close_out` -/
  | idleProbe
  | reacquireIdle
  | yield
  | requeue
  deriving DecidableEq, Repr

def Via.next {M : Type} (l : Local) : Via → WorkerPc M
  | .admission => .actions l
  | .drainReady => .drainReady l

variable {M W P : Type}

structure State (M W P : Type) where
  mailbox : Mailbox M := {}
  deq : Consumer := .idle
  exec : ExecState := .idle
  sealState : SealState := .opened
  escalateCancel : Bool := false
  /-- A frame is the place of its message among the dequeued. -/
  live : List Nat := []
  suspended : List Nat := []
  ready : List Nat := []
  waiterFrame : Option Nat := none
  restarting : Bool := false
  stopped : Bool := false
  window : Window := {}
  /-- the frames suspended in the awaiter of `quiesce`, and the holders of a guard -/
  awaiting : List Nat := []
  guards : List Nat := []
  /-- what has become of the dequeued messages -/
  completed : List Nat := []
  deadLettered : List Nat := []
  tombstones : List Nat := []
  reclaimed : List Nat := []
  /-- restart episodes opened, ended by a reconstruction, and given up by a stopped actor -/
  episodes : Nat := 0
  reconstructions : Nat := 0
  abandoned : Nat := 0
  /-- what was in flight beside the fault that opened the episode -/
  poisoned : List Nat := []
  queued : Nat := 0
  caller : P → CallerPc M := fun _ => .idle
  worker : W → WorkerPc M := fun _ => .away
  posted : List (Node M) := []
  dequeued : List (Node M) := []

inductive Label (M W P : Type)
  | post (p : P) (m : M)
  | completeOne (p : P)
  /-- `poll_quiesce_watchdog`, at a time before or after the drain deadline -/
  | watchdog (p : P) (expired : Bool)
  | caller (p : P)
  | pauseAdmission
  | resumeAdmission
  | select (w : W)
  /-- `ok`: what `try_claim` or the re-wire of a reconstructed actor answers, where it is asked -/
  | worker (w : W) (ok : Bool)
  | quiesce (w : W) (mode : QuiesceMode)
  | release (w : W)
  | suspend (w : W)
  | finish (w : W)
  | fault (w : W) (src : FailureSource) (now : Int)
  deriving DecidableEq, Repr

section

variable [DecidableEq M] [DecidableEq W] [DecidableEq P]

namespace State

def setCaller (s : State M W P) (p : P) (pc : CallerPc M) : State M W P :=
  { s with caller := Function.update s.caller p pc }

def setWorker (s : State M W P) (w : W) (pc : WorkerPc M) : State M W P :=
  { s with worker := Function.update s.worker w pc }

/-- The locked section of `fire_cancel_all`. -/
def fireCancelAll (s : State M W P) : State M W P := { s with ready := s.ready ++ s.suspended, suspended := [] }

def doStop (s : State M W P) : State M W P := { s with stopped := true, restarting := false }

def deadLetter (s : State M W P) (f : Nat) : State M W P :=
  { s with deadLettered := s.deadLettered ++ [f], reclaimed := s.reclaimed ++ [f] }

end State

def stepPost (s : State M W P) (p : P) (m : M) : Option (State M W P) :=
  if s.caller p = .idle ∧ s.posted.count (.item m) = s.dequeued.count (.item m) then
    some ({ s with
      mailbox := s.mailbox.exchange (.item m)
      posted := s.posted ++ [Node.item m] }.setCaller p (.linking m))
  else none

def stepCompleteOne (s : State M W P) (p : P) : Option (State M W P) :=
  if s.caller p = .idle then
    match s.suspended with
    | [] => some s
    | f :: rest => some ({ s with suspended := rest, ready := s.ready ++ [f] }.setCaller p .readmitParked)
  else none

def stepWatchdog (s : State M W P) (p : P) (expired : Bool) : Option (State M W P) :=
  if s.caller p = .idle then
    if s.sealState = .draining ∧ expired then some (s.setCaller p .raise) else some s
  else none

def stepCaller (s : State M W P) (p : P) : Option (State M W P) :=
  match s.caller p with
  | .idle => none
  | .linking m => some ({ s with mailbox := s.mailbox.link (.item m) }.setCaller p (.notify .load))
  | .notify pc =>
    let r := s.exec.notifyEnqueuedFast pc
    some ({ s with exec := r.1 }.setCaller p (.afterNotify r.2))
  | .raise => some ({ s with escalateCancel := true }.setCaller p .readmitParked)
  | .readmitParked =>
    let r := s.exec.readmitFromParked
    some ({ s with exec := r.1 }.setCaller p (if r.2 then .schedule else .idle))
  | .schedule => some ({ s with queued := s.queued + 1 }.setCaller p .idle)

def stepPause (s : State M W P) : State M W P := if s.sealState = .opened then { s with sealState := .paused } else s

def stepResume (s : State M W P) : State M W P := if s.sealState = .paused then { s with sealState := .opened } else s

def stepSelect (s : State M W P) (w : W) : Option (State M W P) :=
  if s.worker w = .away ∧ 0 < s.queued then some ({ s with queued := s.queued - 1 }.setWorker w .acquire)
  else none

def Local.fresh (cfg : Config) (busy : Nat) : Local := { busy, remaining := cfg.budget }

/-- The end of `begin_quiesce`: the caller is in the in-flight set itself. -/
def quiesced (s : State M W P) (w : W) (l : Local) (via : Via) (f : Nat) : State M W P :=
  if s.live.length ≤ 1 then { s with guards := f :: s.guards }.setWorker w (.handler l via f)
  else { s with waiterFrame := some f, awaiting := f :: s.awaiting }.setWorker w (via.next l)

def drained (cfg : Config) (s : State M W P) (w : W) (l : Local) (r : DrainResult M) : State M W P :=
  match r.status with
  | .message =>
    { s with dequeued := s.dequeued ++ r.desc.toList }.setWorker w
      (.claim { l with remaining := l.remaining - 1 } s.dequeued.length)
  | .empty => s.setWorker w (.pendingReady l)
  | .busy => s.setWorker w (if l.busy + 1 < cfg.busySpinLimit then .actions (.fresh cfg (l.busy + 1)) else .yield)

def stepDequeue (cfg : Config) (s : State M W P) (w : W) (l : Local) : State M W P :=
  let r := s.mailbox.tryDequeue s.deq
  let s := { s with mailbox := r.1, deq := r.2.1 }
  match r.2.2 with
  | none => s
  | some r => drained cfg s w l r

def stepAdmit (s : State M W P) (w : W) (l : Local) (f : Nat) (claimed : Bool) : State M W P :=
  if claimed = false then
    { s with tombstones := s.tombstones ++ [f], reclaimed := s.reclaimed ++ [f] }.setWorker w (.actions l)
  else if s.stopped then (s.deadLetter f).setWorker w (.actions l)
  else { s with live := s.live ++ [f] }.setWorker w (.handler l .admission f)

def stepDrainReady (s : State M W P) (w : W) (l : Local) : State M W P :=
  match s.ready with
  | [] => s.setWorker w (.gate l)
  | f :: rest =>
    (if f ∈ s.awaiting then
      { s with ready := rest, awaiting := s.awaiting.erase f, guards := f :: s.guards }
    else { s with ready := rest }).setWorker w (.handler l .drainReady f)

def maybeResumeWaiter (s : State M W P) (w : W) (l : Local) (via : Via) : State M W P :=
  match s.waiterFrame with
  | none => s.setWorker w (.finishRestart l via)
  | some f =>
    if s.sealState ≠ .opened ∧ s.live = [f] then { s with waiterFrame := none }.setWorker w (.pushWaiter l via f)
    else s.setWorker w (.finishRestart l via)

def finishRestartIfDrained (s : State M W P) (wired : Bool) : State M W P :=
  if s.restarting then
    if s.stopped then { s with restarting := false, abandoned := s.abandoned + 1, poisoned := [] }
    else if s.live = [] then
      { s with
        restarting := false, sealState := .opened, stopped := s.stopped || !wired
        reconstructions := s.reconstructions + 1, poisoned := [] }
    else s
  else s

def doRestartReentrant (cfg : Config) (s : State M W P) (w : W) (l : Local) (via : Via) (now : Int) : State M W P :=
  if s.restarting then s.setWorker w (.finishRestart l via)
  else
    match s.window.charge cfg.sup now with
    | (win, true) =>
      { s with window := win, restarting := true, episodes := s.episodes + 1, poisoned := s.live }.setWorker w
        (.restartSeal l via)
    | (win, false) => { s with window := win }.doStop.setWorker w (.finishRestart l via)

def onFaultReentrant (cfg : Config) (s : State M W P) (w : W) (l : Local) (via : Via) (f : Nat)
    (src : FailureSource) (now : Int) : State M W P :=
  let s := { s.deadLetter f with live := s.live.erase f }
  if src.transient then s.setWorker w (.finishRestart l via)
  else
    match cfg.sup.decision with
    | .resume => s.setWorker w (.finishRestart l via)
    | .restart => doRestartReentrant cfg s w l via now
    | .stop | .escalate => s.doStop.setWorker w (.finishRestart l via)

def stepWorker (cfg : Config) (s : State M W P) (w : W) (ok : Bool) : Option (State M W P) :=
  match s.worker w with
  | .away | .handler _ _ _ => none
  | .acquire =>
    let r := s.exec.tryAcquire
    some ({ s with exec := r.1 }.setWorker w (if r.2 then .actions (.fresh cfg 0) else .away))
  | .actions l =>
    some ({ s with escalateCancel := false }.setWorker w (if s.escalateCancel then .escalate l else .drainReady l))
  | .escalate l =>
    -- nobody else writes the seal while it is `Draining`
    some (if s.sealState = .draining then { s with sealState := .cancelling }.setWorker w (.escalateFire l)
      else s.setWorker w (.drainReady l))
  | .escalateFire l => some (s.fireCancelAll.setWorker w (.drainReady l))
  | .drainReady l => some (stepDrainReady s w l)
  | .quiesceFire l via f => some (quiesced s.fireCancelAll w l via f)
  | .completed l via => some (maybeResumeWaiter s w l via)
  | .pushWaiter l via f => some ({ s with ready := s.ready ++ [f] }.setWorker w (.finishRestart l via))
  | .restartSeal l via => some ({ s with sealState := .cancelling }.setWorker w (.restartFire l via))
  | .restartFire l via => some (s.fireCancelAll.setWorker w (.finishRestart l via))
  | .finishRestart l via => some ((finishRestartIfDrained s ok).setWorker w (via.next l))
  | .gate l =>
    some (s.setWorker w (if s.sealState = .opened ∧ s.live.length < cfg.cap then
      if l.remaining = 0 then .yield else .dequeue l else .pendingReady l))
  | .dequeue l => some (stepDequeue cfg s w l)
  | .claim l f => some (stepAdmit s w l f ok)
  | .pendingReady l => some (s.setWorker w (if s.ready = [] then .quiescent l else .actions l))
  | .quiescent l => some (s.setWorker w (if s.live = [] ∧ s.sealState = .opened then .closeOut else .park l))
  | .park l => some ({ s with exec := .parked }.setWorker w (.gateProbe l))
  | .gateProbe l =>
    some (s.setWorker w (if s.sealState = .opened ∧ s.live.length < cfg.cap then .mailProbe l
      else .readyProbe l false))
  | .mailProbe l => some (s.setWorker w (.readyProbe l s.mailbox.probeHasWork))
  | .readyProbe l admittable =>
    some (s.setWorker w (if s.ready ≠ [] ∨ admittable then .reacquireParked l else .away))
  | .reacquireParked l =>
    let r := s.exec.reacquireFromParked
    some ({ s with exec := r.1 }.setWorker w (if r.2 then .actions l else .away))
  | .closeOut => some ({ s with exec := .idle }.setWorker w .idleProbe)
  | .idleProbe => some (s.setWorker w (if s.mailbox.probeHasWork then .reacquireIdle else .away))
  | .reacquireIdle =>
    let r := s.exec.reacquireFromIdle
    some ({ s with exec := r.1 }.setWorker w (if r.2 then .actions (.fresh cfg 0) else .away))
  | .yield => some ({ s with exec := .scheduled }.setWorker w .requeue)
  | .requeue => some ({ s with queued := s.queued + 1 }.setWorker w .away)

def stepQuiesce (s : State M W P) (w : W) (mode : QuiesceMode) : Option (State M W P) :=
  match s.worker w with
  | .handler l via f =>
    match mode with
    | .drain => some (quiesced { s with sealState := .draining } w l via f)
    | .cancel => some ({ s with sealState := .cancelling }.setWorker w (.quiesceFire l via f))
  | _ => none

/-- `QuiescenceGuard::release`, in the handler or when its locals are destroyed. -/
def stepRelease (s : State M W P) (w : W) : Option (State M W P) :=
  match s.worker w with
  | .handler _ _ f => if f ∈ s.guards then some { s with sealState := .opened, guards := s.guards.erase f } else none
  | _ => none

def stepSuspend (s : State M W P) (w : W) : Option (State M W P) :=
  match s.worker w with
  | .handler l via f => some ({ s with suspended := s.suspended ++ [f] }.setWorker w (via.next l))
  | _ => none

/-- The locals of a handler, its guards among them, are gone when it is done. -/
def stepFinish (s : State M W P) (w : W) : Option (State M W P) :=
  match s.worker w with
  | .handler l via f =>
    if f ∈ s.guards then none
    else
      some ({ s with
        live := s.live.erase f, completed := s.completed ++ [f], reclaimed := s.reclaimed ++ [f] }.setWorker w
          (.completed l via))
  | _ => none

def stepFault (cfg : Config) (s : State M W P) (w : W) (src : FailureSource) (now : Int) : Option (State M W P) :=
  match s.worker w with
  | .handler l via f => if f ∈ s.guards then none else some (onFaultReentrant cfg s w l via f src now)
  | _ => none

def step (cfg : Config) (s : State M W P) : Label M W P → Option (State M W P)
  | .post p m => stepPost s p m
  | .completeOne p => stepCompleteOne s p
  | .watchdog p expired => stepWatchdog s p expired
  | .caller p => stepCaller s p
  | .pauseAdmission => some (stepPause s)
  | .resumeAdmission => some (stepResume s)
  | .select w => stepSelect s w
  | .worker w ok => stepWorker cfg s w ok
  | .quiesce w mode => stepQuiesce s w mode
  | .release w => stepRelease s w
  | .suspend w => stepSuspend s w
  | .finish w => stepFinish s w
  | .fault w src now => stepFault cfg s w src now

end

end Quark.Reentrant
