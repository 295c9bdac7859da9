import Quark.ExecState
import Quark.Mailbox

/-! One ungoverned Sequential activation of `activation.hpp` with the threads around it: producers that
post and notify, posters of the Deactivate control descriptor, and workers that run it as
`Engine::run_activation_impl` does. Each step makes at most one access to what the threads share. -/
namespace Quark.Activation

open Vyukov

/-- What the mailbox carries: messages, and the activation's one Deactivate control descriptor. -/
inductive Desc (M : Type)
  | message (m : M)
  | deactivate
  deriving DecidableEq, Repr

structure Config where
  budget : Nat
  lingerSpinLimit : Nat
  busySpinLimit : Nat
  deriving DecidableEq, Repr

def kLingerEvidenceMax : Nat := 4
def kLingerHitBump : Nat := 2
def kLingerMissDecay : Nat := 2
def kLingerBatchThreshold : Nat := 2
def kLingerBatchBumpMax : Nat := 3
def kLingerSpinLimitMax : Nat := 4096

def bumpLingerEvidence (evidence d : Nat) : Nat := min (evidence + d) kLingerEvidenceMax

def decayLingerEvidence (evidence d : Nat) : Nat := evidence - d

/-- `bit_width(n) - 1` is the binary logarithm of `n`. -/
def noteBatchEvidence (evidence dispatched : Nat) : Nat :=
  if dispatched < kLingerBatchThreshold then evidence
  else bumpLingerEvidence evidence (min (Nat.log2 dispatched) kLingerBatchBumpMax)

/-- `set_linger_spin_limit` clamps what it is given. -/
def lingerBound (cfg : Config) (evidence : Nat) : Nat :=
  let limit := min cfg.lingerSpinLimit kLingerSpinLimitMax
  if limit = 0 ∨ evidence = 0 then 0 else (limit * evidence + (kLingerEvidenceMax - 1)) / kLingerEvidenceMax

inductive ProducerPc (M : Type)
  | idle
  /-- won the Deactivate token, before the exchange -/
  | claimed
  | linking (d : Desc M)
  | notify (pc : ExecState.NotifyPc)
  | schedule
  deriving DecidableEq, Repr

/-- Where a step of `notify_enqueued_fast` leads. -/
def ProducerPc.afterNotify {M : Type} : ExecState.NotifyStep → ProducerPc M
  | .goto pc => .notify pc
  | .ret true => .schedule
  | .ret false => .idle

/-- The locals of a drain: Busy outcomes in a row, budget left, messages dispatched. -/
structure Local where
  busy : Nat
  remaining : Nat
  dispatched : Nat := 0
  deriving DecidableEq, Repr

inductive WorkerPc (M : Type)
  | away
  | acquire
  | loop (l : Local)
  | dequeue (l : Local)
  /-- inside a re-poll of the linger, with `left` more to come -/
  | linger (l : Local) (left : Nat)
  | dispatch (l : Local) (d : Node (Desc M))
  | closeOut
  /-- the relinquish store is done: before the probe of `close_out` -/
  | probe (released : ExecState.Rest)
  | reacquire (released : ExecState.Rest)
  | yield
  | requeue
  | park
  deriving DecidableEq, Repr

variable {M W P : Type}

structure State (M W P : Type) where
  mailbox : Mailbox (Desc M) := {}
  deq : Consumer := .idle
  exec : ExecState := .idle
  deactivateToken : Bool := false
  retireRequested : Bool := false
  lingerEvidence : Nat := 0
  queued : Nat := 0
  producer : P → ProducerPc M := fun _ => .idle
  worker : W → WorkerPc M := fun _ => .away
  posted : List (Node (Desc M)) := []
  dequeued : List (Node (Desc M)) := []

inductive Label (M W P : Type)
  | post (p : P) (m : M)
  | postDeactivate (p : P)
  | producer (p : P)
  | select (w : W)
  | worker (w : W)
  | suspend (w : W)
  deriving DecidableEq, Repr

section

variable [DecidableEq M] [DecidableEq W] [DecidableEq P]

namespace State

def setProducer (s : State M W P) (p : P) (pc : ProducerPc M) : State M W P :=
  { s with producer := Function.update s.producer p pc }

def setWorker (s : State M W P) (w : W) (pc : WorkerPc M) : State M W P :=
  { s with worker := Function.update s.worker w pc }

def exchange (s : State M W P) (p : P) (d : Desc M) : State M W P :=
  { s with
    mailbox := s.mailbox.exchange (.item d)
    posted := s.posted ++ [.item d]
    producer := Function.update s.producer p (.linking d) }

end State

def stepPost (s : State M W P) (p : P) (m : M) : Option (State M W P) :=
  if s.producer p = .idle ∧ s.posted.count (.item (.message m)) = s.dequeued.count (.item (.message m)) then
    some (s.exchange p (.message m))
  else none

/-- `try_claim_deactivate_token`; the loser does nothing. -/
def stepPostDeactivate (s : State M W P) (p : P) : Option (State M W P) :=
  if s.producer p = .idle then
    if s.deactivateToken then some s
    else some ({ s with deactivateToken := true }.setProducer p .claimed)
  else none

def stepProducer (s : State M W P) (p : P) : Option (State M W P) :=
  match s.producer p with
  | .idle => none
  | .claimed => some (s.exchange p .deactivate)
  | .linking d => some ({ s with mailbox := s.mailbox.link (.item d) }.setProducer p (.notify .load))
  | .notify pc =>
    let r := s.exec.notifyEnqueuedFast pc
    some ({ s with exec := r.1 }.setProducer p (.afterNotify r.2))
  | .schedule => some ({ s with queued := s.queued + 1 }.setProducer p .idle)

def stepSelect (s : State M W P) (w : W) : Option (State M W P) :=
  if s.worker w = .away ∧ 0 < s.queued then some ({ s with queued := s.queued - 1 }.setWorker w .acquire)
  else none

def Local.fresh (cfg : Config) (busy : Nat) : Local := { busy, remaining := cfg.budget }

/-- A message in hand: `--remaining`, `++dispatched_this_call`. -/
def Local.take (l : Local) : Local := { l with remaining := l.remaining - 1, dispatched := l.dispatched + 1 }

/-- The end of a `try_dequeue` call of the drain loop. -/
def drained (cfg : Config) (s : State M W P) (w : W) (l : Local) (r : DrainResult (Desc M)) : State M W P :=
  match r.status with
  | .message =>
    { s with dequeued := s.dequeued ++ r.desc.toList }.setWorker w (.dispatch l.take (r.desc.getD .stub))
  | .empty =>
    match lingerBound cfg s.lingerEvidence with
    | 0 =>
      { s with lingerEvidence := noteBatchEvidence s.lingerEvidence l.dispatched }.setWorker w .closeOut
    | left+1 => s.setWorker w (.linger l left)
  | .busy =>
    { s with lingerEvidence := noteBatchEvidence s.lingerEvidence l.dispatched }.setWorker w
      (if l.busy + 1 < cfg.busySpinLimit then .loop (.fresh cfg (l.busy + 1)) else .yield)

/-- The end of a re-poll: `Empty` and `Busy` alike keep spinning, and after the last one the drain
reports `DrainedEmpty`. -/
def repolled (s : State M W P) (w : W) (l : Local) (left : Nat) (r : DrainResult (Desc M)) : State M W P :=
  match r.status with
  | .message =>
    { s with
      lingerEvidence := bumpLingerEvidence s.lingerEvidence kLingerHitBump
      dequeued := s.dequeued ++ r.desc.toList }.setWorker w (.dispatch l.take (r.desc.getD .stub))
  | .empty | .busy =>
    match left with
    | left+1 => s.setWorker w (.linger l left)
    | 0 =>
      { s with lingerEvidence :=
          noteBatchEvidence (decayLingerEvidence s.lingerEvidence kLingerMissDecay) l.dispatched }.setWorker
        w .closeOut

/-- One step inside `try_dequeue`; `done` takes over when the call returns. -/
def stepDequeue (s : State M W P) (done : State M W P → DrainResult (Desc M) → State M W P) : State M W P :=
  let r := s.mailbox.tryDequeue s.deq
  let s := { s with mailbox := r.1, deq := r.2.1 }
  match r.2.2 with
  | none => s
  | some r => done s r

def stepWorker (cfg : Config) (s : State M W P) (w : W) : Option (State M W P) :=
  match s.worker w with
  | .away => none
  | .acquire =>
    let r := s.exec.tryAcquire
    some ({ s with exec := r.1 }.setWorker w (if r.2 then .loop (.fresh cfg 0) else .away))
  | .loop l =>
    if l.remaining = 0 then
      some ({ s with lingerEvidence := noteBatchEvidence s.lingerEvidence l.dispatched }.setWorker w .yield)
    else some (s.setWorker w (.dequeue l))
  | .dequeue l => some (stepDequeue s fun s r => drained cfg s w l r)
  | .linger l left => some (stepDequeue s fun s r => repolled s w l left r)
  | .dispatch l (.item .deactivate) =>
    some ({ s with retireRequested := true, deactivateToken := false }.setWorker w (.loop l))
  | .dispatch l _ => some (s.setWorker w (.loop l))
  | .closeOut =>
    if s.retireRequested then
      some ({ s with retireRequested := false, exec := .dormant }.setWorker w (.probe .dormant))
    else some ({ s with exec := .idle }.setWorker w (.probe .idle))
  | .probe released => some (s.setWorker w (if s.mailbox.probeHasWork then .reacquire released else .away))
  | .reacquire released =>
    let r := s.exec.reacquire released
    some ({ s with exec := r.1 }.setWorker w (if r.2 then .loop (.fresh cfg 0) else .away))
  | .yield => some ({ s with exec := .scheduled }.setWorker w .requeue)
  | .requeue => some ({ s with queued := s.queued + 1 }.setWorker w .away)
  | .park => some ({ s with exec := .parked }.setWorker w .away)

def stepSuspend (s : State M W P) (w : W) : Option (State M W P) :=
  match s.worker w with
  | .dispatch _ (.item (.message _)) => some (s.setWorker w .park)
  | _ => none

def step (cfg : Config) (s : State M W P) : Label M W P → Option (State M W P)
  | .post p m => stepPost s p m
  | .postDeactivate p => stepPostDeactivate s p
  | .producer p => stepProducer s p
  | .select w => stepSelect s w
  | .worker w => stepWorker cfg s w
  | .suspend w => stepSuspend s w

end

end Quark.Activation
