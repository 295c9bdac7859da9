import Mathlib.Data.List.Count
import Quark.Persistence
import Quark.Reentrant

/-! The supervision path of a Sequential activation (`activation.hpp`): the dispatch of a message, the
completion of a parked one, restarts, and the retries of an `ask`. What the handler does at each attempt
comes from outside. -/
namespace Quark.Supervision

open Reentrant (SupervisionDirective FailureSource Window)

/-- `OnFailure<Decision, MaxRestarts<N, Within<W>>>` with `OnRestartAsk<Retry<R, Key>>`. -/
structure SupervisionPolicy extends Reentrant.SupervisionPolicy where
  maxAskRetries : Nat := 0
  deriving DecidableEq, Repr

/-- What a call of the handler's thunk comes to. An exception is a `ResourceFailure` with its error, or
any other. -/
inductive Outcome
  | returned
  | threw (resource : Option Error)
  | asyncDone
  | asyncFaulted (resource : Option Error)
  | suspended
  deriving DecidableEq, Repr

/-- What resuming a parked frame comes to. -/
inductive Resumption
  | suspendedAgain
  | done
  | faulted (resource : Option Error)
  | threw
  deriving DecidableEq, Repr

/-- One attempt at restarting: the clock, whether the new instance can be wired, and what the handler does
on it, if it is run again. -/
structure Attempt where
  now : Int
  wired : Bool := true
  outcome : Outcome := .returned
  deriving DecidableEq, Repr

inductive EventKind
  /-- the handler starts, on state that none has run on before or not -/
  | ran (retry fresh : Bool)
  | created (frame : Nat)
  | destroyed (frame : Nat)
  | charged (now : Int) (granted : Bool)
  | reconstructed (wired : Bool)
  | escalated
  | completed
  | deadLettered (err : Error)
  | reclaimed
  deriving DecidableEq, Repr

structure Event where
  msg : Nat
  kind : EventKind
  deriving DecidableEq, Repr

/-- The activation, and what it has done so far. A message is its number among the dispatched. -/
structure State where
  window : Window := {}
  stopped : Bool := false
  parked : Option (Nat × Nat) := none
  /-- a handler has run on the actor instance, as it was last reconstructed -/
  used : Bool := false
  /-- a factory is behind `reconstruct_` -/
  factory : Bool := false
  frames : Nat := 0
  dispatched : Nat := 0
  faults : Nat := 0
  restartsTotal : Nat := 0
  escalations : Nat := 0
  deadLetters : Nat := 0
  messagesProcessed : Nat := 0
  log : List Event := []
  deriving DecidableEq, Repr

def handlerFault : Error := ⟨.supervisedStop, "handler_fault"⟩

/-- `classify_fault`, and the two catch clauses of the handler boundary. -/
def classifyFault : Option Error → FailureSource × Error
  | some err => (.resource, err)
  | none => (.handlerThrow, handlerFault)

namespace State

def record (s : State) (m : Nat) (kind : EventKind) : State := { s with log := s.log ++ [⟨m, kind⟩] }

def countFault (s : State) : State := { s with faults := s.faults + 1 }

def countRestart (s : State) : State := { s with restartsTotal := s.restartsTotal + 1 }

def deadLetterAndReclaim (s : State) (m : Nat) (err : Error) : State :=
  ({ s with deadLetters := s.deadLetters + 1 }.record m (.deadLettered err)).record m .reclaimed

def completeAndReclaim (s : State) (m : Nat) : State :=
  ({ s with messagesProcessed := s.messagesProcessed + 1 }.record m .completed).record m .reclaimed

def destroy (s : State) (m frame : Nat) : State := s.record m (.destroyed frame)

def chargeRestart (p : SupervisionPolicy) (s : State) (m : Nat) (now : Int) : Bool × State :=
  let r := s.window.charge p.toSupervisionPolicy now
  (r.2, { s with window := r.1 }.record m (.charged now r.2))

def doStop (s : State) : State := { s with stopped := true }

def doEscalate (s : State) (m : Nat) : State :=
  ({ s with escalations := s.escalations + 1 }.record m .escalated).doStop

def reconstructNow (s : State) (m : Nat) (wired : Bool) : State :=
  let s := { s with used := s.used && !s.factory }.record m (.reconstructed wired)
  if wired then s else s.doEscalate m

def doRestart (p : SupervisionPolicy) (s : State) (m : Nat) (a : Attempt) : State :=
  match s.chargeRestart p m a.now with
  | (false, s) => s.doEscalate m
  | (true, s) => s.countRestart.reconstructNow m a.wired

def run (s : State) (m : Nat) (retry : Bool) (outcome : Outcome) : State :=
  let s := { s with used := true }.record m (.ran retry (!s.used))
  match outcome with
  | .returned | .threw _ => s
  | .asyncDone | .asyncFaulted _ | .suspended => { s with frames := s.frames + 1 }.record m (.created s.frames)

/-- `handle_restart_retry`, with as many attempts left as the first argument says. -/
def handleRestartRetry (p : SupervisionPolicy) (m : Nat) (attempts : Nat → Attempt) :
    Nat → Nat → Error → State → State
  | 0, _, err, s => s.deadLetterAndReclaim m err
  | left+1, attempt, err, s =>
    let a := attempts attempt
    match s.chargeRestart p m a.now with
    | (false, s) => (s.deadLetterAndReclaim m err).doEscalate m
    | (true, s) =>
      let s := s.countRestart.reconstructNow m a.wired
      if s.stopped then s.deadLetterAndReclaim m err
      else
        let frame := s.frames
        let s := s.run m true a.outcome
        match a.outcome with
        | .returned => s.completeAndReclaim m
        | .threw resource =>
          handleRestartRetry p m attempts left (attempt + 1) (classifyFault resource).2 s.countFault
        | .asyncDone => (s.destroy m frame).completeAndReclaim m
        | .asyncFaulted resource =>
          handleRestartRetry p m attempts left (attempt + 1) (classifyFault resource).2
            (s.destroy m frame).countFault
        | .suspended =>
          handleRestartRetry p m attempts left (attempt + 1) ⟨.internal, "retry_async_unsupported"⟩
            (s.destroy m frame).countFault

def onFaultSequential (p : SupervisionPolicy) (s : State) (m : Nat) (attempts : Nat → Attempt)
    (src : FailureSource) (err : Error) : State :=
  let s := s.countFault
  if 0 < p.maxAskRetries ∧ p.decision = .restart ∧ src.transient = false then
    s.handleRestartRetry p m attempts p.maxAskRetries 0 err
  else
    let s := s.deadLetterAndReclaim m err
    if src.transient then s
    else
      match p.decision with
      | .resume => s
      | .restart => s.doRestart p m (attempts 0)
      | .stop => s.doStop
      | .escalate => s.doEscalate m

def claimed (s : State) : State := { s with dispatched := s.dispatched + 1 }

/-- A message that was dequeued and claimed, in `drain_step` and in `drain_step_governed_seq`. -/
def dispatch (p : SupervisionPolicy) (s : State) (outcome : Outcome) (attempts : Nat → Attempt) : State :=
  let m := s.dispatched
  let s := s.claimed
  if s.stopped then s.deadLetterAndReclaim m ⟨.supervisedStop, "actor_stopped"⟩
  else
    let frame := s.frames
    let s := s.run m false outcome
    match outcome with
    | .returned => s.completeAndReclaim m
    | .threw resource =>
      s.onFaultSequential p m attempts (classifyFault resource).1 (classifyFault resource).2
    | .asyncDone => (s.destroy m frame).completeAndReclaim m
    | .asyncFaulted resource =>
      (s.destroy m frame).onFaultSequential p m attempts (classifyFault resource).1 (classifyFault resource).2
    | .suspended => { s with parked := some (m, frame) }

def completeParked (p : SupervisionPolicy) (s : State) (m frame : Nat) (resumption : Resumption)
    (attempts : Nat → Attempt) : State :=
  let unparked := { s with parked := none }.destroy m frame
  match resumption with
  | .suspendedAgain => s
  | .done => unparked.completeAndReclaim m
  | .faulted resource => unparked.onFaultSequential p m attempts (classifyFault resource).1 (classifyFault resource).2
  | .threw => unparked.onFaultSequential p m attempts .handlerThrow handlerFault

end State

/-- What happens to the activation: a message is dispatched, or the frame of the parked one is resumed. -/
inductive Label
  | dispatch (outcome : Outcome) (attempts : Nat → Attempt)
  | resume (resumption : Resumption) (attempts : Nat → Attempt)

/-- A message is not dispatched while another is parked, and nothing is resumed while none is. -/
def step (p : SupervisionPolicy) (s : State) : Label → State
  | .dispatch outcome attempts =>
    match s.parked with
    | none => s.dispatch p outcome attempts
    | some _ => s
  | .resume resumption attempts =>
    match s.parked with
    | none => s
    | some (m, frame) => s.completeParked p m frame resumption attempts

def run (p : SupervisionPolicy) (factory : Bool) (labels : List Label) : State := labels.foldl (step p) { factory }

end Quark.Supervision
