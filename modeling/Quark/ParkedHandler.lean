import Quark.ExecState
import Quark.Lib.Machine
import Mathlib.Data.List.Nodup

/-! One handler coroutine of a Sequential activation, from its dispatch to the re-admission of the
activation: the lane that runs it first, and for each ask the thread inside `ReplyCell::resolve` and, if the
resume is its to make, `Activation::complete_parked`. -/
namespace Quark.Parked

/-- `st_` of a reply cell. -/
inductive Cell
  | empty | waiter | resolved
  deriving DecidableEq, Repr

/-- The lane, or the resolver of the `k`-th ask. -/
inductive Thread
  | lane
  | carrier (k : Nat)
  deriving DecidableEq, Repr

inductive Frame
  | running (t : Thread)
  | suspended (k : Nat)
  | done
  deriving DecidableEq, Repr

inductive LanePc
  | running
  /-- the dispatch has returned: before `async_frame.done()` -/
  | returned
  | storeFrame | storeDesc | park
  | suspended
  /-- the handler finished inline -/
  | inlineDestroy | inlineComplete
  | drained
  deriving DecidableEq, Repr

inductive CarrierPc
  | waiting
  | gate
  | resume
  | running
  /-- `resume()` has returned: before `parked_frame_.done()` -/
  | returned
  | destroy | clear | complete | readmitParked
  | finished
  | crashed
  deriving DecidableEq, Repr

structure State where
  exec : ExecState := .running
  cell : Nat → Cell := fun _ => .empty
  frame : Frame := .running .lane
  asks : Nat := 0
  parkedFrame : Bool := false
  parkedDesc : Bool := false
  lane : LanePc := .running
  carrier : Nat → CarrierPc := fun _ => .waiting
  suspended : List Nat := []
  resumed : List Nat := []
  destroys : Nat := 0
  /-- the descriptor is completed, or its fault recorded, and reclaimed -/
  completes : Nat := 0
  leaves : Nat := 0

inductive Label
  | ask
  /-- the running coroutine returns, or its promise takes an exception -/
  | finish
  | throw
  | lane
  | resolve (k : Nat)
  | carrier (k : Nat)
  deriving DecidableEq, Repr

def State.setCarrier (s : State) (k : Nat) (pc : CarrierPc) : State :=
  { s with carrier := Function.update s.carrier k pc }

/-- The call that ran the coroutine on thread `t` returns. -/
def State.returnTo (s : State) : Thread → State
  | .lane => { s with lane := .returned }
  | .carrier k => s.setCarrier k .returned

/-- The compare-exchange of `suspend`; a reply that is already there does not suspend. -/
def stepAsk (s : State) : Option State :=
  match s.frame with
  | .running t =>
    if s.cell s.asks = .empty then
      some ({ s with
        cell := Function.update s.cell s.asks Cell.waiter
        frame := .suspended s.asks
        asks := s.asks + 1
        suspended := s.suspended ++ [s.asks] }.returnTo t)
    else some { s with asks := s.asks + 1 }
  | _ => none

def stepFinish (s : State) : Option State :=
  match s.frame with
  | .running t => some ({ s with frame := .done }.returnTo t)
  | _ => none

def stepThrow (s : State) : Option State :=
  match s.frame with
  | .running (.carrier k) => some ({ s with frame := .done }.setCarrier k .destroy)
  | _ => none

def stepLane (s : State) : Option State :=
  match s.lane with
  | .running | .suspended | .drained => none
  | .returned => some { s with lane := if s.frame = .done then .inlineDestroy else .storeFrame }
  | .storeFrame => some { s with parkedFrame := true, lane := .storeDesc }
  | .storeDesc => some { s with parkedDesc := true, lane := .park }
  | .park => some { s with exec := .parked, lane := .suspended }
  | .inlineDestroy => some { s with destroys := s.destroys + 1, lane := .inlineComplete }
  | .inlineComplete => some { s with completes := s.completes + 1, lane := .drained }

/-- The exchange of `resolve`: only a waiter is resumed from here. -/
def stepResolve (s : State) (k : Nat) : Option State :=
  if s.carrier k = .waiting then
    some ({ s with cell := Function.update s.cell k Cell.resolved }.setCarrier k
      (if s.cell k = Cell.waiter then .gate else .finished))
  else none

def stepCarrier (s : State) (k : Nat) : Option State :=
  match s.carrier k with
  | .waiting | .running | .finished | .crashed => none
  | .gate => some (if s.exec = .parked then s.setCarrier k .resume else s)
  | .resume =>
    if s.frame = .suspended k then
      some ({ s with frame := .running (.carrier k), resumed := s.resumed ++ [k] }.setCarrier k .running)
    else some (s.setCarrier k .crashed)
  | .returned =>
    if s.parkedFrame ∧ s.destroys = 0 then
      some (s.setCarrier k (if s.frame = .done then .destroy else .finished))
    else some (s.setCarrier k .crashed)
  | .destroy => some ({ s with destroys := s.destroys + 1 }.setCarrier k .clear)
  | .clear => some ({ s with parkedFrame := false, parkedDesc := false }.setCarrier k .complete)
  | .complete => some ({ s with completes := s.completes + 1 }.setCarrier k .readmitParked)
  | .readmitParked =>
    let r := s.exec.readmitFromParked
    some ({ s with exec := r.1, leaves := if r.2 then s.leaves + 1 else s.leaves }.setCarrier k .finished)

def step (s : State) : Label → Option State
  | .ask => stepAsk s
  | .finish => stepFinish s
  | .throw => stepThrow s
  | .lane => stepLane s
  | .resolve k => stepResolve s k
  | .carrier k => stepCarrier s k

end Quark.Parked
