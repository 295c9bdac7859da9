import Mathlib.Logic.Function.Basic

/-! `exec_state.hpp`: the six states of an activation and the transitions threads take on the cell. -/
namespace Quark

inductive ExecState
  | idle | scheduled | running | parked | dormant | retired
  deriving DecidableEq, Repr

namespace ExecState

/-- A strong compare-exchange: the state after it, and whether it took place. -/
def cas (s expected desired : ExecState) : ExecState × Bool :=
  if s = expected then (desired, true) else (s, false)

def tryAcquire (s : ExecState) : ExecState × Bool := s.cas .scheduled .running
def reacquireFromIdle (s : ExecState) : ExecState × Bool := s.cas .idle .running
def reacquireFromParked (s : ExecState) : ExecState × Bool := s.cas .parked .running
def reacquireFromDormant (s : ExecState) : ExecState × Bool := s.cas .dormant .running
def readmitFromParked (s : ExecState) : ExecState × Bool := s.cas .parked .scheduled
def readmitFromDormant (s : ExecState) : ExecState × Bool := s.cas .dormant .scheduled
def retireFromDormant (s : ExecState) : ExecState × Bool := s.cas .dormant .retired
def readmitFromRetired (s : ExecState) : ExecState × Bool := s.cas .retired .scheduled

/-- The places of `notify_enqueued_fast`, each before one access to the cell. -/
inductive NotifyPc
  | load | casIdle | recheck | casDormant
  deriving DecidableEq, Repr

inductive NotifyStep
  | goto (pc : NotifyPc)
  | ret (wake : Bool)
  deriving DecidableEq, Repr

def notifyEnqueuedFast (s : ExecState) : NotifyPc → ExecState × NotifyStep
  | .load =>
    match s with
    | .idle => (s, .goto .casIdle)
    | .dormant => (s, .goto .casDormant)
    | _ => (s, .ret false)
  | .casIdle =>
    match s.cas .idle .scheduled with
    | (s, true) => (s, .ret true)
    | (s, false) => (s, .goto .recheck)
  | .recheck => if s = .dormant then (s, .goto .casDormant) else (s, .ret false)
  | .casDormant =>
    let r := s.readmitFromDormant
    (r.1, .ret r.2)

/-- A notify step either leaves the cell alone, or takes it from `Idle` or `Dormant` to `Scheduled` and
tells its caller to enqueue the activation. -/
theorem notifyEnqueuedFast_cases (s : ExecState) (pc : NotifyPc) :
    (s.notifyEnqueuedFast pc).1 = s ∧ (s.notifyEnqueuedFast pc).2 ≠ .ret true ∨
      (s = .idle ∨ s = .dormant) ∧ s.notifyEnqueuedFast pc = (.scheduled, .ret true) := by
  cases s <;> cases pc <;> simp [notifyEnqueuedFast, cas, readmitFromDormant]

/-- The two states `close_out` may leave behind. -/
inductive Rest
  | idle | dormant
  deriving DecidableEq, Repr

def Rest.state : Rest → ExecState
  | .idle => .idle
  | .dormant => .dormant

/-- The compare-exchange with which `close_out` takes the activation back. -/
def reacquire (s : ExecState) : Rest → ExecState × Bool
  | .idle => s.reacquireFromIdle
  | .dormant => s.reacquireFromDormant

theorem reacquire_eq (s : ExecState) (r : Rest) : s.reacquire r = s.cas r.state .running := by
  cases r <;> rfl

theorem Rest.state_ne_running (r : Rest) : r.state ≠ .running := by
  cases r <;> simp [Rest.state]

end ExecState

end Quark
