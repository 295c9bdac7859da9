import Quark.Lib.TimingWheel

/-! `TimerService` of `timer_service.hpp` over the wheel and the entry pool of `timer_wheel.hpp`. What runs
under `mu_` is one step; user code runs between the steps of an advance. -/
namespace Quark.TimerService

abbrev kWheelSize : Nat := 64

abbrev kLevels : Nat := 4

structure Config where
  tick : Int := 1000000
  entryCapacity : Nat := 1024

namespace Config

variable (cfg : Config)

def tickNs : Nat := if cfg.tick ≤ 0 then 1 else cfg.tick.toNat

def chunk : Nat := if cfg.entryCapacity = 0 then 1 else cfg.entryCapacity

def ticksCeil (d : Int) : Nat :=
  let ns := if d ≤ 0 then 0 else d.toNat
  let t := (ns + cfg.tickNs - 1) / cfg.tickNs
  if t = 0 then 1 else t

end Config

/-- Its expiry is kept with the item that stands for it. `payload` is the timer whose closure was bound in it last. -/
structure TimerEntry where
  period : Nat := 0
  gen : Nat := 0
  cancelled : Bool := false
  active : Bool := false
  payload : Nat := 0

structure Due where
  item : TimingItem Nat
  live : Bool
  deriving DecidableEq, Repr

/-- How often a timer had been popped, and fired, when the first cancel took effect. -/
structure Cancel where
  pops : Nat
  fires : Nat
  deriving DecidableEq, Repr

/-- What became of a timer. `entry` and `gen` are its handle; `fired` are the times of its fires. -/
structure Timer where
  entry : Nat
  gen : Nat
  first : Nat
  period : Nat
  pops : Nat := 0
  fired : List Nat := []
  cancelled : Option Cancel := none
  destroyed : Nat := 0
  ended : Bool := false
  deriving DecidableEq, Repr

namespace Timer

variable (t : Timer)

def pop : Timer := { t with pops := t.pops + 1 }

def fire (now : Nat) : Timer := { t with fired := t.fired ++ [now] }

def cancel : Timer := { t with cancelled := t.cancelled.or (some ⟨t.pops, t.fired.length⟩) }

def destroy : Timer := { t with destroyed := t.destroyed + 1 }

def finish : Timer := { t with ended := true }

end Timer

/-- Where the advance that runs stands; `adv_mu_` lets one run at a time. -/
inductive Phase
  | idle
  | firing (done todo : List Due)
  | destroying (done : List Due) (d : Due) (todo : List Due)
  | lateDestroying (done todo : List Nat)
  deriving DecidableEq, Repr

structure State where
  entries : Nat → TimerEntry := fun _ => {}
  free : List Nat := []
  made : Nat := 0
  wheel : TimingWheel kWheelSize kLevels Nat := {}
  phase : Phase := .idle
  timers : List Timer := []

inductive Label
  | scheduleAfter (delay : Int)
  | scheduleEvery (period : Int)
  | cancel (k : Nat)
  | tick
  | go
  deriving DecidableEq, Repr

namespace State

variable (s : State)

def setEntry (e : Nat) (entry : TimerEntry) : State := { s with entries := Function.update s.entries e entry }

def onPayload (e : Nat) (f : Timer → Timer) : State := { s with timers := s.timers.modify (s.entries e).payload f }

def grow (cfg : Config) : State :=
  { s with free := (List.range' s.made cfg.chunk).reverse ++ s.free, made := s.made + cfg.chunk }

def place (e : Nat) (free : List Nat) (delay period : Nat) : State :=
  let expiry := s.wheel.now + delay
  { s with
    entries := Function.update s.entries e
      { s.entries e with period, cancelled := false, active := true, payload := s.timers.length }
    free
    wheel := s.wheel.insert ⟨expiry, e⟩
    timers := s.timers ++ [{ entry := e, gen := (s.entries e).gen, first := expiry, period }] }

def arm (cfg : Config) (delay period : Int) : Option State :=
  let s := if s.free = [] then s.grow cfg else s
  match s.free with
  | [] => none
  | e :: free => some (s.place e free (cfg.ticksCeil delay) (if 0 < period then cfg.ticksCeil period else 0))

def release (e : Nat) : State :=
  { (s.onPayload e Timer.finish).setEntry e
      { s.entries e with active := false, cancelled := false, gen := (s.entries e).gen + 1 } with
    free := e :: s.free }

def cancelEntry (e gen : Nat) : State :=
  if (s.entries e).active ∧ (s.entries e).gen = gen then
    (s.onPayload e Timer.cancel).setEntry e { s.entries e with cancelled := true }
  else s

def popDue : State :=
  let due := s.wheel.tick.1
  let batch := due.map fun it => (⟨it, !(s.entries it.val).cancelled⟩ : Due)
  { due.foldl (fun s it => s.onPayload it.val Timer.pop) s with
    wheel := s.wheel.tick.2
    phase := if batch = [] then .idle else .firing [] batch }

/-- The last part of `step`, for one entry of the batch: it is recycled, or armed again, or it was cancelled
in flight. -/
def settleOne (s : State × List Nat) (d : Due) : State × List Nat :=
  let entry := s.1.entries d.item.val
  if !d.live ∨ entry.period = 0 then (s.1.release d.item.val, s.2)
  else if entry.cancelled then (s.1, s.2 ++ [d.item.val])
  else ({ s.1 with wheel := s.1.wheel.insert ⟨d.item.expiry + entry.period, d.item.val⟩ }, s.2)

def settle (batch : List Due) : State :=
  let settled := batch.foldl settleOne (s, [])
  { settled.1 with phase := if settled.2 = [] then .idle else .lateDestroying [] settled.2 }

def releaseLate (late : List Nat) : State := { late.foldl release s with phase := .idle }

def at_ (phase : Phase) : State := { s with phase }

def go : Option State :=
  match s.phase with
  | .idle => none
  | .firing done (d :: todo) =>
    if d.live then
      some
        ((s.onPayload d.item.val fun t => t.fire s.wheel.now).at_
          (if (s.entries d.item.val).period = 0 then .destroying done d todo else .firing (done ++ [d]) todo))
    else some ((s.onPayload d.item.val Timer.destroy).at_ (.firing (done ++ [d]) todo))
  | .destroying done d todo => some ((s.onPayload d.item.val Timer.destroy).at_ (.firing (done ++ [d]) todo))
  | .firing done [] => some (s.settle done)
  | .lateDestroying done (e :: todo) => some ((s.onPayload e Timer.destroy).at_ (.lateDestroying (done ++ [e]) todo))
  | .lateDestroying done [] => some (s.releaseLate done)

def step (cfg : Config) (s : State) : Label → Option State
  | .scheduleAfter delay => s.arm cfg delay 0
  | .scheduleEvery period => s.arm cfg period period
  | .cancel k => (s.timers[k]?).map fun t => s.cancelEntry t.entry t.gen
  | .tick => if s.phase = .idle then some s.popDue else none
  | .go => s.go

end State

end Quark.TimerService
