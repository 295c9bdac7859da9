import Quark.Activation

/-! The drains of `activation.hpp` next to each other, sequential, governed and reentrant, with the producers in
front of them: `post`, `post_governed`, `post_governed_unconditional` and `post_deactivate`. Each step makes one
access to what the threads share. The execution word, the linger and the frames of the reentrant lane are in the
modules about them; here whoever holds the lane may drain at any time. -/
namespace Quark.Drain

open Vyukov
open Activation (Desc)

inductive Kind
  | sequential | governed | reentrant
  deriving DecidableEq, Repr

inductive Overflow
  | block | dropOldest | dropNewest | fail
  deriving DecidableEq, Repr

structure Config where
  kind : Kind
  budget : Nat
  deadlineShed : Bool := false
  shedThreshold : UInt64 := 0

inductive ProducerPc (M : Type)
  | idle
  /-- the bound is read and is not 0: before the loads of `depth` -/
  | loadEnqueued (m : M) (bound : UInt32)
  | loadDrained (m : M) (bound : UInt32) (enqueued : UInt64)
  /-- at the bound: before the read of the policy -/
  | overflow (m : M)
  | count (m : M)
  | exchange (d : Desc M)
  | linking (d : Desc M)
  deriving DecidableEq, Repr

/-- The locals of one drain. -/
structure Pass where
  remaining : Nat
  bound : UInt32 := 0
  dropOldest : Bool := false
  deriving DecidableEq, Repr

inductive LanePc (M : Type)
  | away
  /-- between the reads of the bound and of the policy -/
  | overflow (bound : UInt32)
  | loop (l : Pass)
  | dequeue (l : Pass)
  | resident (l : Pass) (d : Desc M)
  | drained (l : Pass) (d : Desc M) (enqueued : UInt64)
  | claim (l : Pass) (d : Desc M) (resident : UInt64)
  deriving DecidableEq, Repr

inductive Outcome
  | returned
  | suspended
  /-- the fault is charged; `stops` if that stops the actor -/
  | faulted (stops : Bool)
  deriving DecidableEq, Repr

/-- What comes from outside where a descriptor is claimed: whether it was cancelled before, whether its deadline
has passed, and how its handler ends. -/
structure Verdict where
  cancelled : Bool := false
  doomed : Bool := false
  outcome : Outcome := .returned
  deriving DecidableEq, Repr

/-- `enqueued` and `drained` count without end; whoever reads them sees the last 64 bits. -/
structure State (M P : Type) where
  mailbox : Mailbox (Desc M) := {}
  deq : Consumer := .idle
  producer : P → ProducerPc M := fun _ => .idle
  lane : LanePc M := .away
  deactivateToken : Bool := false
  retireRequested : Bool := false
  stopped : Bool := false
  bound : UInt32 := 0
  overflow : Overflow := .block
  enqueued : Nat := 0
  drained : Nat := 0
  sheds : Nat := 0
  blocks : Nat := 0
  posted : List (Node (Desc M)) := []
  dequeued : List (Node (Desc M)) := []
  dispatched : List (Desc M) := []
  deadLettered : List (Desc M) := []
  reclaimed : List (Desc M) := []

inductive Label (M P : Type)
  /-- `checked` on the way through `post_governed`; without it what the engine posts itself -/
  | post (p : P) (m : M) (checked : Bool)
  /-- `post_deactivate`, from the wheel or from `request_passivate` -/
  | postDeactivate (p : P)
  | producer (p : P)
  | lane (v : Verdict)
  /-- the reentrant lane finds its gate shut or its frames at the cap -/
  | leave
  | stop
  | setLive (bound : UInt32) (overflow : Overflow)
  deriving DecidableEq, Repr

section

variable {M P : Type} [DecidableEq M] [DecidableEq P]

namespace State

def setProducer (s : State M P) (p : P) (pc : ProducerPc M) : State M P :=
  { s with producer := Function.update s.producer p pc }

/-- What `depth()` returns where its first load read `enqueued` and its second is in `s`. -/
def depth (s : State M P) (enqueued : UInt64) : UInt64 := enqueued - UInt64.ofNat s.drained

def deadLetterAndReclaim (s : State M P) (d : Desc M) : State M P :=
  { s with deadLettered := s.deadLettered ++ [d], reclaimed := s.reclaimed ++ [d] }

def noteShed (s : State M P) : State M P := { s with sheds := s.sheds + 1 }

end State

def stepPost (cfg : Config) (s : State M P) (p : P) (m : M) (checked : Bool) : Option (State M P) :=
  if s.producer p = .idle then
    some (s.setProducer p (match cfg.kind with
      | .governed => if checked ∧ s.bound ≠ 0 then .loadEnqueued m s.bound else .count m
      | .sequential | .reentrant => .exchange (.message m)))
  else none

/-- `try_claim_deactivate_token`; the loser does nothing. -/
def stepPostDeactivate (s : State M P) (p : P) : Option (State M P) :=
  if s.producer p = .idle then
    if s.deactivateToken then some s
    else some ({ s with deactivateToken := true }.setProducer p (.exchange .deactivate))
  else none

/-- A message is exchanged only while its descriptor is outside the mailbox; of the control descriptor nobody
makes sure of that but the token. -/
def Outside (s : State M P) : Desc M → Prop
  | .message m => s.posted.count (.item (.message m)) = s.dequeued.count (.item (.message m))
  | .deactivate => True

instance (s : State M P) (d : Desc M) : Decidable (Outside s d) := by
  cases d <;> unfold Outside <;> infer_instance

def stepProducer (s : State M P) (p : P) : Option (State M P) :=
  match s.producer p with
  | .idle => none
  | .loadEnqueued m bound => some (s.setProducer p (.loadDrained m bound (UInt64.ofNat s.enqueued)))
  | .loadDrained m bound enqueued =>
    some (s.setProducer p (if bound.toUInt64 ≤ s.depth enqueued then .overflow m else .count m))
  | .overflow m =>
    match s.overflow with
    | .block => some ({ s with blocks := s.blocks + 1 }.setProducer p .idle)
    | .fail | .dropNewest => some (s.noteShed.setProducer p .idle)
    | .dropOldest => some (s.setProducer p (.count m))
  | .count m => some ({ s with enqueued := s.enqueued + 1 }.setProducer p (.exchange (.message m)))
  | .exchange d =>
    if Outside s d then
      some ({ s with mailbox := s.mailbox.exchange (.item d), posted := s.posted ++ [Node.item d] }.setProducer p
        (.linking d))
    else none
  | .linking d => some ({ s with mailbox := s.mailbox.link (.item d) }.setProducer p .idle)

def Pass.take (l : Pass) : Pass := { l with remaining := l.remaining - 1 }

/-- The end of a `try_dequeue`. -/
def taken (cfg : Config) (s : State M P) (l : Pass) (r : DrainResult (Desc M)) : State M P :=
  match r.desc with
  | some (.item d) =>
    { s with
      dequeued := s.dequeued ++ [.item d]
      lane := if cfg.kind = .governed then .resident l.take d else .claim l.take d 0 }
  | _ => { s with lane := .away }

def stepDequeue (cfg : Config) (s : State M P) (l : Pass) : State M P :=
  let r := s.mailbox.tryDequeue s.deq
  let s := { s with mailbox := r.1, deq := r.2.1 }
  match r.2.2 with
  | none => s
  | some r => taken cfg s l r

def dispatch (cfg : Config) (s : State M P) (d : Desc M) : Outcome → State M P
  | .returned => { s with dispatched := s.dispatched ++ [d], reclaimed := s.reclaimed ++ [d] }
  | .suspended =>
    { s with
      dispatched := s.dispatched ++ [d]
      lane := if cfg.kind = .reentrant then s.lane else .away }
  | .faulted stops =>
    { s with dispatched := s.dispatched ++ [d], stopped := s.stopped || stops }.deadLetterAndReclaim d

def stepClaim (cfg : Config) (s : State M P) (l : Pass) (d : Desc M) (resident : UInt64) (v : Verdict) : State M P :=
  let s := { s with lane := .loop l }
  if v.cancelled ∧ d ≠ .deactivate then { s with reclaimed := s.reclaimed ++ [d] }
  -- `admit` of the reentrant lane has no such branch
  else if d = .deactivate ∧ cfg.kind ≠ .reentrant then { s with retireRequested := true, deactivateToken := false }
  else if s.stopped then s.deadLetterAndReclaim d
  else if cfg.kind = .governed ∧ l.dropOldest ∧ l.bound.toUInt64 < resident then s.noteShed.deadLetterAndReclaim d
  else if cfg.kind = .governed ∧ cfg.deadlineShed ∧ v.doomed ∧ cfg.shedThreshold ≤ resident then
    s.noteShed.deadLetterAndReclaim d
  else dispatch cfg s d v.outcome

def stepLane (cfg : Config) (s : State M P) (v : Verdict) : State M P :=
  match s.lane with
  | .away =>
    { s with lane := if cfg.kind = .governed then .overflow s.bound else .loop { remaining := cfg.budget } }
  | .overflow bound =>
    { s with lane := .loop { remaining := cfg.budget, bound, dropOldest := bound ≠ 0 ∧ s.overflow = .dropOldest } }
  | .loop l => { s with lane := if l.remaining = 0 then .away else .dequeue l }
  | .dequeue l => stepDequeue cfg s l
  | .resident l d => { s with lane := .drained l d (UInt64.ofNat s.enqueued) }
  | .drained l d enqueued =>
    { s with drained := s.drained + 1, lane := .claim l d (enqueued - UInt64.ofNat s.drained) }
  | .claim l d resident => stepClaim cfg s l d resident v

def stepLeave (cfg : Config) (s : State M P) : Option (State M P) :=
  match s.lane with
  | .loop _ => if cfg.kind = .reentrant then some { s with lane := .away } else none
  | _ => none

def step (cfg : Config) (s : State M P) : Label M P → Option (State M P)
  | .post p m checked => stepPost cfg s p m checked
  | .postDeactivate p => stepPostDeactivate s p
  | .producer p => stepProducer s p
  | .lane v => some (stepLane cfg s v)
  | .leave => stepLeave cfg s
  | .stop => some { s with stopped := true }
  | .setLive bound overflow => some { s with bound, overflow }

end

end Quark.Drain
