import Mathlib.Logic.Function.Basic
import Quark.BoundedMap
import Quark.Lib.Machine

/-! `ReliableSender` and `ReliableReceiver` of `delivery.hpp`, and the link between them: whatever was handed to a
sink or acknowledged may arrive late, again or never. -/
namespace Quark

variable {K B : Type}

structure ReliableFrame (K : Type) where
  sender : K
  seq : Nat
  /-- oldest unacked seq at the sender when this frame was (re)sent -/
  base : Nat
  deriving DecidableEq, Repr

namespace Reliable

structure Item (B : Type) where
  seq : Nat
  body : B
  deriving DecidableEq, Repr

structure PumpCall where
  outermost : Bool
  window : Nat
  n : Nat
  cursor : Nat
  deriving DecidableEq, Repr

structure ReliableSender (K B : Type) where
  sender : K
  next : Nat := 1
  pending : List (Item B) := []
  inPump : Bool := false
  deferredAck : Nat := 0
  hasDeferredAck : Bool := false
  /-- the `pump` calls in progress, innermost first: a sink may call `pump` again -/
  pumps : List PumpCall := []

namespace ReliableSender

def enqueue (s : ReliableSender K B) (body : B) : Nat × ReliableSender K B :=
  (s.next, { s with pending := s.pending ++ [⟨s.next, body⟩], next := s.next + 1 })

def onAck (s : ReliableSender K B) (cumulative : Nat) : ReliableSender K B :=
  if s.inPump then { s with deferredAck := max s.deferredAck cumulative, hasDeferredAck := true }
  else { s with pending := s.pending.dropWhile fun item => item.seq ≤ cumulative }

def startPump (s : ReliableSender K B) (window : Nat) : ReliableSender K B :=
  match s.pending with
  | [] => s
  | front :: _ =>
    { s with
      inPump := true
      pumps := { outermost := !s.inPump, window := window, n := 0, cursor := front.seq } :: s.pumps }

def flushed (s : ReliableSender K B) : Option Nat :=
  match s.pumps with
  | call :: _ => if call.outermost ∧ s.hasDeferredAck then some s.deferredAck else none
  | [] => none

def leavePump (s : ReliableSender K B) : ReliableSender K B :=
  match s.pumps with
  | [] => s
  | call :: rest =>
    if call.outermost then
      if s.hasDeferredAck then
        { s with pumps := rest, inPump := false, hasDeferredAck := false }.onAck s.deferredAck
      else { s with pumps := rest, inPump := false }
    else { s with pumps := rest }

def lowerBound (s : ReliableSender K B) (cursor : Nat) : Option (Item B) :=
  s.pending.find? fun item => cursor ≤ item.seq

/-- What the loop of the innermost `pump` call hands to the sink next; with nothing to hand over it returns. -/
def nextFrame (s : ReliableSender K B) : Option (ReliableFrame K × B) :=
  match s.pumps, s.pending.head? with
  | call :: _, some front =>
    if call.window = 0 ∨ call.n ≠ call.window then
      (s.lowerBound call.cursor).map fun item =>
        ({ sender := s.sender, seq := item.seq, base := front.seq }, item.body)
    else none
  | _, _ => none

def advance (s : ReliableSender K B) (seq : Nat) : ReliableSender K B :=
  match s.pumps with
  | [] => s
  | call :: rest => { s with pumps := { call with n := call.n + 1, cursor := seq + 1 } :: rest }

end ReliableSender

inductive Verdict
  | deliver | duplicate | gap
  deriving DecidableEq, Repr

structure ReliableReceiver (K : Type) where
  wm : BoundedMap K Nat

namespace ReliableReceiver

def ofCap (maxSenders : Nat) : ReliableReceiver K := ⟨({} : BoundedMap K Nat).setCap maxSenders⟩

variable [DecidableEq K]

def accept (r : ReliableReceiver K) (f : ReliableFrame K) : Verdict × ReliableReceiver K :=
  match r.wm.find f.sender with
  | none =>
    if f.seq ≠ f.base then (.gap, r) else (.deliver, ⟨r.wm.touch f.sender 0 fun _ => f.seq⟩)
  | some w =>
    if f.seq ≤ w then (.duplicate, r)
    else if f.seq ≠ w + 1 then (.gap, r)
    else (.deliver, ⟨r.wm.touch f.sender 0 fun _ => f.seq⟩)

def ackFor (r : ReliableReceiver K) (sender : K) : Nat := (r.wm.find sender).getD 0

end ReliableReceiver

structure Link (K B : Type) where
  sender : K → ReliableSender K B := fun k => { sender := k }
  receiver : ReliableReceiver K
  frames : List (ReliableFrame K × B) := []
  acks : List (K × Nat) := []
  /-- the bodies enqueued, and those the receiver was told to deliver with their seq -/
  enqueued : K → List B := fun _ => []
  delivered : K → List (Nat × B) := fun _ => []

inductive Label (K B : Type)
  | enqueue (k : K) (body : B)
  | pump (k : K) (window : Nat)
  /-- the next round of the loop of the innermost `pump` call: a call of the sink, or the return -/
  | round (k : K)
  | unwind (k : K)
  | accept (f : ReliableFrame K) (body : B)
  | ackFor (k : K)
  | onAck (k : K) (cumulative : Nat)
  deriving DecidableEq, Repr

def start (maxSenders : Nat) : Link K B := { receiver := .ofCap maxSenders }

section

variable [DecidableEq K]

namespace Link

def setSender (s : Link K B) (k : K) (snd : ReliableSender K B) : Link K B :=
  { s with sender := Function.update s.sender k snd }

end Link

def stepRound (s : Link K B) (k : K) : Option (Link K B) :=
  match (s.sender k).pumps with
  | [] => none
  | _ :: _ =>
    match (s.sender k).nextFrame with
    | some (f, body) => some ({ s with frames := s.frames ++ [(f, body)] }.setSender k ((s.sender k).advance f.seq))
    | none => some (s.setSender k (s.sender k).leavePump)

def stepAccept [DecidableEq B] (s : Link K B) (f : ReliableFrame K) (body : B) : Option (Link K B) :=
  if (f, body) ∈ s.frames then
    match s.receiver.accept f with
    | (.deliver, receiver) =>
      some { s with
        receiver
        delivered := Function.update s.delivered f.sender (s.delivered f.sender ++ [(f.seq, body)]) }
    | (_, receiver) => some { s with receiver }
  else none

def step [DecidableEq B] (s : Link K B) : Label K B → Option (Link K B)
  | .enqueue k body =>
    some ({ s with enqueued := Function.update s.enqueued k (s.enqueued k ++ [body]) }.setSender k
      ((s.sender k).enqueue body).2)
  | .pump k window => some (s.setSender k ((s.sender k).startPump window))
  | .round k => stepRound s k
  | .unwind k =>
    match (s.sender k).pumps with
    | [] => none
    | _ :: _ => some (s.setSender k (s.sender k).leavePump)
  | .accept f body => stepAccept s f body
  | .ackFor k => some { s with acks := s.acks ++ [(k, s.receiver.ackFor k)] }
  | .onAck k cumulative =>
    if (k, cumulative) ∈ s.acks then some (s.setSender k ((s.sender k).onAck cumulative)) else none

end

end Reliable

end Quark
