import Mathlib.Logic.Function.Basic
import Quark.Lib.Machine
import Quark.Persistence

/-! `ReplyCell`, its pool, its `Responder` and its `AskFuture`: each atomic access is a step, and so is each access to
the plain fields that a concurrent thread may reach. -/
namespace Quark

inductive CellState
  | empty | waiter | resolved
  deriving DecidableEq, Repr

abbrev AskId := Nat

/-- `store_` and `has_value_` are one option; `resume_sink_` is whether it is active. -/
structure ReplyCell (R : Type) where
  st : CellState := .empty
  gen : UInt64 := 0
  cont : Option AskId := none
  resumeSink : Bool := false
  value : Option (Result R) := none
  deriving DecidableEq

def ReplyCell.arm {R : Type} (c : ReplyCell R) : ReplyCell R :=
  { c with cont := none, resumeSink := false, st := .empty }

/-- Where a responder is in `resolve`. -/
inductive Responder (R : Type)
  | armed
  | called (v : Result R)
  | checked (v : Result R)
  | deposited
  | won
  | handed (h : Option AskId) (sink : Bool)
  | notified (h : Option AskId) (sink : Bool)
  | lost
  | spent
  deriving DecidableEq

/-- Where a future is: not yet made, held, on its way to `suspend`, in `block_wait`, about to `take`, in
`release` with what it took, or done with it. -/
inductive Future (R : Type)
  | idle
  | held
  | suspending | publishing | suspended
  | waiting
  | loaded (st : CellState)
  | parked (st : CellState)
  | finishing
  | clearing (res : Option (Result R))
  | bumping (res : Option (Result R))
  | resetting (res : Option (Result R))
  | pushing (res : Option (Result R))
  | done (res : Option (Result R))
  deriving DecidableEq

/-- `supplied` and `resumes` are what the responder was called with, and how often the coroutine was resumed. -/
structure Ask (R : Type) where
  cell : Nat := 0
  gen : UInt64 := 0
  future : Future R := .idle
  responder : Responder R := .spent
  supplied : Option (Result R) := none
  resumes : Nat := 0

/-- `fault` is undefined behaviour: a coroutine resumed that is not suspended, or a value taken that is not there. -/
structure AskPool (R : Type) where
  size : Nat
  free : List Nat
  cells : Nat → ReplyCell R
  asks : AskId → Ask R
  fault : Bool

inductive AskLabel (R : Type)
  | acquire (a : AskId)
  | call (a : AskId) (v : Result R)
  | check (a : AskId)
  | deposit (a : AskId)
  | exchange (a : AskId)
  | readCont (a : AskId)
  | notifyWaiter (a : AskId)
  | resume (a : AskId)
  | notify (a : AskId)
  | awaitReady (a : AskId)
  | publish (a : AskId) (sink : Bool)
  | cas (a : AskId)
  | blockWait (a : AskId)
  | load (a : AskId)
  | wait (a : AskId)
  | take (a : AskId)
  | drop (a : AskId)
  | clear (a : AskId)
  | bump (a : AskId)
  | reset (a : AskId)
  | push (a : AskId)

/-- The value a responder that is destroyed before it is called supplies. -/
def noReply {R : Type} : Result R := fail .supervisedStop "no_reply"

def Ask.woken {R : Type} (k : Ask R) : Ask R :=
  match k.future with
  | .parked st => { k with future := .loaded st }
  | _ => k

namespace AskPool

variable {R : Type}

def start (capacity : Nat) : AskPool R :=
  { size := capacity, free := (List.range capacity).reverse,
    cells := fun _ => {}, asks := fun _ => {}, fault := false }

def setAsk (s : AskPool R) (a : AskId) (k : Ask R) : AskPool R := { s with asks := Function.update s.asks a k }

def setCell (s : AskPool R) (i : Nat) (c : ReplyCell R) : AskPool R := { s with cells := Function.update s.cells i c }

def cellOf (s : AskPool R) (a : AskId) : ReplyCell R := s.cells (s.asks a).cell

def setFuture (s : AskPool R) (a : AskId) (f : Future R) : AskPool R := s.setAsk a { s.asks a with future := f }

def setResponder (s : AskPool R) (a : AskId) (r : Responder R) : AskPool R :=
  s.setAsk a { s.asks a with responder := r }

/-- `st_.notify_all()`: whoever is parked on the cell compares again. -/
def notifyAll (s : AskPool R) (i : Nat) : AskPool R :=
  { s with asks := fun a => if (s.asks a).cell = i then (s.asks a).woken else s.asks a }

def faulted (s : AskPool R) : AskPool R := { s with fault := true }

def resumed (s : AskPool R) (a : AskId) : AskPool R :=
  match (s.asks a).future with
  | .suspended => s.setAsk a { s.asks a with future := .finishing, resumes := (s.asks a).resumes + 1 }
  | _ => s.faulted

def acquired (s : AskPool R) (a : AskId) (i : Nat) : AskPool R :=
  (s.setCell i (s.cells i).arm).setAsk a { cell := i, gen := (s.cells i).gen, future := .held, responder := .armed }

def step (s : AskPool R) : AskLabel R → Option (AskPool R)
  | .acquire a =>
    match (s.asks a).future, s.free with
    | .idle, [] => some ({ s with size := s.size + 1 }.acquired a s.size)
    | .idle, i :: free => some ({ s with free }.acquired a i)
    | _, _ => none
  | .call a v =>
    match (s.asks a).responder with
    | .armed => some (s.setAsk a { s.asks a with responder := .called v, supplied := some v })
    | _ => none
  | .check a =>
    match (s.asks a).responder with
    | .called v => some (s.setResponder a (if (s.cellOf a).gen = (s.asks a).gen then .checked v else .spent))
    | _ => none
  | .deposit a =>
    match (s.asks a).responder with
    | .checked v => some ((s.setCell (s.asks a).cell { s.cellOf a with value := some v }).setResponder a .deposited)
    | _ => none
  | .exchange a =>
    match (s.asks a).responder with
    | .deposited =>
      some ((s.setCell (s.asks a).cell { s.cellOf a with st := .resolved }).setResponder a
        (if (s.cellOf a).st = .waiter then .won else .lost))
    | _ => none
  | .readCont a =>
    match (s.asks a).responder with
    | .won => some (s.setResponder a (.handed (s.cellOf a).cont (s.cellOf a).resumeSink))
    | _ => none
  | .notifyWaiter a =>
    match (s.asks a).responder with
    | .handed h sink => some ((s.notifyAll (s.asks a).cell).setResponder a (.notified h sink))
    | _ => none
  | .resume a =>
    match (s.asks a).responder with
    | .notified (some b) _ => some ((s.setResponder a .spent).resumed b)
    | .notified none true => some (s.setResponder a .spent).faulted
    | .notified none false => some (s.setResponder a .spent)
    | _ => none
  | .notify a =>
    match (s.asks a).responder with
    | .lost => some ((s.notifyAll (s.asks a).cell).setResponder a .spent)
    | _ => none
  | .awaitReady a =>
    match (s.asks a).future with
    | .held => some (s.setFuture a (if (s.cellOf a).st = .resolved then .finishing else .suspending))
    | _ => none
  | .publish a sink =>
    match (s.asks a).future with
    | .suspending =>
      some ((s.setCell (s.asks a).cell { s.cellOf a with cont := some a, resumeSink := sink }).setFuture a
        .publishing)
    | _ => none
  | .cas a =>
    match (s.asks a).future with
    | .publishing =>
      if (s.cellOf a).st = .empty then
        some ((s.setCell (s.asks a).cell { s.cellOf a with st := .waiter }).setFuture a .suspended)
      else some (s.setFuture a .finishing)
    | _ => none
  | .blockWait a =>
    match (s.asks a).future with
    | .held => some (s.setFuture a .waiting)
    | _ => none
  | .load a =>
    match (s.asks a).future with
    | .waiting =>
      some (s.setFuture a (if (s.cellOf a).st = .resolved then .finishing else .loaded (s.cellOf a).st))
    | _ => none
  | .wait a =>
    match (s.asks a).future with
    | .loaded st => some (s.setFuture a (if (s.cellOf a).st = st then .parked st else .waiting))
    | _ => none
  | .take a =>
    match (s.asks a).future, (s.cellOf a).value with
    | .finishing, some v =>
      some ((s.setCell (s.asks a).cell { s.cellOf a with value := none }).setFuture a (.clearing (some v)))
    | .finishing, none => some s.faulted
    | _, _ => none
  | .drop a =>
    match (s.asks a).future with
    | .held | .suspended => some (s.setFuture a (.clearing none))
    | _ => none
  | .clear a =>
    match (s.asks a).future with
    | .clearing res =>
      some ((s.setCell (s.asks a).cell { s.cellOf a with value := none, cont := none, resumeSink := false }).setFuture
        a (.bumping res))
    | _ => none
  | .bump a =>
    match (s.asks a).future with
    | .bumping res =>
      some ((s.setCell (s.asks a).cell { s.cellOf a with gen := (s.cellOf a).gen + 1 }).setFuture a (.resetting res))
    | _ => none
  | .reset a =>
    match (s.asks a).future with
    | .resetting res =>
      some ((s.setCell (s.asks a).cell { s.cellOf a with st := .empty }).setFuture a (.pushing res))
    | _ => none
  | .push a =>
    match (s.asks a).future with
    | .pushing res => some ({ s with free := (s.asks a).cell :: s.free }.setFuture a (.done res))
    | _ => none

end AskPool

end Quark
