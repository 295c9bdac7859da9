import Mathlib.Logic.Function.Basic

/-! `SharedPayload` and its pool (`topic.hpp`): cells that are counted, destroyed at zero and recycled. -/
namespace Quark

open Function

/-- Objects are numbered as they are built; `none` stands for a cell in which nothing lives. -/
inductive PayloadEvent
  | read (object : Option Nat)
  | destroyed (object : Option Nat)
  | recycled (cell refs : Nat)
  deriving DecidableEq, Repr

/-- `rc` and `object` are those of each cell. -/
structure SharedPayloadPool where
  storage : Nat := 0
  free : List Nat := []
  rc : Nat → Nat := fun _ => 0
  object : Nat → Option Nat := fun _ => none
  built : Nat := 0
  log : List PayloadEvent := []

/-- Where a call of `release` stands. -/
inductive Release
  | dec (cell : Nat)
  | destroy (cell : Nat)
  | reclaim (cell : Nat)
  deriving DecidableEq, Repr

namespace SharedPayloadPool

variable (p : SharedPayloadPool)

def arm (cell : Nat) : SharedPayloadPool :=
  { p with
    rc := update p.rc cell 1
    object := update p.object cell (some p.built)
    built := p.built + 1 }

def acquire : Nat × SharedPayloadPool :=
  match p.free with
  | [] => (p.storage, ({ p with storage := p.storage + 1 } : SharedPayloadPool).arm p.storage)
  | cell :: free => (cell, ({ p with free } : SharedPayloadPool).arm cell)

def retain (cell : Nat) : SharedPayloadPool := { p with rc := update p.rc cell (p.rc cell + 1) }

def value (cell : Nat) : SharedPayloadPool := { p with log := p.log ++ [.read (p.object cell)] }

/-- One step of `release`; the decrement to zero goes on to destroy and to recycle. -/
def release : Release → SharedPayloadPool × Option Release
  | .dec cell =>
    ({ p with rc := update p.rc cell (p.rc cell - 1) }, if p.rc cell = 1 then some (.destroy cell) else none)
  | .destroy cell =>
    ({ p with object := update p.object cell none, log := p.log ++ [.destroyed (p.object cell)] },
      some (.reclaim cell))
  | .reclaim cell => ({ p with free := cell :: p.free, log := p.log ++ [.recycled cell (p.rc cell)] }, none)

end SharedPayloadPool

end Quark
