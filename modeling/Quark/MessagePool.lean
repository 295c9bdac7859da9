import Mathlib.Data.UInt
import Mathlib.Logic.Function.Basic

/-! `MessagePool` of `message_pool.hpp`: partitions with a free list each, and the magazines that every thread
keeps in front of them. A critical section is one step. -/
namespace Quark.MessagePool

open Function

/-- A partition of the pool that drew the serial. -/
structure PartitionId where
  serial : Nat
  index : Nat
  deriving DecidableEq, Repr

/-- A cell, numbered as it is allocated. -/
structure Cell where
  number : Nat
  home : PartitionId
  deriving DecidableEq, Repr

structure Partition where
  free : List Cell := []
  cells : List Cell := []

def kCap : Nat := 64

def kRefillBatch : Nat := 32

def kReturnBatch : Nat := 32

abbrev kSlots : Nat := 64

/-- A magazine; the last of `cells` in the source comes first. `bound` is an address, `token` what the weak
pointer names. -/
structure LocalCache where
  bound : Option UInt64 := none
  token : Option PartitionId := none
  serial : Nat := 0
  cells : List Cell := []

structure PoolLaneSlot where
  serial : Nat := 0
  lane : UInt32 := 0
  partition : Option UInt64 := none
  cache : Option (Fin kSlots) := none

def slotFor (bits : UInt64) : Fin kSlots := Fin.ofNat kSlots (((bits >>> 6) * 0x9E3779B97F4A7C15) >>> 58).toNat

def kNoMask : UInt32 := 0xFFFFFFFF

def laneMask (numPartitions : Nat) : UInt32 :=
  if numPartitions &&& (numPartitions - 1) = 0 then UInt32.ofNat (numPartitions - 1) else kNoMask

def partitionIndex (numPartitions : Nat) (lane : UInt32) : Nat :=
  if laneMask numPartitions ≠ kNoMask then (lane &&& laneMask numPartitions).toNat else lane.toNat % numPartitions

/-- What a magazine is looked up for. -/
inductive Call
  | acquire (p : PartitionId)
  | reclaim (c : Cell)
  deriving DecidableEq, Repr

def Call.target : Call → PartitionId
  | .acquire p => p
  | .reclaim c => c.home

/-- What a magazine is flushed for: a call that evicts it, or `flush_thread_local_caches` and the end of the
thread. -/
inductive Work
  | call (c : Call)
  | sweep (next : Nat) (exit : Bool)
  deriving DecidableEq, Repr

inductive Pc
  | idle
  | exited
  | lookup (c : Call)
  | token (k : Fin kSlots) (w : Work)
  | splice (k : Fin kSlots) (w : Work) (p : PartitionId)
  | bind (c : Call)
  | ready (c : Call) (k : Fin kSlots)
  | refill (p : PartitionId) (k : Fin kSlots)
  | steal (p : PartitionId) (k : Fin kSlots) (j : Nat)
  | grow (p : PartitionId) (k : Fin kSlots)
  | sweep (next : Nat) (exit : Bool)
  deriving DecidableEq, Repr

def Work.next : Work → Pc
  | .call c => .bind c
  | .sweep next exit => .sweep next exit

def Work.call? : Work → Option Call
  | .call c => some c
  | .sweep _ _ => none

def Pc.call : Pc → Option Call
  | .lookup c | .bind c | .ready c _ => some c
  | .token _ w | .splice _ w _ => w.call?
  | .refill p _ | .steal p _ _ | .grow p _ => some (.acquire p)
  | .idle | .exited | .sweep _ _ => none

def Pc.pool (pc : Pc) : Option Nat := pc.call.map fun c => c.target.serial

def Pc.hand (pc : Pc) : List Cell :=
  match pc.call with
  | some (.reclaim c) => [c]
  | _ => []

/-- The `thread_local` data of a thread. `flushed` is history: it has flushed its magazines since its last call. -/
structure Thread where
  magazines : Fin kSlots → LocalCache := fun _ => {}
  laneSlots : Fin 8 → PoolLaneSlot := fun _ => {}
  pc : Pc := .idle
  flushed : Bool := true

namespace Thread

variable (th : Thread)

def at_ (pc : Pc) : Thread := { th with pc }

def setMagazine (k : Fin kSlots) (lc : LocalCache) : Thread := { th with magazines := update th.magazines k lc }

def setCells (k : Fin kSlots) (cells : List Cell) : Thread := th.setMagazine k { th.magazines k with cells }

def laneSlot (serial : Nat) (lane : UInt32) : PoolLaneSlot :=
  let sl := th.laneSlots (Fin.ofNat 8 serial)
  if sl.serial = serial then sl else { serial, lane }

def setLaneSlot (serial : Nat) (sl : PoolLaneSlot) : Thread :=
  { th with laneSlots := update th.laneSlots (Fin.ofNat 8 serial) sl }

/-- The fast path of `cache_for_acquire`. -/
def cached (address : UInt64) : Call → Option (Fin kSlots)
  | .acquire p =>
    let sl := th.laneSlots (Fin.ofNat 8 p.serial)
    sl.cache.filter fun k =>
      sl.partition = some address ∧ (th.magazines k).bound = some address ∧ (th.magazines k).serial = p.serial
  | .reclaim _ => none

/-- What `cache_for_acquire` notes once the magazine is found. -/
def remember (address : UInt64) (k : Fin kSlots) : Call → Thread
  | .acquire p =>
    th.setLaneSlot p.serial { th.laneSlots (Fin.ofNat 8 p.serial) with partition := some address, cache := some k }
  | .reclaim _ => th

/-- `cache_for_acquire` and `local_cache_for`, up to a flush of what stands in the way. -/
def lookup (address : UInt64) (c : Call) : Thread :=
  match th.cached address c with
  | some k => th.at_ (.ready c k)
  | none =>
    let k := slotFor address
    let lc := th.magazines k
    if lc.serial = c.target.serial ∧ lc.bound = some address then (th.remember address k c).at_ (.ready c k)
    else if lc.bound ≠ none ∧ lc.cells ≠ [] then th.at_ (.token k (.call c))
    else th.at_ (.bind c)

def bind (address : UInt64) (c : Call) : Thread :=
  let k := slotFor address
  let lc : LocalCache := { bound := some address, token := some c.target, serial := c.target.serial }
  ((th.setMagazine k lc).remember address k c).at_ (.ready c k)

def forfeit (k : Fin kSlots) : Thread :=
  th.setMagazine k { th.magazines k with bound := none, token := none, cells := [] }

def sweep (i : Nat) (exit : Bool) : Thread :=
  if h : i < kSlots then
    let lc := th.magazines ⟨i, h⟩
    if lc.bound ≠ none ∧ lc.cells ≠ [] then th.at_ (.token ⟨i, h⟩ (.sweep (i + 1) exit))
      else th.at_ (.sweep (i + 1) exit)
  else { th with pc := if exit then .exited else .idle, flushed := true }

end Thread

/-- The pools: how many partitions each live one has, and where they lie. -/
structure Registry where
  live : Nat → Option Nat := fun _ => none
  address : PartitionId → UInt64 := fun _ => 0
  nextSerial : Nat := 1

/-- `user` are the cells that callers hold, `made` the number of cells ever allocated. -/
structure State where
  registry : Registry := {}
  nextLane : Nat → UInt32 := fun _ => 0
  partitions : PartitionId → Partition := fun _ => {}
  threads : Nat → Thread := fun _ => {}
  spawned : Nat := 0
  user : List Cell := []
  made : Nat := 0

/-- A `reclaim` is called when the destructor of the payload, which may use the pools itself, has run. The
flag of `go` says that a `try_lock` fails, or that another thread keeps the partition of a dead pool in
memory. -/
inductive Label
  | create (capacity numPartitions : Nat) (address : Nat → UInt64)
  | destroy (serial : Nat)
  | spawn
  | acquire (t serial : Nat)
  | reclaim (t : Nat) (c : Cell)
  | flush (t : Nat)
  | exit (t : Nat)
  | go (t : Nat) (flag : Bool)

namespace State

variable (s : State)

def setThread (t : Nat) (th : Thread) : State := { s with threads := update s.threads t th }

def setFree (p : PartitionId) (free : List Cell) : State :=
  { s with partitions := update s.partitions p { s.partitions p with free } }

def newCell (p : PartitionId) : Cell := ⟨s.made, p⟩

def register (p : PartitionId) (free : List Cell) : State :=
  { s with
    partitions := update s.partitions p { free, cells := (s.partitions p).cells ++ [s.newCell p] }
    made := s.made + 1 }

def growOne (p : PartitionId) : State := s.register p (s.newCell p :: (s.partitions p).free)

def build (numPartitions : Nat) (address : Nat → UInt64) : State :=
  let serial := s.registry.nextSerial
  { s with
    registry :=
      { live := update s.registry.live serial (some numPartitions)
        address := fun p => if p.serial = serial then address p.index else s.registry.address p
        nextSerial := serial + 1 }
    nextLane := update s.nextLane serial 0
    partitions := fun p => if p.serial = serial then {} else s.partitions p }

def create (capacity numPartitions : Nat) (address : Nat → UInt64) : State :=
  (List.range capacity).foldl (fun s' i => s'.growOne ⟨s.registry.nextSerial, i % numPartitions⟩)
    (s.build numPartitions address)

def take (t : Nat) (k : Fin kSlots) (p q : PartitionId) : State :=
  (s.setFree q ((s.partitions q).free.drop kRefillBatch)).setThread t
    (((s.threads t).setCells k ((s.partitions q).free.take kRefillBatch).reverse).at_ (.ready (.acquire p) k))

def flushPartial (t : Nat) (k : Fin kSlots) (p : PartitionId) : State :=
  let cells := ((s.threads t).magazines k).cells
  (s.setFree p ((cells.take kReturnBatch).reverse ++ (s.partitions p).free)).setThread t
    ((s.threads t).setCells k (cells.drop kReturnBatch))

def splice (t : Nat) (k : Fin kSlots) (w : Work) (p : PartitionId) : State :=
  (s.setFree p (((s.threads t).magazines k).cells ++ (s.partitions p).free)).setThread t
    (((s.threads t).setCells k []).at_ w.next)

def push (t : Nat) (k : Fin kSlots) (c : Cell) : State :=
  s.setThread t (((s.threads t).setCells k (c :: ((s.threads t).magazines k).cells)).at_ .idle)

def pop (t : Nat) (k : Fin kSlots) (c : Cell) (rest : List Cell) : State :=
  { s.setThread t (((s.threads t).setCells k rest).at_ .idle) with user := c :: s.user }

def grow (t : Nat) (k : Fin kSlots) (p : PartitionId) : State :=
  (s.register p (s.partitions p).free).setThread t
    (((s.threads t).setCells k [s.newCell p]).at_ (.ready (.acquire p) k))

def go (t : Nat) (flag : Bool) : Option State :=
  let th := s.threads t
  match th.pc with
  | .idle | .exited => none
  | .lookup c => some (s.setThread t (th.lookup (s.registry.address c.target) c))
  | .token k w =>
    match (th.magazines k).token with
    | none => some (s.setThread t ((th.forfeit k).at_ w.next))
    | some p =>
      if (s.registry.live p.serial).isSome ∨ flag then some (s.setThread t (th.at_ (.splice k w p)))
      else some (s.setThread t ((th.forfeit k).at_ w.next))
  | .splice k w p => some (s.splice t k w p)
  | .bind c => some (s.setThread t (th.bind (s.registry.address c.target) c))
  | .ready (.acquire p) k =>
    match (th.magazines k).cells with
    | [] => some (s.setThread t (th.at_ (.refill p k)))
    | c :: rest => some (s.pop t k c rest)
  | .ready (.reclaim c) k =>
    if (th.magazines k).cells.length = kCap then some (s.flushPartial t k c.home) else some (s.push t k c)
  | .refill p k =>
    if (s.partitions p).free = [] then some (s.setThread t (th.at_ (.steal p k 1))) else some (s.take t k p p)
  | .steal p k j =>
    match s.registry.live p.serial with
    | none => none
    | some n =>
      let q : PartitionId := ⟨p.serial, (p.index + j) % n⟩
      if j < n then
        if flag ∨ (s.partitions q).free = [] then some (s.setThread t (th.at_ (.steal p k (j + 1))))
        else some (s.take t k p q)
      else some (s.setThread t (th.at_ (.grow p k)))
  | .grow p k => some (s.grow t k p)
  | .sweep i exit => some (s.setThread t (th.sweep i exit))

def startAcquire (t serial n : Nat) : State :=
  let th := s.threads t
  let sl := th.laneSlot serial (s.nextLane serial)
  let drawn := (th.laneSlots (Fin.ofNat 8 serial)).serial ≠ serial
  let pc := Pc.lookup (.acquire ⟨serial, partitionIndex n sl.lane⟩)
  { s.setThread t { th.setLaneSlot serial sl with pc, flushed := false } with
    nextLane := if drawn then update s.nextLane serial (s.nextLane serial + 1) else s.nextLane }

def startReclaim (t : Nat) (c : Cell) : State :=
  { s.setThread t { s.threads t with pc := .lookup (.reclaim c), flushed := false } with user := s.user.erase c }

def free (t : Nat) : Bool := decide (t < s.spawned) && decide ((s.threads t).pc = .idle)

def step : Label → Option State
  | .create capacity numPartitions address =>
    let n := if numPartitions = 0 then 1 else numPartitions
    if ((List.range n).map address).Nodup then some (s.create capacity n address) else none
  | .destroy serial =>
    if (List.range s.spawned).all fun t => (s.threads t).pc.pool ≠ some serial then
      some { s with registry := { s.registry with live := update s.registry.live serial none } }
    else none
  | .spawn => some { s with spawned := s.spawned + 1 }
  | .acquire t serial =>
    match s.registry.live serial with
    | none => none
    | some n => if s.free t then some (s.startAcquire t serial n) else none
  | .reclaim t c =>
    if s.free t ∧ c ∈ s.user ∧ (s.registry.live c.home.serial).isSome then some (s.startReclaim t c) else none
  | .flush t => if s.free t then some (s.setThread t ((s.threads t).at_ (.sweep 0 false))) else none
  | .exit t => if s.free t then some (s.setThread t ((s.threads t).at_ (.sweep 0 true))) else none
  | .go t flag => s.go t flag

end State

end Quark.MessagePool
