import Quark.Lib.CreditRing
import Quark.Lib.Machine
import Quark.Persistence
import Quark.SharedPayload

/-! `FanOut` of `fanout.hpp`: one publisher, a credit ring for each subscriber (`stream_channel.hpp`), every
load and store that another thread can see as a step of its own. -/
namespace Quark.FanOut

/-- `OnSlowSubscriber`. -/
inductive Mode
  | evictAfter | block
  deriving DecidableEq, Repr

structure Envelope where
  cell : Nat
  id : Nat
  deriving DecidableEq, Repr

/-- `FanOutGap`; no gap where `count` is 0. Differences of 64-bit numbers are integers. -/
structure Gap where
  first : Int := 0
  last : Int := 0
  count : Int := 0
  deriving DecidableEq, Repr

/-- What a subscriber is told, in the order it is told. -/
inductive Report
  | popped (id : Nat)
  | gap (g : Gap)
  deriving DecidableEq, Repr

/-- Where the publisher stands at one lane, in `try_push` or in `push_blocking_while`. -/
inductive Pushing
  | keepGoing | tryPush | store
  | capture | arm (g : Nat) | keepGoingAgain (g : Nat) | credit (g : Nat) | wait (g : Nat) | asleep (g : Nat)
  | disarm (again : Bool)
  deriving DecidableEq, Repr

/-- Where the subscriber's thread stands in a call on its lane. -/
inductive Consumer
  | idle
  | dispatch | copy (e : Envelope) | release (r : Release) | credit | unstall | bump | notify
  | trailing
  | drain | drainRelease (r : Release) | gone
  deriving DecidableEq, Repr

/-- `LaneEntry`. The last four fields are history: the ids offered to the lane, what was pushed, what became
of each id (`true` where it was pushed), what the subscriber was told. -/
structure Lane where
  ring : CreditRing Envelope
  active : Bool := true
  stalled : Bool := false
  creditGen : Nat := 0
  evicted : Nat := 0
  haveBase : Bool := false
  nextExpected : Int := 0
  gapReported : Int := 0
  handle : Bool := true
  consumer : Consumer := .idle
  offered : List Nat := []
  pushed : List Envelope := []
  fates : List (Nat × Bool) := []
  reports : List Report := []

namespace Lane

variable (l : Lane)

/-- How one step of the publisher at a lane ends. -/
inductive Pushed
  | at_ (p : Pushing) (l : Lane)
  | delivered (l : Lane)
  | refused (l : Lane)

def store (env : Envelope) : Lane :=
  { l with ring := l.ring.push env, pushed := l.pushed ++ [env], fates := l.fates ++ [(env.id, true)] }

def miss (id : Nat) : Lane := { l with fates := l.fates ++ [(id, false)] }

def offer (id : Nat) : Lane := { l with offered := l.offered ++ [id] }

def count : Lane := { l with evicted := l.evicted + 1 }

def at_ (c : Consumer) : Lane := { l with consumer := c }

def unstall : Lane := { l with stalled := false, consumer := if l.stalled then .bump else .idle }

def bump : Lane := { l with creditGen := l.creditGen + 1 }

def complete (c : Consumer) : Lane := { l with ring := l.ring.advanceTail, consumer := c }

def discard (e : Envelope) : Lane :=
  { l with ring := l.ring.advanceDispatch, consumer := .drainRelease (.dec e.cell) }

def noCredit (id : Nat) : Mode → Pushed
  | .evictAfter => .refused (l.miss id)
  | .block => .at_ .capture l

/-- One step of `try_push` (`evictAfter`) or of `push_blocking_while` (`block`). -/
def pushStep (mode : Mode) (env : Envelope) : Pushing → Pushed
  | .keepGoing => if l.active then .at_ .tryPush l else .refused l
  | .tryPush => if l.ring.full then l.noCredit env.id mode else .at_ .store l
  | .store => .delivered (l.store env)
  | .capture => .at_ (.arm l.creditGen) l
  | .arm g => .at_ (.keepGoingAgain g) { l with stalled := true }
  | .keepGoingAgain g => if l.active then .at_ (.credit g) l else .at_ (.disarm false) l
  | .credit g => if 0 < l.ring.creditAvailable then .at_ (.disarm true) l else .at_ (.wait g) l
  | .wait g => if l.creditGen = g then .at_ (.asleep g) l else .at_ (.disarm true) l
  | .asleep g => .at_ (.wait g) l
  | .disarm again =>
    let l := { l with stalled := false }
    if again then .at_ .keepGoing l else .refused l

def gapBefore (id : Nat) : Gap :=
  if l.haveBase ∧ (id : Int) ≠ l.nextExpected then ⟨l.nextExpected, id - 1, id - l.nextExpected⟩ else {}

/-- What a subscriber is told when it pops `id`. -/
def inBand (g : Gap) (id : Nat) : List Report := if g.count = 0 then [.popped id] else [.gap g, .popped id]

def pop (e : Envelope) : Lane :=
  let g := l.gapBefore e.id
  { l with
    ring := l.ring.advanceDispatch
    gapReported := l.gapReported + g.count
    haveBase := true
    nextExpected := e.id + 1
    reports := l.reports ++ inBand g e.id
    consumer := .copy e }

def pending : Int := l.evicted - l.gapReported

/-- The counter read of `take_trailing_gap`. -/
def takeTrailing : Lane :=
  if l.pending = 0 then { l with consumer := .idle }
  else
    { l with
      gapReported := l.gapReported + l.pending
      nextExpected := l.nextExpected + l.pending
      reports := l.reports ++ [.gap ⟨l.nextExpected, l.nextExpected + l.pending - 1, l.pending⟩]
      consumer := .idle }

end Lane

/-- The locals of one `publish`: what is left of the snapshot, the payload and its id. -/
structure Publication where
  snap : List Nat
  rest : List Nat
  cell : Nat
  id : Nat

def Publication.envelope (p : Publication) : Envelope := ⟨p.cell, p.id⟩

inductive Publisher
  | idle
  | entered
  | choosing (p : Publication)
  | pushing (p : Publication) (lane : Nat) (pc : Pushing)
  | undoing (p : Publication) (lane : Nat) (r : Release)
  | counting (p : Publication) (lane : Nat)
  | dropping (snap : List Nat) (r : Release)
  | leaving (snap : List Nat)
  | returning (snap : List Nat)

namespace Publisher

/-- The lanes that the running `publish` pins. -/
def snap : Publisher → List Nat
  | .idle | .entered => []
  | .choosing p | .pushing p _ _ | .undoing p _ _ | .counting p _ => p.snap
  | .dropping snap _ | .leaving snap | .returning snap => snap

/-- The lanes that it has yet to come to. -/
def rest : Publisher → List Nat
  | .choosing p | .pushing p _ _ | .undoing p _ _ | .counting p _ => p.rest
  | _ => []

def facing : Publisher → List Nat
  | .pushing _ lane _ | .undoing _ lane _ | .counting _ lane => [lane]
  | _ => []

end Publisher

/-- Where a call of `unsubscribe` that found its entry stands. -/
inductive Leaving
  | swap | disarm | bump | notify | quiesce | returned
  deriving DecidableEq, Repr

/-- `registry` is `snapshot_`; `departures` are the calls of `unsubscribe`, the first of which may hold the mutex. -/
structure State where
  registry : List (ActorId × Nat) := []
  lanes : Nat → Lane := fun _ => { ring := { cap := 0 }, active := false, handle := false, consumer := .gone }
  made : Nat := 0
  inFlight : Nat := 0
  seq : Nat := 0
  pool : SharedPayloadPool := {}
  publisher : Publisher := .idle
  departures : List (ActorId × Nat × Leaving) := []

inductive Label
  | subscribe (id : ActorId)
  | unsubscribe (id : ActorId)
  | leave (i : Nat)
  | publish
  | publisher
  | tryPop (lane : Nat)
  | takeTrailingGap (lane : Nat)
  | consumer (lane : Nat)
  | drop (lane : Nat)
  | destroy (lane : Nat)
  deriving DecidableEq, Repr

namespace State

variable (s : State)

def setLane (i : Nat) (l : Lane) : State := { s with lanes := Function.update s.lanes i l }

/-- A call of `unsubscribe` is inside the mutex. -/
def locked : Bool := s.departures.any fun d => d.2.2 = .swap

def notify (i : Nat) : State :=
  match s.publisher with
  | .pushing p lane (.asleep g) => if lane = i then { s with publisher := .pushing p lane (.wait g) } else s
  | _ => s

def publisherStep (mode : Mode) : Option State :=
  match s.publisher with
  | .idle => none
  | .entered =>
    match s.registry.map Prod.snd with
    | [] => some { s with publisher := .leaving [] }
    | snap =>
      let (cell, pool) := s.pool.acquire
      some { s with pool, seq := s.seq + 1, publisher := .choosing ⟨snap, snap, cell, s.seq⟩ }
  | .choosing p =>
    match p.rest with
    | [] => some { s with publisher := .dropping p.snap (.dec p.cell) }
    | lane :: rest =>
      let p := { p with rest }
      if (s.lanes lane).active then
        some
          { s.setLane lane ((s.lanes lane).offer p.id) with
            pool := s.pool.retain p.cell
            publisher := .pushing p lane (match mode with | .evictAfter => .tryPush | .block => .keepGoing) }
      else some { s with publisher := .choosing p }
  | .pushing p lane pc =>
    match (s.lanes lane).pushStep mode p.envelope pc with
    | .at_ pc l => some { s.setLane lane l with publisher := .pushing p lane pc }
    | .delivered l => some { s.setLane lane l with publisher := .choosing p }
    | .refused l => some { s.setLane lane l with publisher := .undoing p lane (.dec p.cell) }
  | .undoing p lane r =>
    let freed := s.pool.release r
    match freed.2 with
    | some r => some { s with pool := freed.1, publisher := .undoing p lane r }
    | none =>
      some
        { s with
          pool := freed.1
          publisher := match mode with | .evictAfter => .counting p lane | .block => .choosing p }
  | .counting p lane => some { s.setLane lane (s.lanes lane).count with publisher := .choosing p }
  | .dropping snap r =>
    let freed := s.pool.release r
    match freed.2 with
    | some r => some { s with pool := freed.1, publisher := .dropping snap r }
    | none => some { s with pool := freed.1, publisher := .leaving snap }
  | .leaving snap => some { s with inFlight := s.inFlight - 1, publisher := .returning snap }
  | .returning _ => some { s with publisher := .idle }

def consumerStep (i : Nat) : Option State :=
  let l := s.lanes i
  match l.consumer with
  | .idle | .gone => none
  | .dispatch => (l.ring.slotAt l.ring.disp).map fun e => s.setLane i (l.pop e)
  | .copy e => some { s.setLane i (l.at_ (.release (.dec e.cell))) with pool := s.pool.value e.cell }
  | .release r =>
    let freed := s.pool.release r
    match freed.2 with
    | some r => some { s.setLane i (l.at_ (.release r)) with pool := freed.1 }
    | none => some { s.setLane i (l.at_ .credit) with pool := freed.1 }
  | .credit => some (s.setLane i (l.complete .unstall))
  | .unstall => some (s.setLane i l.unstall)
  | .bump => some (s.setLane i (l.bump.at_ .notify))
  | .notify => some ((s.setLane i (l.at_ .idle)).notify i)
  | .trailing => some (s.setLane i l.takeTrailing)
  | .drain =>
    if l.ring.occupancy = 0 then some (s.setLane i (l.at_ .gone))
    else (l.ring.slotAt l.ring.disp).map fun e => s.setLane i (l.discard e)
  | .drainRelease r =>
    let freed := s.pool.release r
    match freed.2 with
    | some r => some { s.setLane i (l.at_ (.drainRelease r)) with pool := freed.1 }
    | none => some { s.setLane i (l.complete .drain) with pool := freed.1 }

def setDeparture (i : Nat) (id : ActorId) (lane : Nat) (pc : Leaving) : State :=
  { s with departures := s.departures.set i (id, lane, pc) }

def leaveStep (mode : Mode) (i : Nat) : Option State :=
  match s.departures[i]? with
  | none => none
  | some (id, lane, pc) =>
    let l := s.lanes lane
    match pc with
    | .swap =>
      some ({ s with registry := s.registry.filter fun e => !(e.1 = id) }.setDeparture i id lane
        (match mode with | .evictAfter => .quiesce | .block => .disarm))
    | .disarm => some ((s.setLane lane { l with stalled := false }).setDeparture i id lane .bump)
    | .bump => some ((s.setLane lane l.bump).setDeparture i id lane .notify)
    | .notify => some ((s.notify lane).setDeparture i id lane .quiesce)
    | .quiesce => if s.inFlight = 0 then some (s.setDeparture i id lane .returned) else none
    | .returned => none

/-- Nobody holds the lane any more: not its subscriber, not the registry, not a publish, not an `unsubscribe`. -/
def unheld (lane : Nat) : Bool :=
  !(s.lanes lane).handle && !(s.registry.any fun e => e.2 = lane) && !s.publisher.snap.contains lane &&
    s.departures.all fun d => d.2.1 ≠ lane || d.2.2 = .returned

def step (mode : Mode) (cap : Nat) (s : State) : Label → Option State
  | .subscribe id =>
    if s.locked then none
    else if s.registry.any fun e => e.1 = id then some s
    else
      some
        { s.setLane s.made { ring := { cap } } with
          registry := s.registry ++ [(id, s.made)]
          made := s.made + 1 }
  | .unsubscribe id =>
    if s.locked then none
    else
      match s.registry.find? fun e => e.1 = id with
      | none => some s
      | some (_, lane) =>
        some
          { s.setLane lane { s.lanes lane with active := false } with
            departures := s.departures ++ [(id, lane, .swap)] }
  | .leave i => s.leaveStep mode i
  | .publish =>
    match s.publisher with
    | .idle => some { s with inFlight := s.inFlight + 1, publisher := .entered }
    | _ => none
  | .publisher => s.publisherStep mode
  | .tryPop i =>
    let l := s.lanes i
    if l.handle ∧ l.consumer = .idle then
      some (if l.ring.occupancy = 0 then s else s.setLane i (l.at_ .dispatch))
    else none
  | .takeTrailingGap i =>
    let l := s.lanes i
    if l.handle ∧ l.consumer = .idle then
      some (if l.haveBase ∧ l.ring.occupancy = 0 then s.setLane i (l.at_ .trailing) else s)
    else none
  | .consumer i => s.consumerStep i
  | .drop i =>
    let l := s.lanes i
    if l.handle ∧ l.consumer = .idle then some (s.setLane i { l with handle := false }) else none
  | .destroy i =>
    let l := s.lanes i
    if s.unheld i ∧ l.consumer = .idle then some (s.setLane i (l.at_ .drain)) else none

end State

end Quark.FanOut
