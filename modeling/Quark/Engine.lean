import Quark.Mailbox
import Mathlib.Data.Fintype.Pi

/-! The wake protocol of `engine.hpp` over the run-queues of `run_queue.hpp`: producers in
`schedule_and_wake` and workers in `worker_loop`, one shared access a step. Running an activation is one
step; what it posts is posted by producers. -/
namespace Quark.Engine

open Function Vyukov

/-- The scheduling policies; a `RunQueue` has one queue a band. -/
inductive Policy
  | uniformFIFO
  | priorityBands (k : Nat)
  deriving DecidableEq, Repr

def Policy.bands : Policy → Nat
  | .uniformFIFO => 1
  | .priorityBands k => k

def lowest {n : Nat} (mask : Fin n → Bool) : Option (Fin n) := (List.finRange n).find? mask

/-- `S` are the schedulables, `A` the states of the anti-starvation policy. -/
structure Config (S A : Type) where
  policy : Policy
  bands_pos : 0 < policy.bands
  workerCount : Nat
  workers_pos : 0 < workerCount
  /-- `1u << wid` is the worker's bit of the idle mask -/
  workers_le : workerCount ≤ 32
  shardCount : Nat
  shard : S → Fin shardCount
  band : S → Nat
  anti : A
  pick : A → (Fin policy.bands → Bool) → A × Fin policy.bands
  busySpinLimit : Nat
  preParkSpinLimit : Nat
  yieldSpinLimit : Nat

namespace Config

variable {S A : Type} (cfg : Config S A)

abbrev Worker := Fin cfg.workerCount
abbrev Shard := Fin cfg.shardCount
abbrev Band := Fin cfg.policy.bands

abbrev Slot := cfg.Shard × cfg.Band

/-- `bands_[s->band < K ? s->band : K - 1]` -/
def bandOf (s : S) : cfg.Band :=
  if h : cfg.band s < cfg.policy.bands then ⟨cfg.band s, h⟩
  else ⟨cfg.policy.bands - 1, Nat.sub_lt cfg.bands_pos Nat.one_pos⟩

def topBand : cfg.Band := ⟨0, cfg.bands_pos⟩

def slotOf (s : S) : cfg.Slot := (cfg.shard s, cfg.bandOf s)

def homeWorker (sh : cfg.Shard) : Nat := sh % cfg.workerCount

def scanOrder (w : cfg.Worker) : List cfg.Shard :=
  (List.finRange cfg.shardCount).filter (fun sh => cfg.homeWorker sh = w) ++
    (List.finRange cfg.shardCount).filter fun sh => cfg.homeWorker sh ≠ w

def shardSlots (sh : cfg.Shard) : List cfg.Slot := (List.finRange cfg.policy.bands).map (sh, ·)

def allSlots : List cfg.Slot := (List.finRange cfg.shardCount).flatMap cfg.shardSlots

theorem mem_allSlots (k : cfg.Slot) : k ∈ cfg.allSlots := by
  obtain ⟨sh, b⟩ := k
  simp [allSlots, shardSlots]

end Config

variable {S A P : Type}

/-- Who holds `drain_owner` of a shard. -/
inductive Owner (W : Type)
  | none
  | worker (w : W)
  | backstop
  deriving DecidableEq, Repr

/-- A producer inside `schedule_and_wake`. -/
inductive ProducerPc (cfg : Config S A)
  | idle
  | linking (s : S)
  | wakeLoad
  /-- before the compare-exchange that takes worker `w` out of the mask it saw -/
  | wakeCas (mask : cfg.Worker → Bool) (w : cfg.Worker)
  | wakeBump (w : cfg.Worker)
  deriving DecidableEq

/-- A `try_drain_shard` in progress, its `drain_run_queue`, and the rest of the scan around it. -/
structure Session (cfg : Config S A) where
  sh : cfg.Shard
  rest : List cfg.Shard
  processed : Bool := false
  busy : Nat := 0
  deriving DecidableEq

/-- A `select` of `PriorityBands` past its hints. -/
structure Attempt (cfg : Config S A) where
  mask : cfg.Band → Bool
  attempt : Nat := 0
  sawBusy : Bool := false
  deriving DecidableEq

inductive WorkerPc (cfg : Config S A)
  | scan (todo : List cfg.Shard)
  | select (d : Session cfg)
  /-- the non-empty hints of the bands `todo` are still to be loaded into the mask -/
  | hints (d : Session cfg) (todo : List cfg.Band) (mask : cfg.Band → Bool)
  | pop (d : Session cfg) (b : cfg.Band) (a : Attempt cfg)
  | run (d : Session cfg) (s : S)
  | requeue (d : Session cfg) (s : S)
  | requeueLink (d : Session cfg) (s : S)
  | release (d : Session cfg)
  /-- `has_work` after the release: the bands still to probe -/
  | recheck (d : Session cfg) (todo : List cfg.Slot)
  | reacquire (d : Session cfg)
  /-- `pre_park_spin`: `left` more probes of every run-queue after this one -/
  | spin (left : Nat) (todo : List cfg.Slot)
  | park
  | announce (seq : UInt32)
  | rescan (seq : UInt32) (todo : List cfg.Slot)
  | asleep (seq : UInt32)
  /-- woken, or the rescan found work: before the worker takes its bit out of the idle mask -/
  | retract
  deriving DecidableEq

structure State (cfg : Config S A) (P : Type) where
  q : cfg.Slot → ActivationMpsc S := fun _ => {}
  pop : cfg.Slot → Consumer := fun _ => .idle
  drainOwner : cfg.Shard → Owner cfg.Worker := fun _ => .none
  anti : cfg.Shard → A := fun _ => cfg.anti
  idleMask : cfg.Worker → Bool := fun _ => false
  wakeSeq : cfg.Worker → UInt32 := fun _ => 0
  producer : P → ProducerPc cfg := fun _ => .idle
  worker : cfg.Worker → WorkerPc cfg := fun w => .scan (cfg.scanOrder w)
  scheduled : cfg.Slot → List (Node S) := fun _ => []
  popped : cfg.Slot → List (Node S) := fun _ => []

inductive Label (cfg : Config S A) (P : Type)
  | schedule (p : P) (s : S)
  | producer (p : P)
  /-- a weak compare-exchange of `wake_one` fails without a reason -/
  | spurious (p : P)
  | worker (w : cfg.Worker)
  | yield (w : cfg.Worker)
  | backstop (sh : cfg.Shard)

variable {cfg : Config S A} [DecidableEq S] [DecidableEq P]

namespace State

def setProducer (s : State cfg P) (p : P) (pc : ProducerPc cfg) : State cfg P :=
  { s with producer := update s.producer p pc }

def setWorker (s : State cfg P) (w : cfg.Worker) (pc : WorkerPc cfg) : State cfg P :=
  { s with worker := update s.worker w pc }

def setOwner (s : State cfg P) (sh : cfg.Shard) (o : Owner cfg.Worker) : State cfg P :=
  { s with drainOwner := update s.drainOwner sh o }

def exchange (s : State cfg P) (k : cfg.Slot) (a : S) : State cfg P :=
  { s with
    q := update s.q k ((s.q k).exchange (.item a))
    scheduled := update s.scheduled k (s.scheduled k ++ [.item a]) }

def link (s : State cfg P) (k : cfg.Slot) (a : S) : State cfg P :=
  { s with q := update s.q k ((s.q k).link (.item a)) }

/-- An activation is enqueued only while it is in no run-queue. -/
def Outside (s : State cfg P) (k : cfg.Slot) (a : S) : Prop :=
  (s.scheduled k).count (.item a) = (s.popped k).count (.item a)

instance (s : State cfg P) (k : cfg.Slot) (a : S) : Decidable (s.Outside k a) :=
  inferInstanceAs (Decidable (_ = _))

end State

/-- `wake_one` with the idle mask it just saw. -/
def wakeOne (mask : cfg.Worker → Bool) : ProducerPc cfg :=
  match lowest mask with
  | none => .idle
  | some w => .wakeCas mask w

def stepSchedule (s : State cfg P) (p : P) (a : S) : Option (State cfg P) :=
  match s.producer p with
  | .idle =>
    if s.Outside (cfg.slotOf a) a then some ((s.exchange (cfg.slotOf a) a).setProducer p (.linking a)) else none
  | _ => none

def stepProducer (s : State cfg P) (p : P) : Option (State cfg P) :=
  match s.producer p with
  | .idle => none
  | .linking a => some ((s.link (cfg.slotOf a) a).setProducer p .wakeLoad)
  | .wakeLoad => some (s.setProducer p (wakeOne s.idleMask))
  | .wakeCas mask w =>
    if s.idleMask = mask then
      some ({ s with idleMask := update mask w false }.setProducer p (.wakeBump w))
    else some (s.setProducer p (wakeOne s.idleMask))
  | .wakeBump w => some ({ s with wakeSeq := update s.wakeSeq w (s.wakeSeq w + 1) }.setProducer p .idle)

def stepSpurious (s : State cfg P) (p : P) : Option (State cfg P) :=
  match s.producer p with
  | .wakeCas _ _ => some (s.setProducer p (wakeOne s.idleMask))
  | _ => none

def selected (d : Session cfg) (busy : Bool) : WorkerPc cfg :=
  if busy ∧ d.busy + 1 < cfg.busySpinLimit then .select { d with busy := d.busy + 1 } else .release d

def nextAttempt (d : Session cfg) (a : Attempt cfg) : WorkerPc cfg :=
  match lowest a.mask with
  | some b =>
    if a.attempt < cfg.policy.bands then .pop d b a else selected d a.sawBusy
  | none => selected d a.sawBusy

def stepPick (s : State cfg P) (w : cfg.Worker) (d : Session cfg) (mask : cfg.Band → Bool) : State cfg P :=
  match lowest mask with
  | none => s.setWorker w (selected d false)
  | some _ =>
    let r := cfg.pick (s.anti d.sh) mask
    { s with anti := update s.anti d.sh r.1 }.setWorker w
      (if mask r.2 then .pop d r.2 { mask } else nextAttempt d { mask, attempt := 1 })

def popResult (s : State cfg P) (w : cfg.Worker) (d : Session cfg) (b : cfg.Band) (a : Attempt cfg)
    (r : RunResult S) : State cfg P :=
  match r.item with
  | some (.item x) =>
    { s with popped := update s.popped (d.sh, b) (s.popped (d.sh, b) ++ [Node.item x]) }.setWorker w
      (.run { d with processed := true, busy := 0 } x)
  | _ =>
    match cfg.policy with
    | .uniformFIFO => s.setWorker w (selected d (decide (r.status = .busy)))
    | .priorityBands _ =>
      s.setWorker w (nextAttempt d {
        mask := update a.mask b false
        attempt := a.attempt + 1
        sawBusy := a.sawBusy || decide (r.status = .busy) })

def stepPop (s : State cfg P) (w : cfg.Worker) (d : Session cfg) (b : cfg.Band) (a : Attempt cfg) : State cfg P :=
  let r := ActivationMpsc.tryPop (s.q (d.sh, b)) (s.pop (d.sh, b))
  let s := { s with
    q := update s.q (d.sh, b) r.1
    pop := update s.pop (d.sh, b) r.2.1 }
  match r.2.2 with
  | none => s
  | some r => popResult s w d b a r

/-- The end of `try_drain_shard`: after a productive drain the scan starts again from the top. -/
def drainedShard (w : cfg.Worker) (d : Session cfg) : WorkerPc cfg :=
  if d.processed then .scan (cfg.scanOrder w) else .scan d.rest

/-- The next probe of `pre_park_spin`, its relaxing and its yielding loop alike. -/
def spinOrPark : Nat → WorkerPc cfg
  | 0 => .park
  | left+1 => .spin left cfg.allSlots

def stepWorker (s : State cfg P) (w : cfg.Worker) : Option (State cfg P) :=
  match s.worker w with
  | .scan [] => some (s.setWorker w (spinOrPark (cfg.preParkSpinLimit + cfg.yieldSpinLimit)))
  | .scan (sh :: rest) =>
    match s.drainOwner sh with
    | .none => some ((s.setOwner sh (.worker w)).setWorker w (.select { sh, rest }))
    | _ => some (s.setWorker w (.scan rest))
  | .select d =>
    match cfg.policy with
    | .uniformFIFO => some (s.setWorker w (.pop d cfg.topBand { mask := fun _ => false }))
    | .priorityBands _ => some (s.setWorker w (.hints d (List.finRange cfg.policy.bands) fun _ => false))
  | .hints d [] mask => some (stepPick s w d mask)
  | .hints d (b :: todo) mask =>
    some (s.setWorker w (.hints d todo (update mask b (ActivationMpsc.hasWork (s.q (d.sh, b))))))
  | .pop d b a => some (stepPop s w d b a)
  | .run d _ => some (s.setWorker w (.select d))
  | .requeue d a =>
    if s.Outside (d.sh, cfg.bandOf a) a then
      some ((s.exchange (d.sh, cfg.bandOf a) a).setWorker w (.requeueLink d a))
    else none
  | .requeueLink d a => some ((s.link (d.sh, cfg.bandOf a) a).setWorker w (.select d))
  | .release d => some ((s.setOwner d.sh .none).setWorker w (.recheck d (cfg.shardSlots d.sh)))
  | .recheck d [] => some (s.setWorker w (drainedShard w d))
  | .recheck d (k :: todo) =>
    some (s.setWorker w (if ActivationMpsc.hasWork (s.q k) then .reacquire d else .recheck d todo))
  | .reacquire d =>
    match s.drainOwner d.sh with
    | .none => some ((s.setOwner d.sh (.worker w)).setWorker w (.select { d with busy := 0 }))
    | _ => some (s.setWorker w (drainedShard w d))
  | .spin left [] => some (s.setWorker w (spinOrPark left))
  | .spin left (k :: todo) =>
    some (s.setWorker w (if ActivationMpsc.hasWork (s.q k) then .scan (cfg.scanOrder w) else .spin left todo))
  | .park => some (s.setWorker w (.announce (s.wakeSeq w)))
  | .announce seq =>
    some ({ s with idleMask := update s.idleMask w true }.setWorker w (.rescan seq cfg.allSlots))
  | .rescan seq [] => some (s.setWorker w (.asleep seq))
  | .rescan seq (k :: todo) =>
    some (s.setWorker w (if ActivationMpsc.hasWork (s.q k) then .retract else .rescan seq todo))
  | .asleep seq => if s.wakeSeq w = seq then none else some (s.setWorker w .retract)
  | .retract =>
    some ({ s with idleMask := update s.idleMask w false }.setWorker w (.scan (cfg.scanOrder w)))

def stepYield (s : State cfg P) (w : cfg.Worker) : Option (State cfg P) :=
  match s.worker w with
  | .run d a => some (s.setWorker w (.requeue d a))
  | _ => none

def stepBackstop (s : State cfg P) (sh : cfg.Shard) : Option (State cfg P) :=
  match s.drainOwner sh with
  | .none => some (s.setOwner sh .backstop)
  | .backstop => some (s.setOwner sh .none)
  | .worker _ => none

def step (s : State cfg P) : Label cfg P → Option (State cfg P)
  | .schedule p a => stepSchedule s p a
  | .producer p => stepProducer s p
  | .spurious p => stepSpurious s p
  | .worker w => stepWorker s w
  | .yield w => stepYield s w
  | .backstop sh => stepBackstop s sh

end Quark.Engine
