import Quark.Lib.Machine
import Quark.Lib.Vyukov

/-! The two queues of the engine, `mailbox.hpp` and `run_queue.hpp`: one Vyukov queue under two sets of
names, of descriptors and of schedulables. -/
namespace Quark

open List Option Machine Vyukov

inductive DrainStatus
  | message | empty | busy
  deriving DecidableEq, Repr

/-- `desc` is valid iff the status is `message`. -/
structure DrainResult (D : Type) where
  desc : Option (Node D) := none
  status : DrainStatus
  deriving DecidableEq, Repr

abbrev Mailbox (D : Type) := Queue D

namespace Mailbox

variable {D : Type} [DecidableEq D]

def drainResult : Outcome D → DrainResult D
  | .message front => { desc := some front, status := .message }
  | .empty => { status := .empty }
  | .busy => { status := .busy }

def tryDequeue (m : Mailbox D) (c : Consumer) : Mailbox D × Consumer × Option (DrainResult D) :=
  let r := m.consume c
  (r.1, r.2.1, r.2.2.map drainResult)

def probeHasWork (m : Mailbox D) : Bool := decide (m.tail ≠ .stub)

end Mailbox

inductive RunStatus
  | item | empty | busy
  deriving DecidableEq, Repr

structure RunResult (S : Type) where
  item : Option (Node S) := none
  status : RunStatus
  deriving DecidableEq, Repr

abbrev ActivationMpsc (S : Type) := Queue S

namespace ActivationMpsc

variable {S : Type} [DecidableEq S]

def runResult : Outcome S → RunResult S
  | .message front => { item := some front, status := .item }
  | .empty => { status := .empty }
  | .busy => { status := .busy }

def tryPop (q : ActivationMpsc S) (c : Consumer) : ActivationMpsc S × Consumer × Option (RunResult S) :=
  let r := q.consume c
  (r.1, r.2.1, r.2.2.map runResult)

/-- `nonempty_hint` and `has_work` are the same comparison. -/
def hasWork (q : ActivationMpsc S) : Bool := decide (q.tail ≠ .stub)

end ActivationMpsc

namespace Mpsc

/-- The queue, its consumer, and the nodes pushed and returned so far. -/
structure State (α : Type) where
  q : Queue α := {}
  c : Consumer := .idle
  pushed : List (Node α) := []
  returned : List (Node α) := []

inductive Label (α : Type)
  | exchange (a : α)
  | link (a : α)
  | consume
  deriving DecidableEq, Repr

section

variable {α R : Type} [DecidableEq α]
variable (deq : Queue α → Consumer → Queue α × Consumer × Option R) (node : R → Option (Node α))

def step (s : State α) : Label α → Option (State α)
  | .exchange a =>
    if s.pushed.count (.item a) = s.returned.count (.item a) then
      some { s with q := s.q.exchange (.item a), pushed := s.pushed ++ [.item a] }
    else none
  | .link a => if s.q.pred (.item a) = none then none else some { s with q := s.q.link (.item a) }
  | .consume =>
    let r := deq s.q s.c
    some { s with q := r.1, c := r.2.1, returned := s.returned ++ (r.2.2.bind node).toList }

/-- In every state that producers and the one consumer reach: the nodes returned are a prefix of the
exchanges, in their order; an empty queue is reported only when no exchange before that read of the tail
is outstanding; and once every push is linked, the consumer alone returns all that is left. -/
structure Delivers (isEmpty : R → Prop) : Prop where
  fifo : ∀ s, Reachable (step deq node) {} s → s.returned <+: s.pushed
  empty : ∀ s, Reachable (step deq node) {} s →
    ∀ r, (deq s.q s.c).2.2 = some r → isEmpty r → s.returned = s.pushed
  drains : ∀ s, Reachable (step deq node) {} s → s.q.Quiet →
    ∃ n s', Machine.run (step deq node) s (List.replicate n .consume) = some s' ∧
      s'.pushed = s.pushed ∧ s'.returned = s.pushed ∧ s'.c = .idle

def Accounted (s : State α) : Prop :=
  ∃ items, s.q.Holds s.c items ∧ s.pushed = s.returned ++ items.map .item

variable {deq node}

theorem Accounted.step {emit : Outcome α → R}
    (hdeq : ∀ q c, deq q c = ((q.consume c).1, (q.consume c).2.1, (q.consume c).2.2.map emit))
    (hnode : ∀ out, (node (emit out)).toList = Queue.returned (some out))
    {s s' : State α} {l : Label α} (h : Accounted s) (hstep : Mpsc.step deq node s l = some s') :
    Accounted s' := by
  obtain ⟨items, hholds, hpushed⟩ := h
  cases l with
  | exchange a =>
    simp only [Mpsc.step] at hstep
    split at hstep
    · next hcount =>
      cases hstep
      have ha : a ∉ items := by
        intro hmem
        have hpos : 0 < (items.map Node.item).count (.item a) :=
          count_pos_iff.mpr (mem_map_of_mem hmem)
        rw [hpushed, count_append] at hcount
        omega
      refine ⟨items ++ [a], hholds.exchange ha, ?_⟩
      rw [hpushed, map_append, append_assoc]
      rfl
    · cases hstep
  | link a =>
    simp only [Mpsc.step] at hstep
    split at hstep
    · cases hstep
    · cases hstep
      exact ⟨items, hholds.link a, hpushed⟩
  | consume =>
    simp only [Mpsc.step, hdeq] at hstep
    cases hstep
    have hspec := hholds.consume
    generalize s.q.consume s.c = r at hspec ⊢
    cases hspec with
    | going hq => exact ⟨items, hq, by simpa using hpushed⟩
    | message hitems hq =>
      refine ⟨_, hq, ?_⟩
      simp only [map_some, bind_some, hnode, Queue.returned]
      rw [hpushed, hitems, map_cons, append_assoc]
      rfl
    | empty _ _ hq | busy hq =>
      refine ⟨items, hq, ?_⟩
      simp only [map_some, bind_some, hnode, Queue.returned, append_nil]
      exact hpushed

theorem run_consume {emit : Outcome α → R}
    (hdeq : ∀ q c, deq q c = ((q.consume c).1, (q.consume c).2.1, (q.consume c).2.2.map emit))
    (hnode : ∀ out, (node (emit out)).toList = Queue.returned (some out)) (n : Nat) (s : State α) :
    Machine.run (Mpsc.step deq node) s (List.replicate n .consume) = some { s with
      q := (Queue.serve n s.q s.c).1, c := (Queue.serve n s.q s.c).2.1,
      returned := s.returned ++ (Queue.serve n s.q s.c).2.2 } := by
  induction n generalizing s with
  | zero => simp [Machine.run, Queue.serve]
  | succ n ih =>
    have hout : ((s.q.consume s.c).2.2.map emit |>.bind node).toList = Queue.returned (s.q.consume s.c).2.2 := by
      cases (s.q.consume s.c).2.2 with
      | none => rfl
      | some out => exact hnode out
    rw [replicate_succ, Machine.run, foldlM_cons]
    simp only [Mpsc.step, hdeq, bind_eq_bind, bind_some]
    rw [← Machine.run, ih]
    simp only [Queue.serve, hout, append_assoc]

/-- A call whose steps are those of the Vyukov consumer, whatever it names its outcomes, delivers. -/
theorem delivers {isEmpty : R → Prop} (emit : Outcome α → R)
    (hdeq : ∀ q c, deq q c = ((q.consume c).1, (q.consume c).2.1, (q.consume c).2.2.map emit))
    (hnode : ∀ out, (node (emit out)).toList = Queue.returned (some out))
    (hempty : ∀ out, isEmpty (emit out) → out = .empty) : Delivers deq node isEmpty := by
  have haccounted : ∀ s, Reachable (Mpsc.step deq node) {} s → Accounted s := fun s hs =>
    hs.invariant ⟨[], Queue.Holds.initial, rfl⟩ fun _ _ _ h hstep => h.step hdeq hnode hstep
  refine ⟨fun s hs => ?_, fun s hs r hr hisEmpty => ?_, fun s hs hquiet => ?_⟩
  · obtain ⟨items, _, hpushed⟩ := haccounted s hs
    exact ⟨items.map .item, hpushed.symm⟩
  · obtain ⟨items, hholds, hpushed⟩ := haccounted s hs
    have hspec := hholds.consume
    rw [hdeq] at hr
    generalize s.q.consume s.c = out at hspec hr
    cases hspec with
    | going _ => cases hr
    | message _ _ =>
      cases hr
      cases hempty _ hisEmpty
    | empty hitems _ _ => rw [hpushed, hitems, map_nil, append_nil]
    | busy _ =>
      cases hr
      cases hempty _ hisEmpty
  · obtain ⟨items, hholds, hpushed⟩ := haccounted s hs
    obtain ⟨n, q', hserve⟩ := hholds.serves hquiet
    refine ⟨n, _, run_consume hdeq hnode n s, rfl, ?_, ?_⟩
    · rw [hserve, hpushed]
    · rw [hserve]

end

/-- `Mailbox::try_dequeue` and `ActivationMpsc::try_pop` deliver. -/
theorem tryDequeue_delivers (D S : Type) [DecidableEq D] [DecidableEq S] :
    Delivers (Mailbox.tryDequeue (D := D)) DrainResult.desc (fun r => r.status = .empty) ∧
      Delivers (ActivationMpsc.tryPop (S := S)) RunResult.item (fun r => r.status = .empty) := by
  refine ⟨?_, ?_⟩
  · refine delivers Mailbox.drainResult (fun q c => rfl) (fun out => ?_) (fun out h => ?_)
    · cases out <;> rfl
    · cases out with
      | message front | busy => cases h
      | empty => rfl
  · refine delivers ActivationMpsc.runResult (fun q c => rfl) (fun out => ?_) (fun out h => ?_)
    · cases out <;> rfl
    · cases out with
      | message front | busy => cases h
      | empty => rfl

end Mpsc

end Quark
