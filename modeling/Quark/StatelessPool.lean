import Mathlib.Algebra.BigOperators.Group.Finset.Basic
import Quark.EffectivelyOnce
import Quark.GovernedDepth

/-! `StatelessPool<A>` of `stateless_pool.hpp`: governed activations under `Stop`, one drain each, and the
router in front of them. -/
set_option linter.unusedSectionVars false

namespace Quark.StatelessPool

open Function List Option Machine Vyukov Census
open Activation (Desc)
open Drain (ProducerPc LanePc)

variable {M P : Type} {n : Nat}

inductive PoolRoute
  | leastLoaded | roundRobin
  deriving DecidableEq, Repr

/-- `budget` is what the workers drain at a time. -/
structure Config where
  route : PoolRoute := .leastLoaded
  salt : UInt64 := 0x9E3779B97F4A7C15
  budget : Nat := 64

/-- `faulted` is history: what the handler was run on and threw. -/
structure Slot (M P : Type) where
  act : Drain.State M P := {}
  used : Bool := false
  faulted : List (Desc M) := []

/-- A thread in `post`, by its next access. -/
inductive PosterPc (M : Type) (n : Nat)
  | idle
  | fetch (m : M)
  | enqueuedA (m : M) (a b : Fin n)
  | drainedA (m : M) (a b : Fin n) (enqueued : UInt64)
  | enqueuedB (m : M) (a b : Fin n) (depthA : UInt64)
  | drainedB (m : M) (a b : Fin n) (depthA enqueued : UInt64)
  | enter (m : M) (i : Fin n)
  | inside (i : Fin n)

/-- `posts` is history. -/
structure State (M P : Type) (n : Nat) where
  slots : Fin n → Slot M P := fun _ => {}
  seq : UInt64 := 0
  posters : P → PosterPc M n := fun _ => .idle
  posts : List M := []

inductive Label (M P : Type) (n : Nat)
  | post (p : P) (m : M)
  | postTo (p : P) (i : Fin n) (m : M)
  | poster (p : P)
  /-- the next access of whoever drains the slot; `throws` if that runs the handler and it throws -/
  | lane (i : Fin n) (throws : Bool)

/-- `enable_governance` with the defaults. -/
def governance (cfg : Config) : Drain.Config := { kind := .governed, budget := cfg.budget }

/-- Under `SupervisionDirective::Stop` every fault stops the activation. -/
def verdict (throws : Bool) : Drain.Verdict := { outcome := if throws then .faulted true else .returned }

def Slot.faults (sl : Slot M P) (throws : Bool) : List (Desc M) :=
  if throws = true ∧ sl.act.stopped = false then sl.act.lane.claims.toList else []

def routeSlot [NeZero n] (cfg : Config) (t : UInt64) (m : M) : PosterPc M n :=
  match cfg.route with
  | .roundRobin => .enter m (Fin.ofNat n t.toNat)
  | .leastLoaded =>
    let r := splitmix64 (t + cfg.salt)
    .enqueuedA m (Fin.ofNat n r.toNat) (Fin.ofNat n (r >>> 32).toNat)

section

variable [DecidableEq M] [DecidableEq P]

def Slot.drain (cfg : Config) (sl : Slot M P) (throws : Bool) : Slot M P :=
  { sl with
    act := Drain.stepLane (governance cfg) sl.act (verdict throws)
    faulted := sl.faulted ++ sl.faults throws }

namespace State

variable (s : State M P n)

def setSlot (i : Fin n) (sl : Slot M P) : State M P n := { s with slots := update s.slots i sl }

def setPoster (p : P) (pc : PosterPc M n) : State M P n := { s with posters := update s.posters p pc }

def setAct (i : Fin n) (act : Drain.State M P) : State M P n := s.setSlot i { s.slots i with act }

variable {s} {i j : Fin n} {sl : Slot M P} {p q : P} {pc : PosterPc M n}

theorem setSlot_self : (s.setSlot i sl).slots i = sl := update_self ..

theorem setSlot_ne (h : j ≠ i) : (s.setSlot i sl).slots j = s.slots j := update_of_ne h ..

theorem setPoster_self : (s.setPoster p pc).posters p = pc := update_self ..

theorem setPoster_ne (h : q ≠ p) : (s.setPoster p pc).posters q = s.posters q := update_of_ne h ..

end State

def stepPoster [NeZero n] (cfg : Config) (s : State M P n) (p : P) : Option (State M P n) :=
  match s.posters p with
  | .idle => none
  | .fetch m => some ({ s with seq := s.seq + 1 }.setPoster p (routeSlot cfg s.seq m))
  | .enqueuedA m a b => some (s.setPoster p (.drainedA m a b (UInt64.ofNat (s.slots a).act.enqueued)))
  | .drainedA m a b enqueued =>
      some (s.setPoster p (.enqueuedB m a b (enqueued - UInt64.ofNat (s.slots a).act.drained)))
  | .enqueuedB m a b depthA => some (s.setPoster p (.drainedB m a b depthA (UInt64.ofNat (s.slots b).act.enqueued)))
  | .drainedB m a b depthA enqueued =>
    let depthB := enqueued - UInt64.ofNat (s.slots b).act.drained
    some (s.setPoster p (.enter m (if depthA ≤ depthB then a else b)))
  | .enter m i =>
    (Drain.stepPost (governance cfg) (s.slots i).act p m true).map fun act =>
      (s.setSlot i { s.slots i with act, used := true }).setPoster p (.inside i)
  | .inside i =>
    if (s.slots i).act.producer p = .idle then some (s.setPoster p .idle)
    else (Drain.stepProducer (s.slots i).act p).map (s.setAct i)

def step [NeZero n] (cfg : Config) (s : State M P n) : Label M P n → Option (State M P n)
  | .post p m =>
    match s.posters p with
    | .idle => some ({ s with posts := s.posts ++ [m] }.setPoster p (.fetch m))
    | _ => none
  | .postTo p i m =>
    match s.posters p with
    | .idle => some ({ s with posts := s.posts ++ [m] }.setPoster p (.enter m i))
    | _ => none
  | .poster p => stepPoster cfg s p
  | .lane i throws => some (s.setSlot i ((s.slots i).drain cfg throws))

end

def enqueues : ProducerPc M → Option (Desc M)
  | .exchange d => some d
  | _ => none

/-- Nothing is enqueued on a stopped slot, and a handler throws only when nothing is queued behind its message. -/
def Isolated (s : State M P n) : Label M P n → Prop
  | .poster p =>
    match s.posters p with
    | .inside i => (s.slots i).act.stopped = true → enqueues ((s.slots i).act.producer p) = none
    | _ => True
  | .lane i throws => (s.slots i).faults throws ≠ [] → (s.slots i).act.mail = []
  | _ => True

instance (s : State M P n) (a : Label M P n) : Decidable (Isolated s a) := by
  cases a with
  | poster p =>
    show Decidable (match s.posters p with
      | .inside i => (s.slots i).act.stopped = true → enqueues ((s.slots i).act.producer p) = none
      | _ => True)
    cases s.posters p <;> infer_instance
  | lane i throws =>
    show Decidable ((s.slots i).faults throws ≠ [] → (s.slots i).act.mail = [])
    cases (s.slots i).faults throws <;> cases (s.slots i).act.mail <;> infer_instance
  | _ => exact isTrue trivial

/-- A post has no bound to look at, and nobody posts the control descriptor. -/
def Plain : ProducerPc M → Prop
  | .idle | .count _ | .exchange (.message _) | .linking (.message _) => True
  | _ => False

def Unshedding : LanePc M → Prop
  | .away => True
  | .overflow bound => bound = 0
  | .loop l | .dequeue l | .resident l _ | .drained l _ _ | .claim l _ _ => l.dropOldest = false

section

variable [DecidableEq M] [DecidableEq P] [Fintype P] {cfg : Config} {sl : Slot M P}
  {act : Drain.State M P} {p : P} {m : M}
  {throws : Bool}

/-- A slot where every message dequeued went to the handler and no message was left to a stopped activation. -/
structure Slot.Clean (sl : Slot M P) : Prop where
  inv : ∃ items, Drain.Inv sl.act items
  unbounded : sl.act.bound = 0
  lane : Unshedding sl.act.lane
  producers : ∀ p, Plain (sl.act.producer p)
  messages : ∀ node ∈ sl.act.posted, ∃ m, node = .item (.message m)
  handled : (sl.act.dispatched ++ sl.act.lane.hand.toList).map .item = sl.act.dequeued
  dead : sl.act.deadLettered = sl.faulted
  faulted : sl.faulted.Sublist sl.act.dispatched
  stopped : sl.act.stopped = true → sl.act.mail = [] ∧ sl.act.lane.hand = none

theorem Slot.Clean.initial : ({} : Slot M P).Clean where
  inv := ⟨[], Drain.start_inv⟩
  unbounded := rfl
  lane := trivial
  producers _ := trivial
  messages _ h := absurd h not_mem_nil
  handled := rfl
  dead := rfl
  faulted := .slnil
  stopped h := nomatch h

theorem Slot.Clean.keepsInv (h : sl.Clean) (cfg : Config) (a : Drain.Label M P)
    (hstep : Drain.step (governance cfg) sl.act a = some act) : ∃ items, Drain.Inv act items := by
  obtain ⟨items, hinv⟩ := h.inv
  exact hinv.step (Drain.sound_of_governed rfl _ _) hstep

theorem Slot.Clean.goto (h : sl.Clean) (pc : ProducerPc M) (hpc : Plain pc) (hinv : ∃ items, Drain.Inv act items)
    (hact : act = { sl.act with
      mailbox := act.mailbox, producer := update sl.act.producer p pc, enqueued := act.enqueued })
    {used : Bool} : ({ sl with act, used } : Slot M P).Clean := by
  rw [hact] at hinv ⊢
  exact { h with
    inv := hinv
    producers := (Function.forall_update_iff sl.act.producer fun _ pc => Plain pc).mpr
      ⟨hpc, fun x _ => h.producers x⟩ }

theorem Slot.Clean.post (h : sl.Clean) (used : Bool)
    (hstep : Drain.stepPost (governance cfg) sl.act p m true = some act) :
    sl.act.producer p = .idle ∧ act = sl.act.setProducer p (.count m) ∧ ({ sl with act, used } : Slot M P).Clean := by
  have hinv := h.keepsInv cfg (.post p m true) hstep
  simp only [Drain.stepPost, governance, h.unbounded, ite_none_right_eq_some, some.injEq, ne_eq,
    not_true_eq_false, and_false, if_false] at hstep
  obtain ⟨hidle, rfl⟩ := hstep
  exact ⟨hidle, rfl, h.goto (.count m) trivial hinv rfl⟩

theorem Slot.Clean.producer (h : sl.Clean) (hok : sl.act.stopped = true → enqueues (sl.act.producer p) = none)
    (hstep : Drain.stepProducer sl.act p = some act) :
    ({ sl with act } : Slot M P).Clean ∧ act.dispatched = sl.act.dispatched := by
  have hinv := h.keepsInv {} (.producer p) hstep
  rw [Drain.stepProducer] at hstep
  have hplain := h.producers p
  cases hpc : sl.act.producer p with
  | idle =>
    rw [hpc] at hstep
    cases hstep
  | loadEnqueued | loadDrained | overflow =>
    rw [hpc] at hplain
    cases hplain
  | count m =>
    rw [hpc] at hstep
    cases hstep
    exact ⟨h.goto (.exchange (.message m)) trivial hinv rfl, rfl⟩
  | linking d =>
    rw [hpc] at hstep
    cases hstep
    exact ⟨h.goto .idle trivial hinv rfl, rfl⟩
  | exchange d =>
    rw [hpc] at hstep hplain hok
    simp only [ite_none_right_eq_some, some.injEq] at hstep
    obtain ⟨_, rfl⟩ := hstep
    have hrunning : sl.act.stopped = false := Bool.eq_false_iff.mpr fun hstop => by cases hok hstop
    cases d with
    | deactivate => cases hplain
    | message m =>
      refine ⟨{ h with
        inv := hinv
        producers := ?_
        messages := ?_
        stopped := fun hstop => absurd (hrunning.symm.trans hstop) (by simp) }, rfl⟩
      · exact (Function.forall_update_iff sl.act.producer fun _ pc => Plain pc).mpr
          ⟨trivial, fun x _ => h.producers x⟩
      · intro node hnode
        obtain hold | hnew := mem_append.mp hnode
        · exact h.messages node hold
        · exact ⟨m, mem_singleton.mp hnew⟩

theorem Slot.Clean.advance (h : sl.Clean) (pc : LanePc M) (hinv : ∃ items, Drain.Inv act items)
    (hlane : Unshedding pc)
    (hhand : pc.hand = sl.act.lane.hand)
    (hact : act = { sl.act with mailbox := act.mailbox, deq := act.deq, drained := act.drained, lane := pc }) :
    ({ sl with act } : Slot M P).Clean := by
  rw [hact] at hinv ⊢
  exact { h with
    inv := hinv
    lane := hlane
    handled := by
      show (sl.act.dispatched ++ pc.hand.toList).map Node.item = sl.act.dequeued
      rw [hhand]
      exact h.handled
    stopped := fun hstop => ⟨(h.stopped hstop).1, hhand.trans (h.stopped hstop).2⟩ }

theorem Slot.drain_of_not_claim (hclaims : sl.act.lane.claims = none) :
    sl.drain cfg throws = { sl with act := Drain.stepLane (governance cfg) sl.act (verdict throws) } := by
  have hnone : sl.faults throws = [] := by
    unfold Slot.faults
    split
    · rw [hclaims]
      rfl
    · rfl
  rw [Slot.drain, hnone, append_nil]

theorem Slot.Clean.mem_posted (h : sl.Clean) {node : Node (Desc M)} (hnode : node ∈ sl.act.dequeued) :
    node ∈ sl.act.posted := by
  obtain ⟨items, hinv⟩ := h.inv
  rw [hinv.posted]
  exact mem_append_left _ hnode

theorem Slot.Clean.take (h : sl.Clean) {l : Drain.Pass} {d : Desc M} (hpc : sl.act.lane = .dequeue l)
    (hl : l.dropOldest = false)
    (hinv : ∃ items, Drain.Inv act items)
    (hact : act = { sl.act with
      mailbox := act.mailbox, deq := act.deq, dequeued := sl.act.dequeued ++ [.item d], lane :=
      .resident l.take d }) : ({ sl with act } : Slot M P).Clean := by
  have hrunning : sl.act.stopped = false := by
    rw [Bool.eq_false_iff]
    intro hstop
    obtain ⟨items, hafter⟩ := hinv
    have hmail := (h.stopped hstop).1
    have htaken := hafter.taken
    rw [hact] at htaken
    rw [Drain.mail_cons htaken] at hmail
    cases hmail
  have hhandled : sl.act.dispatched.map Node.item = sl.act.dequeued := by
    have hbefore := h.handled
    rw [hpc, show (LanePc.dequeue l : LanePc M).hand = none from rfl, toList_none, append_nil] at hbefore
    exact hbefore
  rw [hact] at hinv ⊢
  exact { h with
    inv := hinv
    lane := hl
    handled := by
      show (sl.act.dispatched ++ [d]).map Node.item = sl.act.dequeued ++ [.item d]
      rw [map_append, hhandled, map_singleton]
    stopped := fun hstop => absurd (hrunning.symm.trans hstop) (by simp) }

theorem Slot.Clean.claim (h : sl.Clean) {l : Drain.Pass} {d : Desc M} {resident : UInt64}
    (hpc : sl.act.lane = .claim l d resident) (hok : sl.faults throws ≠ [] → sl.act.mail = []) :
    (sl.drain cfg throws).Clean := by
  have hinv := h.keepsInv cfg (.lane (verdict throws)) rfl
  have hdropless : l.dropOldest = false := by
    have hlane := h.lane
    rw [hpc] at hlane
    exact hlane
  have hrunning : sl.act.stopped = false := by
    rw [Bool.eq_false_iff]
    intro hstop
    have hnone := (h.stopped hstop).2
    rw [hpc] at hnone
    cases hnone
  have hhandled : (sl.act.dispatched ++ [d]).map Node.item = sl.act.dequeued := by
    have hbefore := h.handled
    rw [hpc] at hbefore
    exact hbefore
  obtain ⟨m, hm⟩ := h.messages (.item d) (h.mem_posted (by rw [← hhandled]; simp))
  cases hm
  have hsplit :
      (sl.act.dispatched ++ [Desc.message m] ++ (LanePc.loop l : LanePc M).hand.toList).map Node.item =
      sl.act.dequeued := by
    rw [show (LanePc.loop l : LanePc M).hand = none from rfl, toList_none, append_nil, hhandled]
  unfold Slot.drain
  cases throws with
  | false =>
    have hstep : Drain.stepLane (governance cfg) sl.act (verdict false) = { sl.act with
        lane := .loop l, dispatched := sl.act.dispatched ++ [.message m], reclaimed :=
          sl.act.reclaimed ++ [.message m] } := by
      simp [Drain.stepLane, hpc, Drain.stepClaim, verdict, governance, hrunning, hdropless, Drain.dispatch]
    have hfaults : sl.faults false = [] := by simp [Slot.faults]
    rw [hstep] at hinv ⊢
    rw [hfaults, append_nil]
    exact { h with
      inv := hinv
      lane := hdropless
      handled := hsplit
      faulted := h.faulted.trans (sublist_append_left ..)
      stopped := fun hstop => absurd (hrunning.symm.trans hstop) (by simp) }
  | true =>
    have hstep : Drain.stepLane (governance cfg) sl.act (verdict true) = { sl.act with
        lane := .loop l, dispatched := sl.act.dispatched ++ [.message m], stopped := true
        deadLettered := sl.act.deadLettered ++ [.message m], reclaimed := sl.act.reclaimed ++ [.message m] } := by
      simp [Drain.stepLane, hpc, Drain.stepClaim, verdict, governance, hrunning, hdropless, Drain.dispatch,
        Drain.State.deadLetterAndReclaim]
    have hfaults : sl.faults true = [.message m] := by simp [Slot.faults, hrunning, hpc, LanePc.claims]
    have hlast : sl.act.mail = [] := hok (by rw [hfaults]; exact cons_ne_nil _ _)
    rw [hstep] at hinv ⊢
    rw [hfaults]
    exact { h with
      inv := hinv
      lane := hdropless
      handled := hsplit
      dead := congrArg (· ++ [Desc.message m]) h.dead
      faulted := h.faulted.append (List.Sublist.refl _)
      stopped := fun _ => ⟨hlast, rfl⟩ }

theorem Slot.Clean.drain (h : sl.Clean) (hok : sl.faults throws ≠ [] → sl.act.mail = []) :
    (sl.drain cfg throws).Clean := by
  have hinv := h.keepsInv cfg (.lane (verdict throws)) rfl
  have hlane := h.lane
  cases hpc : sl.act.lane with
  | claim l d resident => exact h.claim hpc hok
  | away =>
    rw [Slot.drain_of_not_claim (by rw [hpc]; rfl)]
    refine h.advance (.overflow sl.act.bound) hinv h.unbounded (by rw [hpc]; rfl) ?_
    simp only [Drain.stepLane, hpc, governance, if_true]
  | overflow bound =>
    rw [Slot.drain_of_not_claim (by rw [hpc]; rfl)]
    rw [hpc] at hlane
    have hdropless : ∀ {c : Prop} [Decidable c], decide (bound ≠ 0 ∧ c) = false := by simp [show bound = 0 from hlane]
    exact h.advance
      (.loop { remaining := cfg.budget, bound, dropOldest := bound ≠ 0 ∧
      sl.act.overflow = .dropOldest }) hinv hdropless
      (by rw [hpc]; rfl) (by simp only [Drain.stepLane, hpc, governance])
  | loop l =>
    rw [Slot.drain_of_not_claim (by rw [hpc]; rfl)]
    rw [hpc] at hlane
    refine h.advance (if l.remaining = 0 then .away else .dequeue l) hinv ?_ ?_ (by simp only [Drain.stepLane, hpc])
    · split
      · trivial
      · exact hlane
    · rw [hpc]
      split <;> rfl
  | dequeue l =>
    rw [Slot.drain_of_not_claim (by rw [hpc]; rfl)]
    rw [hpc] at hlane
    have hstep : Drain.stepLane (governance cfg) sl.act (verdict throws) =
        Drain.stepDequeue (governance cfg) sl.act l := by
      simp only [Drain.stepLane, hpc]
    rw [hstep]
    have hkind : (governance cfg).kind = .governed := rfl
    rw [hstep] at hinv
    rcases Drain.stepDequeue_cases hkind sl.act l with ⟨mail, c, pc, heq, hpc'⟩ | ⟨mail, c, d, heq⟩
    · rw [heq] at hinv ⊢
      obtain rfl | rfl := hpc'
      · exact h.advance sl.act.lane hinv h.lane rfl rfl
      · exact h.advance .away hinv trivial (by rw [hpc]; rfl) rfl
    · rw [heq] at hinv ⊢
      exact h.take hpc hlane hinv rfl
  | resident l d =>
    rw [Slot.drain_of_not_claim (by rw [hpc]; rfl)]
    rw [hpc] at hlane
    exact h.advance (.drained l d (UInt64.ofNat sl.act.enqueued)) hinv hlane (by rw [hpc]; rfl)
      (by simp only [Drain.stepLane, hpc])
  | drained l d enqueued =>
    rw [Slot.drain_of_not_claim (by rw [hpc]; rfl)]
    rw [hpc] at hlane
    exact h.advance (.claim l d (enqueued - UInt64.ofNat sl.act.drained)) hinv hlane (by rw [hpc]; rfl)
      (by simp only [Drain.stepLane, hpc])

end

end Quark.StatelessPool
