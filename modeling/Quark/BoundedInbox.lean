import Mathlib.Data.List.Nodup
import Mathlib.Data.UInt
import Quark.Lib.Machine
import Quark.Lib.StampedRing

/-! `BoundedInbox<M>` of `topic.hpp` under any number of producers and consumers, one shared access a step.
Positions do not wrap. -/
namespace Quark.BoundedInbox

open Function List Machine StampedRing

variable {P C E : Type}

def roundUpPow2 (x : UInt32) : UInt32 :=
  if x ≤ 1 then 1
  else
    let x := x - 1
    let x := x ||| (x >>> 1)
    let x := x ||| (x >>> 2)
    let x := x ||| (x >>> 4)
    let x := x ||| (x >>> 8)
    let x := x ||| (x >>> 16)
    x + 1

structure Cell (E : Type) where
  seq : Nat
  env : E

structure Inbox (E : Type) where
  cap : UInt32
  mask : Nat
  cells : Nat → Cell E
  enqueuePos : Nat := 0
  dequeuePos : Nat := 0

/-- A thread in `try_push`, by its next access. -/
inductive PushPc (E : Type)
  | idle
  | load (env : E)
  | check (env : E) (pos : Nat)
  | claim (env : E) (pos : Nat)
  | write (env : E) (pos : Nat)
  | publish (env : E) (pos : Nat)
  deriving DecidableEq, Repr

/-- A thread in `try_pop`, by its next access. -/
inductive PopPc (E : Type)
  | idle
  | load
  | check (pos : Nat)
  | claim (pos : Nat)
  | read (pos : Nat)
  | release (pos : Nat) (out : E)
  deriving DecidableEq, Repr

namespace Inbox

def new [Inhabited E] (capacity : UInt32) : Inbox E :=
  let cap := roundUpPow2 (if capacity = 0 then 1 else capacity)
  { cap, mask := (cap - 1).toNat, cells := fun i => { seq := i, env := default } }

def capacity (ib : Inbox E) : UInt32 := ib.cap

variable (ib : Inbox E)

def cell (pos : Nat) : Cell E := ib.cells (pos &&& ib.mask)

def setSeq (pos seq : Nat) : Inbox E :=
  { ib with cells := update ib.cells (pos &&& ib.mask) { ib.cell pos with seq } }

def setEnv (pos : Nat) (env : E) : Inbox E :=
  { ib with cells := update ib.cells (pos &&& ib.mask) { ib.cell pos with env } }

/-- The next access of `try_push`, and what the call returns if it ends. A weak exchange may fail for no reason. -/
def tryPush (spurious : Bool) : PushPc E → Inbox E × PushPc E × Option Bool
  | .idle => (ib, .idle, none)
  | .load env => (ib, .check env ib.enqueuePos, none)
  | .check env pos =>
    let dif : Int := (ib.cell pos).seq - pos
    if dif = 0 then (ib, .claim env pos, none)
    else if dif < 0 then (ib, .idle, some false)
    else (ib, .load env, none)
  | .claim env pos =>
    if ib.enqueuePos = pos ∧ spurious = false then ({ ib with enqueuePos := pos + 1 }, .write env pos, none)
    else (ib, .check env ib.enqueuePos, none)
  | .write env pos => (ib.setEnv pos env, .publish env pos, none)
  | .publish _ pos => (ib.setSeq pos (pos + 1), .idle, some true)

def tryPop (spurious : Bool) : PopPc E → Inbox E × PopPc E × Option Bool
  | .idle => (ib, .idle, none)
  | .load => (ib, .check ib.dequeuePos, none)
  | .check pos =>
    let dif : Int := (ib.cell pos).seq - (pos + 1)
    if dif = 0 then (ib, .claim pos, none)
    else if dif < 0 then (ib, .idle, some false)
    else (ib, .load, none)
  | .claim pos =>
    if ib.dequeuePos = pos ∧ spurious = false then ({ ib with dequeuePos := pos + 1 }, .read pos, none)
    else (ib, .check ib.dequeuePos, none)
  | .read pos => (ib, .release pos (ib.cell pos).env, none)
  | .release pos _ => (ib.setSeq pos (pos + ib.mask + 1), .idle, some true)

end Inbox

/-- The inbox, its threads, and by position everything fully pushed and fully popped so far. -/
structure State (P C E : Type) where
  inbox : Inbox E
  producers : P → PushPc E := fun _ => .idle
  consumers : C → PopPc E := fun _ => .idle
  pushed : List (Nat × E) := []
  popped : List (Nat × E) := []

inductive Action (P C E : Type)
  | callPush (p : P) (env : E)
  | push (p : P) (spurious : Bool)
  | callPop (c : C)
  | pop (c : C) (spurious : Bool)

def PushPc.pushes : PushPc E → List (Nat × E)
  | .publish env pos => [(pos, env)]
  | _ => []

def PopPc.pops : PopPc E → List (Nat × E)
  | .release pos out => [(pos, out)]
  | _ => []

def State.new [Inhabited E] (capacity : UInt32) : State P C E := { inbox := .new capacity }

def State.push [DecidableEq P] (s : State P C E) (p : P) (spurious : Bool) : State P C E :=
  let r := s.inbox.tryPush spurious (s.producers p)
  { s with inbox := r.1, producers := update s.producers p r.2.1, pushed := s.pushed ++ (s.producers p).pushes }

def State.pop [DecidableEq C] (s : State P C E) (c : C) (spurious : Bool) : State P C E :=
  let r := s.inbox.tryPop spurious (s.consumers c)
  { s with inbox := r.1, consumers := update s.consumers c r.2.1, popped := s.popped ++ (s.consumers c).pops }

def step [DecidableEq P] [DecidableEq C] (s : State P C E) : Action P C E → Option (State P C E)
  | .callPush p env =>
    match s.producers p with
    | .idle => some { s with producers := update s.producers p (.load env) }
    | _ => none
  | .push p spurious => some (s.push p spurious)
  | .callPop c =>
    match s.consumers c with
    | .idle => some { s with consumers := update s.consumers c .load }
    | _ => none
  | .pop c spurious => some (s.pop c spurious)

def State.returned (s : State P C E) : Action P C E → Option Bool
  | .push p spurious => (s.inbox.tryPush spurious (s.producers p)).2.2
  | .pop c spurious => (s.inbox.tryPop spurious (s.consumers c)).2.2
  | .callPush _ _ | .callPop _ => none

def PushPc.hand : PushPc E → Option Nat
  | .write _ pos | .publish _ pos => some pos
  | _ => none

def PopPc.hand : PopPc E → Option Nat
  | .read pos | .release pos _ => some pos
  | _ => none

namespace State

variable (s : State P C E)

def Filled (q : Nat) : Prop := ∃ e, (q, e) ∈ s.pushed

def Emptied (q : Nat) : Prop := ∃ e, (q, e) ∈ s.popped

end State

def Inbox.stamp (ib : Inbox E) : Nat → Nat := Cell.seq ∘ ib.cells

def Inbox.envAt (ib : Inbox E) : Nat → E := Cell.env ∘ ib.cells

def PushPc.Sound (lap : Nat) (s : State P C E) : PushPc E → Prop
  | .idle | .load _ => True
  | .check _ pos => pos ≤ s.inbox.enqueuePos
  | .claim _ pos => pos ≤ s.inbox.enqueuePos ∧ Vacant lap s.Emptied pos
  | .write _ pos => Vacant lap s.Emptied pos
  | .publish env pos => Vacant lap s.Emptied pos ∧ s.inbox.envAt (pos % lap) = env

def PopPc.Sound (s : State P C E) : PopPc E → Prop
  | .idle | .load => True
  | .check pos => pos ≤ s.inbox.dequeuePos
  | .claim pos => pos ≤ s.inbox.dequeuePos ∧ s.Filled pos
  | .read pos => s.Filled pos
  | .release pos out => (pos, out) ∈ s.pushed

/-- What every step keeps in a ring of `lap` cells. -/
structure Kept (lap : Nat) (s : State P C E) : Prop where
  cap : s.inbox.cap.toNat = lap
  mask : s.inbox.mask = lap - 1
  stamps : Stamps lap s.inbox.stamp s.Filled s.Emptied
  pushedOnce : (s.pushed.map Prod.fst).Nodup
  poppedOnce : (s.popped.map Prod.fst).Nodup
  sent : s.popped ⊆ s.pushed
  claims : Claims s.inbox.enqueuePos s.Filled (PushPc.hand ∘ s.producers)
  takes : Claims s.inbox.dequeuePos s.Emptied (PopPc.hand ∘ s.consumers)
  pushing : ∀ p, (s.producers p).Sound lap s
  popping : ∀ c, (s.consumers c).Sound s
  holds : ∀ {q e}, (q, e) ∈ s.pushed → ¬ s.Emptied q → s.inbox.envAt (q % lap) = e

variable {lap pos q : Nat} {s s' : State P C E} {p : P} {c : C} {env out : E} {spurious : Bool}

theorem Kept.initial [Inhabited E] {capacity : UInt32} (hnew : (Inbox.new capacity : Inbox E).cap.toNat = lap)
    (hmask : (Inbox.new capacity : Inbox E).mask = lap - 1) : Kept lap (State.new capacity : State P C E) where
  cap := hnew
  mask := hmask
  stamps := .initial (fun _ => rfl) (fun _ ⟨_, h⟩ => not_mem_nil h) fun _ ⟨_, h⟩ => not_mem_nil h
  pushedOnce := nodup_nil
  poppedOnce := nodup_nil
  sent := List.Subset.refl _
  claims := .initial (fun _ ⟨_, h⟩ => not_mem_nil h) fun _ => rfl
  takes := .initial (fun _ ⟨_, h⟩ => not_mem_nil h) fun _ => rfl
  pushing _ := trivial
  popping _ := trivial
  holds := nofun

theorem PushPc.Sound.mono {pc : PushPc E} (h : pc.Sound lap s) (hclaimed : s.inbox.enqueuePos ≤ s'.inbox.enqueuePos)
    (hemptied : ∀ q, s.Emptied q → s'.Emptied q)
    (henv : ∀ q, pc.hand = some q → Vacant lap s.Emptied q → s'.inbox.envAt (q % lap) = s.inbox.envAt (q % lap)) :
    pc.Sound lap s' := by
  have hvacant : ∀ {q}, Vacant lap s.Emptied q → Vacant lap s'.Emptied q := fun h => h.imp_right (hemptied _)
  cases pc with
  | idle | load => trivial
  | check => exact h.trans hclaimed
  | claim => exact ⟨h.1.trans hclaimed, hvacant h.2⟩
  | write => exact hvacant h
  | publish => exact ⟨hvacant h.1, (henv _ rfl h.1).trans h.2⟩

theorem PopPc.Sound.mono {pc : PopPc E} (h : pc.Sound s) (htaken : s.inbox.dequeuePos ≤ s'.inbox.dequeuePos)
    (hpushed : s.pushed ⊆ s'.pushed) : pc.Sound s' := by
  have hfilled : ∀ {q}, s.Filled q → s'.Filled q := fun ⟨e, h⟩ => ⟨e, hpushed h⟩
  cases pc with
  | idle | load => trivial
  | check => exact h.trans htaken
  | claim => exact ⟨h.1.trans htaken, hfilled h.2⟩
  | read => exact hfilled h
  | release => exact hpushed h

theorem filled_append {e : E} : (∃ e', (q, e') ∈ s.pushed ++ [(pos, e)]) ↔ s.Filled q ∨ q = pos := by
  simp only [mem_append, mem_singleton, Prod.mk.injEq, exists_or, State.Filled, exists_and_left, exists_eq, and_true]

theorem emptied_append {e : E} : (∃ e', (q, e') ∈ s.popped ++ [(pos, e)]) ↔ s.Emptied q ∨ q = pos := by
  simp only [mem_append, mem_singleton, Prod.mk.injEq, exists_or, State.Emptied, exists_and_left, exists_eq, and_true]

section

variable {ib : Inbox E} {n : Nat}

theorem Inbox.stamp_setSeq : (ib.setSeq pos n).stamp = update ib.stamp (pos &&& ib.mask) n := Function.comp_update ..

theorem Inbox.envAt_setSeq : (ib.setSeq pos n).envAt = ib.envAt := by
  refine (Function.comp_update ..).trans ?_
  exact update_eq_self ..

theorem Inbox.stamp_setEnv : (ib.setEnv pos env).stamp = ib.stamp := by
  refine (Function.comp_update ..).trans ?_
  exact update_eq_self ..

theorem Inbox.envAt_setEnv : (ib.setEnv pos env).envAt = update ib.envAt (pos &&& ib.mask) env :=
    Function.comp_update ..

end

theorem nodup_append_single {log : List (Nat × E)} (hlog : (log.map Prod.fst).Nodup) (hnew : ¬ ∃ e, (pos, e) ∈ log) :
    ((log ++ [(pos, env)]).map Prod.fst).Nodup := by
  rw [map_append, map_cons, map_nil, ← concat_eq_append, nodup_concat]
  refine ⟨fun hmem => hnew ?_, hlog⟩
  obtain ⟨⟨q, e⟩, hq, rfl⟩ := mem_map.mp hmem
  exact ⟨e, hq⟩

section

variable (hcell : ∀ pos, pos &&& (lap - 1) = pos % lap) (h : Kept lap s)
include hcell h

theorem Kept.index : pos &&& s.inbox.mask = pos % lap := by rw [h.mask, hcell]

theorem Kept.cell_seq : (s.inbox.cell pos).seq = s.inbox.stamp (pos % lap) := congrArg s.inbox.stamp (h.index hcell)

theorem Kept.cell_env : (s.inbox.cell pos).env = s.inbox.envAt (pos % lap) := congrArg s.inbox.envAt (h.index hcell)

end

theorem Inbox.tryPush_check {ib : Inbox E} : ib.tryPush spurious (.check env pos) =
    if (ib.cell pos).seq = pos then (ib, .claim env pos, none)
    else if (ib.cell pos).seq < pos then (ib, .idle, some false) else (ib, .load env, none) := by
  have hlt : ((ib.cell pos).seq : Int) - pos < 0 ↔ (ib.cell pos).seq < pos := by omega
  simp only [Inbox.tryPush, Int.sub_eq_zero, Int.natCast_inj, hlt]

theorem Inbox.tryPop_check {ib : Inbox E} : ib.tryPop spurious (.check pos) =
    if (ib.cell pos).seq = pos + 1 then (ib, .claim pos, none)
    else if (ib.cell pos).seq < pos + 1 then (ib, .idle, some false) else (ib, .load, none) := by
  have heq : ((ib.cell pos).seq : Int) - (pos + 1) = 0 ↔ (ib.cell pos).seq = pos + 1 := by omega
  have hlt : ((ib.cell pos).seq : Int) - (pos + 1) < 0 ↔ (ib.cell pos).seq < pos + 1 := by omega
  simp only [Inbox.tryPop, heq, hlt]

section

variable [DecidableEq P]

theorem hand_update {pc : PushPc E} :
    PushPc.hand ∘ update s.producers p pc = update (PushPc.hand ∘ s.producers) p pc.hand :=
  Function.comp_update ..

theorem Kept.atProducer {pc : PushPc E} (h : Kept lap s) (hhand : pc.hand = (s.producers p).hand)
    (hsound : pc.Sound lap s) :
    Kept lap { s with producers := update s.producers p pc } :=
  { h with
    claims := h.claims.congr (fun _ => Iff.rfl) (by rw [hand_update, hhand]; exact update_eq_self ..)
    pushing := (Function.forall_update_iff s.producers fun _ pc => pc.Sound lap s).mpr
      ⟨hsound, fun x _ => h.pushing x⟩ }

theorem Kept.claimPush (h : Kept lap s) (hpc : s.producers p = .claim env pos) (hpos : s.inbox.enqueuePos = pos) :
    Kept lap { s with
      inbox := { s.inbox with enqueuePos := pos + 1 }, producers := update s.producers p (.write env pos) } :=
  { h with
    claims := by
      rw [hand_update, ← hpos]
      exact h.claims.claim (congrArg PushPc.hand hpc)
    pushing := by
      have hle : s.inbox.enqueuePos ≤ pos + 1 := hpos.trans_le (Nat.le_succ pos)
      have hsound := h.pushing p
      rw [hpc] at hsound
      refine (Function.forall_update_iff s.producers fun _ pc => pc.Sound lap _).mpr ⟨hsound.2, fun x _ => ?_⟩
      exact (h.pushing x).mono hle (fun _ => id) fun _ _ _ => rfl }

variable (hlap : 2 ≤ lap) (hcell : ∀ pos, pos &&& (lap - 1) = pos % lap)
include hlap hcell

theorem Kept.writePush (h : Kept lap s) (hpc : s.producers p = .write env pos) :
    Kept lap { s with
      inbox := s.inbox.setEnv pos env, producers := update s.producers p (.publish env pos) } := by
  have hvacant : Vacant lap s.Emptied pos := by
    have hsound := h.pushing p
    rw [hpc] at hsound
    exact hsound
  have hhand : (PushPc.hand ∘ s.producers) p = some pos := congrArg PushPc.hand hpc
  have hfree : ¬ s.Filled pos := h.claims.apart hhand
  have henv : (s.inbox.setEnv pos env).envAt = update s.inbox.envAt (pos % lap) env := by
    rw [Inbox.envAt_setEnv, h.index hcell]
  exact { h with
    stamps := h.stamps.congr Inbox.stamp_setEnv (fun _ => Iff.rfl) fun _ => Iff.rfl
    claims := h.claims.congr (fun _ => Iff.rfl) (by
      rw [hand_update, update_eq_self_iff]
      exact hhand.symm)
    pushing := by
      refine (Function.forall_update_iff s.producers fun _ pc => pc.Sound lap _).mpr ⟨⟨hvacant, ?_⟩, fun x hx => ?_⟩
      · rw [henv, update_self]
      · refine (h.pushing x).mono le_rfl (fun _ => id) fun q hq hvacantq => ?_
        -- another producer's cell is another one
        have hne : q % lap ≠ pos % lap := fun heq => by
          obtain rfl := h.stamps.vacant_inj (h.claims.apart hq) hvacantq hfree hvacant heq
          exact hx (h.claims.one hq hhand)
        rw [henv, update_of_ne hne]
    holds := fun hq hempty => by
      rw [henv, update_of_ne (h.stamps.cell_ne hlap ⟨_, hq⟩ hempty hfree hvacant)]
      exact h.holds hq hempty }

theorem Kept.publishPush (h : Kept lap s) (hpc : s.producers p = .publish env pos) :
    Kept lap { s with
      inbox := s.inbox.setSeq pos (pos + 1), producers := update s.producers p .idle
      pushed := s.pushed ++ [(pos, env)] } := by
  have hsound := h.pushing p
  rw [hpc] at hsound
  have hhand : (PushPc.hand ∘ s.producers) p = some pos := congrArg PushPc.hand hpc
  have hfree : ¬ s.Filled pos := h.claims.apart hhand
  exact { h with
    stamps := (h.stamps.fill hlap hfree hsound.1).congr (by rw [Inbox.stamp_setSeq, h.index hcell])
      (fun _ => filled_append) fun _ => Iff.rfl
    pushedOnce := nodup_append_single h.pushedOnce hfree
    sent := subset_append_of_subset_left _ h.sent
    claims := by
      rw [hand_update]
      exact (h.claims.finish hhand).congr (fun _ => filled_append) rfl
    pushing := by
      refine (Function.forall_update_iff s.producers fun _ pc => pc.Sound lap _).mpr ⟨trivial, fun x _ => ?_⟩
      exact (h.pushing x).mono le_rfl (fun _ => id) fun _ _ _ => congrFun Inbox.envAt_setSeq _
    popping := fun x => (h.popping x).mono le_rfl (subset_append_left ..)
    holds := fun hq hempty => by
      rw [Inbox.envAt_setSeq]
      obtain hq | hq := mem_append.mp hq
      · exact h.holds hq hempty
      · cases mem_singleton.mp hq
        exact hsound.2 }

theorem Kept.push (h : Kept lap s) : Kept lap (s.push p spurious) := by
  unfold State.push
  cases hpc : s.producers p with
  | idle =>
    simp only [Inbox.tryPush, PushPc.pushes, append_nil]
    exact h.atProducer (congrArg PushPc.hand hpc).symm trivial
  | load env =>
    simp only [Inbox.tryPush, PushPc.pushes, append_nil]
    exact h.atProducer (congrArg PushPc.hand hpc).symm le_rfl
  | check env pos =>
    have hle := h.pushing p
    rw [hpc] at hle
    simp only [Inbox.tryPush_check, PushPc.pushes, append_nil, h.cell_seq hcell]
    split
    · next heq => exact h.atProducer (congrArg PushPc.hand hpc).symm ⟨hle, h.stamps.vacant_of_eq hlap heq⟩
    · split <;> exact h.atProducer (congrArg PushPc.hand hpc).symm trivial
  | claim env pos =>
    simp only [Inbox.tryPush, PushPc.pushes, append_nil]
    split
    · next heq => exact h.claimPush hpc heq.1
    · exact h.atProducer (congrArg PushPc.hand hpc).symm le_rfl
  | write env pos =>
    simp only [Inbox.tryPush, PushPc.pushes, append_nil]
    exact h.writePush hlap hcell hpc
  | publish env pos => exact h.publishPush hlap hcell hpc

end

section

variable [DecidableEq C]

theorem pop_hand_update {pc : PopPc E} :
    PopPc.hand ∘ update s.consumers c pc = update (PopPc.hand ∘ s.consumers) c pc.hand :=
  Function.comp_update ..

theorem Kept.atConsumer {pc : PopPc E} (h : Kept lap s) (hhand : pc.hand = (s.consumers c).hand)
    (hsound : pc.Sound s) :
    Kept lap { s with consumers := update s.consumers c pc } :=
  { h with
    takes := h.takes.congr (fun _ => Iff.rfl) (by rw [pop_hand_update, hhand]; exact update_eq_self ..)
    popping := (Function.forall_update_iff s.consumers fun _ pc => pc.Sound s).mpr ⟨hsound, fun x _ => h.popping x⟩ }

theorem Kept.claimPop (h : Kept lap s) (hpc : s.consumers c = .claim pos) (hpos : s.inbox.dequeuePos = pos) :
    Kept lap { s with
      inbox := { s.inbox with dequeuePos := pos + 1 }, consumers := update s.consumers c (.read pos) } :=
  { h with
    takes := by
      rw [pop_hand_update, ← hpos]
      exact h.takes.claim (congrArg PopPc.hand hpc)
    popping := by
      have hle : s.inbox.dequeuePos ≤ pos + 1 := hpos.trans_le (Nat.le_succ pos)
      have hsound := h.popping c
      rw [hpc] at hsound
      refine (Function.forall_update_iff s.consumers fun _ pc => pc.Sound _).mpr ⟨hsound.2, fun x _ => ?_⟩
      exact (h.popping x).mono hle (List.Subset.refl _) }

variable (hlap : 2 ≤ lap) (hcell : ∀ pos, pos &&& (lap - 1) = pos % lap)
include hlap hcell

theorem Kept.releasePop (h : Kept lap s) (hpc : s.consumers c = .release pos out) :
    Kept lap { s with
      inbox := s.inbox.setSeq pos (pos + s.inbox.mask + 1), consumers := update s.consumers c .idle
      popped := s.popped ++ [(pos, out)] } := by
  have hsent := h.popping c
  rw [hpc] at hsent
  have hhand : (PopPc.hand ∘ s.consumers) c = some pos := congrArg PopPc.hand hpc
  have hlast : ¬ s.Emptied pos := h.takes.apart hhand
  have hnext : pos + s.inbox.mask + 1 = pos + lap := by
    rw [h.mask]
    omega
  exact { h with
    stamps := (h.stamps.empty hlap ⟨_, hsent⟩ hlast).congr (by rw [Inbox.stamp_setSeq, h.index hcell, hnext])
      (fun _ => Iff.rfl) fun _ => emptied_append
    poppedOnce := nodup_append_single h.poppedOnce hlast
    sent := append_subset.mpr ⟨h.sent, cons_subset.mpr ⟨hsent, nil_subset _⟩⟩
    takes := by
      rw [pop_hand_update]
      exact (h.takes.finish hhand).congr (fun _ => emptied_append) rfl
    pushing := fun x =>
      (h.pushing x).mono le_rfl (fun q hq => emptied_append.mpr (.inl hq)) fun _ _ _ => congrFun Inbox.envAt_setSeq _
    popping := by
      refine (Function.forall_update_iff s.consumers fun _ pc => pc.Sound _).mpr ⟨trivial, fun x _ => ?_⟩
      exact (h.popping x).mono le_rfl (List.Subset.refl _)
    holds := fun hq hempty => by
      rw [Inbox.envAt_setSeq]
      exact h.holds hq fun hbefore => hempty (emptied_append.mpr (.inl hbefore)) }

theorem Kept.pop (h : Kept lap s) : Kept lap (s.pop c spurious) := by
  unfold State.pop
  cases hpc : s.consumers c with
  | idle =>
    simp only [Inbox.tryPop, PopPc.pops, append_nil]
    exact h.atConsumer (congrArg PopPc.hand hpc).symm trivial
  | load =>
    simp only [Inbox.tryPop, PopPc.pops, append_nil]
    exact h.atConsumer (congrArg PopPc.hand hpc).symm le_rfl
  | check pos =>
    have hle := h.popping c
    rw [hpc] at hle
    simp only [Inbox.tryPop_check, PopPc.pops, append_nil, h.cell_seq hcell]
    split
    · next heq => exact h.atConsumer (congrArg PopPc.hand hpc).symm ⟨hle, (h.stamps.held_of_eq hlap heq).1⟩
    · split <;> exact h.atConsumer (congrArg PopPc.hand hpc).symm trivial
  | claim pos =>
    simp only [Inbox.tryPop, PopPc.pops, append_nil]
    split
    · next heq => exact h.claimPop hpc heq.1
    · exact h.atConsumer (congrArg PopPc.hand hpc).symm le_rfl
  | read pos =>
    have hfilled := h.popping c
    rw [hpc] at hfilled
    obtain ⟨e, he⟩ := hfilled
    have hempty : ¬ s.Emptied pos := h.takes.apart (congrArg PopPc.hand hpc)
    simp only [Inbox.tryPop, PopPc.pops, append_nil, h.cell_env hcell, h.holds he hempty]
    exact h.atConsumer (congrArg PopPc.hand hpc).symm he
  | release pos out => exact h.releasePop hlap hcell hpc

end

theorem Kept.step [DecidableEq P] [DecidableEq C] {a : Action P C E} (hlap : 2 ≤ lap)
    (hcell : ∀ pos, pos &&& (lap - 1) = pos % lap) (h : Kept lap s) (hstep : step s a = some s') : Kept lap s' := by
  cases a with
  | callPush p env =>
    simp only [BoundedInbox.step] at hstep
    split at hstep
    · next hpc =>
      cases hstep
      exact h.atProducer (congrArg PushPc.hand hpc).symm trivial
    · cases hstep
  | push p spurious =>
    cases hstep
    exact h.push hlap hcell
  | callPop c =>
    simp only [BoundedInbox.step] at hstep
    split at hstep
    · next hpc =>
      cases hstep
      exact h.atConsumer (congrArg PopPc.hand hpc).symm trivial
    · cases hstep
  | pop c spurious =>
    cases hstep
    exact h.pop hlap hcell

theorem Kept.push_refused (hcell : ∀ pos, pos &&& (lap - 1) = pos % lap) (h : Kept lap s)
    (hret : s.returned (.push p spurious) = some false) :
    ∃ pos, lap ≤ pos ∧ pos ≤ s.inbox.enqueuePos ∧ ¬ s.Emptied (pos - lap) := by
  have hsound := h.pushing p
  simp only [State.returned] at hret
  cases hpc : s.producers p with
  | idle | load | write | publish =>
    rw [hpc] at hret
    cases hret
  | claim =>
    rw [hpc, Inbox.tryPush] at hret
    split at hret <;> cases hret
  | check env pos =>
    rw [hpc] at hsound
    rw [hpc, Inbox.tryPush_check, h.cell_seq hcell] at hret
    split at hret
    · cases hret
    · split at hret
      · next hlt =>
        obtain ⟨hle, hempty⟩ := h.stamps.unemptied_of_lt hlt
        exact ⟨pos, hle, hsound, hempty⟩
      · cases hret

theorem Kept.filled_of_lt_dequeuePos (h : Kept lap s) (hlt : q < s.inbox.dequeuePos) : s.Filled q := by
  obtain hempty | ⟨c, hc⟩ := h.takes.claimed.mp hlt
  · exact h.stamps.subset hempty
  · have hsound := h.popping c
    rw [Function.comp_apply] at hc
    cases hpc : s.consumers c with
    | idle | load | check | claim =>
      rw [hpc] at hc
      cases hc
    | read pos =>
      rw [hpc] at hc hsound
      cases hc
      exact hsound
    | release pos out =>
      rw [hpc] at hc hsound
      cases hc
      exact ⟨out, hsound⟩

theorem Kept.pop_refused (hcell : ∀ pos, pos &&& (lap - 1) = pos % lap) (h : Kept lap s)
    (hret : s.returned (.pop c spurious) = some false) : ¬ s.Filled s.inbox.dequeuePos := by
  have hsound := h.popping c
  simp only [State.returned] at hret
  cases hpc : s.consumers c with
  | idle | load | read | release =>
    rw [hpc] at hret
    cases hret
  | claim =>
    rw [hpc, Inbox.tryPop] at hret
    split at hret <;> cases hret
  | check pos =>
    rw [hpc] at hsound
    rw [hpc, Inbox.tryPop_check, h.cell_seq hcell] at hret
    split at hret
    · cases hret
    · split at hret
      · next hlt =>
        have hunfilled := h.stamps.not_filled_of_le (Nat.lt_succ_iff.mp hlt)
        have heq : pos = s.inbox.dequeuePos := by
          by_contra hne
          exact hunfilled (h.filled_of_lt_dequeuePos (lt_of_le_of_ne hsound hne))
        exact heq ▸ hunfilled
      · cases hret

end Quark.BoundedInbox
