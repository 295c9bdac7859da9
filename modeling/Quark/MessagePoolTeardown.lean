import Quark.MessagePoolCells

/-! The destructor of `MessagePool` and what it leaves to threads that still flush magazines of the pool. A
partition is in memory while the pool or a flush holds a `shared_ptr` to it, and its cells are with it. -/
namespace Quark.MessagePool.Teardown

open Function List Option Machine

/-- `held` are the partitions that their pool has not dropped. -/
structure State where
  pools : MessagePool.State := {}
  held : PartitionId → Bool := fun _ => false

inductive Label
  | pool (a : MessagePool.Label)
  | drop (p : PartitionId)

def pin (th : Thread) : Option PartitionId :=
  match th.pc with
  | .splice _ _ p => some p
  | _ => none

namespace State

variable (s : State)

def alive (p : PartitionId) : Bool :=
  s.held p || (List.range s.pools.spawned).any fun t => pin (s.pools.threads t) = some p

def locks (t : Nat) : Option Bool :=
  match (s.pools.threads t).pc with
  | .token k _ => ((s.pools.threads t).magazines k).token.map s.alive
  | _ => none

end State

/-- The destructor may run once all cells are reclaimed. -/
def step (s : State) : Label → Option State
  | .pool (.create capacity numPartitions address) =>
    let n := if numPartitions = 0 then 1 else numPartitions
    (s.pools.step (.create capacity numPartitions address)).map fun pools =>
      { pools, held := fun p => s.held p || (p.serial = s.pools.registry.nextSerial && p.index < n) }
  | .pool (.destroy serial) =>
    if s.pools.user.all fun c => c.home.serial ≠ serial then
      (s.pools.step (.destroy serial)).map fun pools => { s with pools }
    else none
  | .pool (.go t flag) =>
    if (s.locks t).all fun alive => flag = alive then (s.pools.step (.go t flag)).map fun pools => { s with pools }
    else none
  | .pool a => (s.pools.step a).map fun pools => { s with pools }
  | .drop p =>
    if s.pools.registry.live p.serial = none ∧ s.held p then some { s with held := update s.held p false } else none

def homes (cells : List Cell) : List PartitionId := cells.map Cell.home

/-- The owners of the cells, mutexes and free lists that a step of a thread reads or writes. -/
def threadTouches (s : MessagePool.State) (t : Nat) (flag : Bool) : List PartitionId :=
  let th := s.threads t
  match th.pc with
  | .splice k _ p => p :: homes (th.magazines k).cells
  | .bind c => [c.target]
  | .ready (.acquire _) k => homes ((th.magazines k).cells.take 1)
  | .ready (.reclaim c) k =>
    if (th.magazines k).cells.length = kCap then c.home :: homes ((th.magazines k).cells.take kReturnBatch) else []
  | .refill p _ => p :: homes ((s.partitions p).free.take kRefillBatch)
  | .steal p _ j =>
    match s.registry.live p.serial with
    | none => []
    | some n =>
      let q : PartitionId := ⟨p.serial, (p.index + j) % n⟩
      if j < n then q :: (if flag then [] else homes ((s.partitions q).free.take kRefillBatch)) else []
  | .grow p _ => [p]
  | .idle | .exited | .lookup _ | .token _ _ | .sweep _ _ => []

def touches (s : State) : Label → List PartitionId
  | .pool (.go t flag) => threadTouches s.pools t flag
  | .pool (.reclaim _ c) => [c.home]
  | _ => []

def Safe (s : State) (a : Label) : Prop := ∀ p ∈ touches s a, s.alive p = true

/-- A flush that is about to put its magazine away has no cell that was stolen from a partition which the
destructor has dropped since and no other flush keeps. -/
def Untangled (s : State) : Label → Prop
  | .pool (.go t _) =>
    match (s.pools.threads t).pc with
    | .splice k _ p => ∀ c ∈ ((s.pools.threads t).magazines k).cells, c.home ≠ p →
        s.held c.home = true ∨ ∃ u, u < s.pools.spawned ∧ pin (s.pools.threads u) = some c.home
    | _ => True
  | _ => True

variable {s s' : State} {pools pools' : MessagePool.State} {a : Label} {p : PartitionId} {t : Nat}
  {flag : Bool} {c : Cell}
  {cells : List Cell}

theorem step_pools (hstep : step s a = some s') :
    s'.pools = s.pools ∨ ∃ b, s.pools.step b = some s'.pools := by
  cases a with
  | drop p =>
    simp only [step, ite_none_right_eq_some, some.injEq] at hstep
    obtain ⟨_, rfl⟩ := hstep
    exact .inl rfl
  | pool b =>
    refine .inr ⟨b, ?_⟩
    cases b with
    | create capacity numPartitions address =>
      obtain ⟨pools, hpools, rfl⟩ := map_eq_some_iff.mp hstep
      exact hpools
    | destroy serial | go t flag =>
      simp only [step, ite_none_right_eq_some] at hstep
      obtain ⟨pools, hpools, rfl⟩ := map_eq_some_iff.mp hstep.2
      exact hpools
    | spawn | acquire t serial | reclaim t c | flush t | exit t =>
      simp only [step] at hstep
      obtain ⟨pools, hpools, rfl⟩ := map_eq_some_iff.mp hstep
      exact hpools

theorem reachable_pools (h : Reachable step {} s) : Reachable MessagePool.State.step {} s.pools := by
  induction h with
  | start => exact .start
  | step _ _ hstep ih =>
    obtain hsame | ⟨b, hb⟩ := step_pools hstep
    · exact hsame ▸ ih
    · exact .step ih trivial hb

theorem registry_go (hstep : pools.go t flag = some pools') : pools'.registry = pools.registry := by
  unfold MessagePool.State.go at hstep
  dsimp only at hstep
  split at hstep
  · cases hstep
  · cases hstep
  · cases hstep
    rfl
  · split at hstep
    · cases hstep
      rfl
    · split at hstep <;> (cases hstep; rfl)
  · cases hstep
    rfl
  · cases hstep
    rfl
  · split at hstep <;> (cases hstep; rfl)
  · split at hstep <;> (cases hstep; rfl)
  · split at hstep <;> (cases hstep; rfl)
  · split at hstep
    · cases hstep
    · split at hstep
      · split at hstep <;> (cases hstep; rfl)
      · cases hstep
        rfl
  · cases hstep
    rfl
  · cases hstep
    rfl

theorem registry_create {capacity n : Nat} {address : Nat → UInt64} :
    (pools.create capacity n address).registry = (pools.build n address).registry := by
  have hgrow : ∀ (is : List Nat) (s : MessagePool.State),
      (is.foldl (fun s' i => s'.growOne ⟨pools.registry.nextSerial, i % n⟩) s).registry = s.registry := by
    intro is
    induction is with
    | nil => exact fun s => rfl
    | cons i is ih => exact fun s => ih _
  exact hgrow _ _

def Held (s : State) : Prop := ∀ p, s.pools.registry.Has p → s.held p = true

theorem Held.of_live (h : Held s) (hheld : s'.held = s.held)
    (hlive : ∀ serial n, s'.pools.registry.live serial = some n →
    s.pools.registry.live serial = some n) : Held s' := by
  rintro p ⟨n, hn, hindex⟩
  rw [hheld]
  exact h p ⟨n, hlive _ _ hn, hindex⟩

theorem Held.create {capacity numPartitions : Nat} {address : Nat → UInt64} (h : Held s)
    (hstep : step s (.pool (.create capacity numPartitions address)) = some s') : Held s' := by
  obtain ⟨pools, hpools, rfl⟩ := map_eq_some_iff.mp hstep
  simp only [MessagePool.State.step, ite_none_right_eq_some, some.injEq] at hpools
  obtain ⟨_, rfl⟩ := hpools
  rintro p ⟨m, hm, hindex⟩
  rw [registry_create] at hm
  rw [Bool.or_eq_true, Bool.and_eq_true, decide_eq_true_eq, decide_eq_true_eq]
  by_cases hserial : p.serial = s.pools.registry.nextSerial
  · have hn : (if numPartitions = 0 then 1 else numPartitions) = m := by
      have hbuilt : (s.pools.build (if numPartitions = 0 then 1 else numPartitions) address).registry.live
          s.pools.registry.nextSerial = some (if numPartitions = 0 then 1 else numPartitions) := update_self ..
      exact some.inj (hbuilt.symm.trans (hserial ▸ hm))
    exact .inr ⟨hserial, hn ▸ hindex⟩
  · exact .inl (h p ⟨m, (update_of_ne hserial _ _).symm.trans hm, hindex⟩)

theorem Held.step (h : Held s) (hstep : step s a = some s') : Held s' := by
  cases a with
  | drop p =>
    simp only [Teardown.step, ite_none_right_eq_some, some.injEq] at hstep
    obtain ⟨⟨hdead, _⟩, rfl⟩ := hstep
    rintro q ⟨n, hn, hindex⟩
    have hq : q ≠ p := by
      rintro rfl
      exact some_ne_none n (hn.symm.trans hdead)
    exact (update_of_ne hq _ _).trans (h q ⟨n, hn, hindex⟩)
  | pool b =>
    cases b with
    | create capacity numPartitions address => exact h.create hstep
    | destroy serial =>
      simp only [Teardown.step, ite_none_right_eq_some] at hstep
      obtain ⟨pools, hpools, rfl⟩ := map_eq_some_iff.mp hstep.2
      simp only [MessagePool.State.step, ite_none_right_eq_some, some.injEq] at hpools
      obtain ⟨_, rfl⟩ := hpools
      refine h.of_live rfl fun serial' n hlive => ?_
      by_cases hserial : serial' = serial
      · have hnone : update s.pools.registry.live serial none serial' = none := by
          rw [hserial, update_self]
        cases hnone.symm.trans hlive
      · exact (update_of_ne hserial _ _).symm.trans hlive
    | go t flag =>
      simp only [Teardown.step, ite_none_right_eq_some] at hstep
      obtain ⟨pools, hpools, rfl⟩ := map_eq_some_iff.mp hstep.2
      exact h.of_live rfl fun serial n hlive => registry_go hpools ▸ hlive
    | spawn =>
      cases hstep
      exact h
    | acquire t serial =>
      simp only [Teardown.step, MessagePool.State.step] at hstep
      split at hstep
      · cases hstep
      · split at hstep <;> cases hstep
        exact h
    | reclaim t c | flush t | exit t =>
      simp only [Teardown.step, MessagePool.State.step] at hstep
      split at hstep <;> cases hstep
      exact h

theorem alive_of_held (h : s.held p = true) : s.alive p = true := by rw [State.alive, h, Bool.true_or]

theorem alive_iff : s.alive p = true ↔ s.held p = true ∨ ∃ u, u < s.pools.spawned ∧
    pin (s.pools.threads u) = some p := by
  simp only [State.alive, Bool.or_eq_true, List.any_eq_true, List.mem_range, decide_eq_true_eq]

theorem safe_splice {k : Fin kSlots} {w : Work} (hsound : MessagePool.Sound s.pools)
    (hpc : (s.pools.threads t).pc = .splice k w p) :
    (∀ q ∈ threadTouches s.pools t flag, s.alive q = true) ↔
      ∀ c ∈ ((s.pools.threads t).magazines k).cells, c.home ≠ p → s.alive c.home = true := by
  have hpinned : s.alive p = true := by
    refine alive_iff.mpr (.inr ⟨t, ?_, by rw [pin, hpc]⟩)
    by_contra ht
    rw [hsound.unspawned t (not_lt.mp ht)] at hpc
    cases hpc
  simp only [threadTouches, hpc, List.forall_mem_cons, homes, List.forall_mem_map, hpinned, true_and]
  refine forall_congr' fun c => forall_congr' fun _ => ⟨fun h _ => h, fun h => ?_⟩
  by_cases hc : c.home = p
  · rw [hc, hpinned]
  · exact h hc

section

variable (hsound : MessagePool.Sound s.pools) (hheld : Held s)
include hsound hheld

theorem alive_home (pl : Place) {serial n : Nat} (hc : c ∈ s.pools.at_ pl) (hserial : c.home.serial = serial)
    (hlive : s.pools.registry.live serial = some n) : s.alive c.home = true := by
  subst hserial
  have hfits := (hsound.kept.known pl c hc).2.2
  exact alive_of_held (hheld c.home ⟨n, hlive, hfits n hlive⟩)

theorem alive_homes (pl : Place) {serial n : Nat} (hsub : cells ⊆ s.pools.at_ pl)
    (hserial : ∀ c ∈ cells, c.home.serial = serial)
    (hlive : s.pools.registry.live serial = some n) : ∀ p ∈ homes cells, s.alive p = true := by
  rintro p hp
  obtain ⟨c, hc, rfl⟩ := mem_map.mp hp
  exact alive_home hsound hheld pl (hsub hc) (hserial c hc) hlive

theorem alive_magazine {k : Fin kSlots} {n : Nat} (htoken : ((s.pools.threads t).magazines k).token = some p)
    (hsub : cells ⊆ ((s.pools.threads t).magazines k).cells) (hlive : s.pools.registry.live p.serial = some n) :
    ∀ q ∈ homes cells, s.alive q = true :=
  alive_homes hsound hheld (.magazine t k) hsub
    (fun c hc => (((hsound.thread t).magazine k).token p htoken).2.2 c (hsub hc)) hlive

theorem alive_free {n : Nat} (hlive : s.pools.registry.live p.serial = some n)
    (hsub : cells ⊆ (s.pools.partitions p).free) :
    ∀ q ∈ homes cells, s.alive q = true :=
  alive_homes hsound hheld (.free p) hsub (fun c hc => (hsound.homes p c (hsub hc)).1) hlive

theorem alive_target (call : Call) (hcall : (s.pools.threads t).pc.call = some call) :
    s.alive call.target = true ∧ ∃ n, s.pools.registry.live call.target.serial = some n := by
  have hhas := ((hsound.thread t).call call hcall).1
  obtain ⟨n, hlive, _⟩ := id hhas
  exact ⟨alive_of_held (hheld _ hhas), n, hlive⟩

theorem safe_thread (hpc : pin (s.pools.threads t) = none) :
    ∀ p ∈ threadTouches s.pools t flag, s.alive p = true := by
  have hstands := (hsound.thread t).stands
  unfold threadTouches
  dsimp only
  cases hat : (s.pools.threads t).pc with
  | splice k w p =>
    rw [pin, hat] at hpc
    cases hpc
  | idle | exited | lookup | token | sweep => exact nofun
  | bind c =>
    obtain ⟨halive, _⟩ := alive_target hsound hheld c (by rw [hat]; rfl)
    exact forall_mem_singleton.mpr halive
  | ready c k =>
    rw [hat] at hstands
    obtain ⟨halive, n, hlive⟩ := alive_target hsound hheld c (by rw [hat]; rfl)
    cases c with
    | acquire p => exact alive_magazine hsound hheld hstands (take_subset ..) hlive
    | reclaim c =>
      dsimp only
      split
      · exact forall_mem_cons.mpr ⟨halive, alive_magazine hsound hheld hstands (take_subset ..) hlive⟩
      · exact nofun
  | refill p k =>
    obtain ⟨halive, n, hlive⟩ := alive_target hsound hheld (.acquire p) (by rw [hat]; rfl)
    exact forall_mem_cons.mpr ⟨halive, alive_free hsound hheld hlive (take_subset ..)⟩
  | steal p k j =>
    obtain ⟨_, n, hlive⟩ := alive_target hsound hheld (.acquire p) (by rw [hat]; rfl)
    have hn : s.pools.registry.live p.serial = some n := hlive
    have hpos := (hsound.registry.known _ n hn).2
    have hsibling : s.alive ⟨p.serial, (p.index + j) % n⟩ = true :=
      alive_of_held (hheld _ ⟨n, hn, Nat.mod_lt _ hpos⟩)
    simp only [hn]
    split
    · refine forall_mem_cons.mpr ⟨hsibling, ?_⟩
      split
      · exact nofun
      · exact alive_free hsound hheld (p := ⟨p.serial, (p.index + j) % n⟩) hn (take_subset ..)
    · exact nofun
  | grow p k =>
    obtain ⟨halive, _⟩ := alive_target hsound hheld (.acquire p) (by rw [hat]; rfl)
    exact forall_mem_singleton.mpr halive

theorem safe_iff (hstep : step s a = some s') : Safe s a ↔ Untangled s a := by
  cases a with
  | drop p => exact iff_of_true nofun trivial
  | pool b =>
    cases b with
    | create | destroy | spawn | acquire | flush | exit => exact iff_of_true nofun trivial
    | reclaim t c =>
      refine iff_of_true ?_ trivial
      simp only [step, MessagePool.State.step] at hstep
      split at hstep
      · next hgo =>
        obtain ⟨n, hlive⟩ := isSome_iff_exists.mp hgo.2.2
        exact forall_mem_singleton.mpr (alive_home hsound hheld .user hgo.2.1 rfl hlive)
      · cases hstep
    | go t flag =>
      cases hat : (s.pools.threads t).pc with
      | splice k w p =>
        simp only [Safe, touches, Untangled, hat, ← alive_iff]
        exact safe_splice hsound hat
      | _ =>
        refine iff_of_true (safe_thread hsound hheld (by rw [pin, hat])) ?_
        simp only [Untangled, hat]

end

/-- In every run: no step reads or writes what belongs to a partition that is destroyed, if and only if no
flush puts away a cell that was stolen from a partition which the destructor has dropped since and no other
flush keeps. -/
theorem destroyed_untouched (labels : List Label) : Along step Safe {} labels ↔ Along step Untangled {} labels := by
  refine Along.congr .start fun s a s' hreach hstep => ?_
  have hsound := MessagePool.Sound.of_reachable (reachable_pools hreach)
  have hheld : Held s := hreach.invariant (fun _ ⟨_, hn, _⟩ => nomatch hn) fun _ _ _ hheld hstep => hheld.step hstep
  exact safe_iff hsound hheld hstep

/-- One step of the only thread; the flag is what `lock` comes to. -/
def goes (n : Nat) (flag : Bool) : List Label := List.replicate n (.pool (.go 0 flag))

/-- A pool of two partitions with two cells each. The thread of partition 0 acquires three cells, the third
out of a batch of two that it steals, and reclaims all of them; the other stolen cell stays in its magazine.
It flushes, and once it has pinned partition 0 the destructor runs. -/
def teardown : List Label :=
  [.pool (.create 4 2 fun i => 64 * i.toUInt64), .pool .spawn]
    ++ .pool (.acquire 0 1) :: goes 5 false ++ .pool (.acquire 0 1) :: goes 2 false ++
    .pool (.acquire 0 1) :: goes 5 false
    ++ .pool (.reclaim 0 ⟨0, ⟨1, 0⟩⟩) :: goes 2 false ++ .pool (.reclaim 0 ⟨2, ⟨1, 0⟩⟩) :: goes 2 false
    ++ .pool (.reclaim 0 ⟨1, ⟨1, 1⟩⟩) :: goes 3 false
    ++ .pool (.flush 0) :: goes 1 false ++ goes 1 true
    ++ [.pool (.destroy 1), .drop ⟨1, 0⟩, .drop ⟨1, 1⟩]

theorem stolen_cell_destroyed : ∃ s, run step {} teardown = some s ∧ s.pools.user = []
    ∧ (step s (.pool (.go 0 false))).isSome = true ∧ ⟨1, 1⟩ ∈ touches s (.pool (.go 0 false)) ∧
    s.alive ⟨1, 1⟩ = false := by
  obtain ⟨s, hrun, hview⟩ := map_eq_some_iff.mp (show (run step {} teardown).map (fun s =>
    (s.pools.user, (step s (.pool (.go 0 false))).isSome, touches s (.pool (.go 0 false)), s.alive ⟨1, 1⟩))
      = some ([], true, [⟨1, 0⟩, ⟨1, 0⟩, ⟨1, 0⟩, ⟨1, 1⟩], false) by decide +kernel)
  simp only [Prod.mk.injEq] at hview
  obtain ⟨huser, henabled, htouches, hdead⟩ := hview
  refine ⟨s, hrun, huser, henabled, ?_, hdead⟩
  rw [htouches]
  decide

end Quark.MessagePool.Teardown
