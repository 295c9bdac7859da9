import Quark.Lib.Custody
import Quark.Lib.Machine
import Quark.MessagePool

/-! Where the cells of the message pools are. -/
namespace Quark.MessagePool

open Function List Option State

inductive Place
  | user
  | hand (t : Nat)
  | magazine (t : Nat) (k : Fin kSlots)
  | free (p : PartitionId)
  deriving DecidableEq, Repr

namespace State

variable (s : State)

def at_ : Place → List Cell
  | .user => s.user
  | .hand t => (s.threads t).pc.hand
  | .magazine t k => ((s.threads t).magazines k).cells
  | .free p => (s.partitions p).free

def Counts (c : Cell) : Prop := (s.registry.live c.home.serial).isSome = true ∧ c ∈ (s.partitions c.home).cells

/-- From `acquire` until `reclaim` has put the cell away. -/
def InUse (c : Cell) : Prop := c ∈ s.user ∨ ∃ t, c ∈ (s.threads t).pc.hand

end State

namespace Registry

variable (r : Registry)

def Has (p : PartitionId) : Prop := ∃ n, r.live p.serial = some n ∧ p.index < n

def Fits (p : PartitionId) : Prop := ∀ n, r.live p.serial = some n → p.index < n

structure Sound : Prop where
  known : ∀ serial n, r.live serial = some n → serial < r.nextSerial ∧ 0 < n
  apart : ∀ p q, r.Has p → r.Has q → p.serial = q.serial → r.address p = r.address q → p = q

end Registry

structure LocalCache.Sound (r : Registry) (lc : LocalCache) : Prop where
  unbound : lc.bound = none → lc.token = none ∧ lc.cells = []
  bound : ∀ a, lc.bound = some a → ∃ p, lc.token = some p ∧ lc.serial = p.serial ∧ r.address p = a
  token : ∀ p, lc.token = some p → p.serial < r.nextSerial ∧ r.Fits p ∧ ∀ c ∈ lc.cells, c.home.serial = p.serial
  cap : lc.cells.length ≤ kCap

namespace Thread

variable (r : Registry) (th : Thread)

def Swept (i : Nat) : Prop := ∀ k : Fin kSlots, k.val < i → (th.magazines k).cells = []

def Works (k : Fin kSlots) : Work → Prop
  | .call c => k = slotFor (r.address c.target)
  | .sweep i _ => i = k.val + 1 ∧ th.Swept k.val

def Stands : Pc → Prop
  | .token k w => th.Works r k w
  | .splice k w p => th.Works r k w ∧ (th.magazines k).token = some p
  | .bind c => (th.magazines (slotFor (r.address c.target))).cells = []
  | .ready c k => (th.magazines k).token = some c.target
  | .refill p k | .steal p k _ | .grow p k => (th.magazines k).token = some p ∧ (th.magazines k).cells = []
  | .sweep i _ => th.Swept i
  | .exited => th.Swept kSlots
  | .idle | .lookup _ => True

structure Sound : Prop where
  magazine : ∀ k, (th.magazines k).Sound r
  call : ∀ c, th.pc.call = some c → r.Has c.target ∧ th.flushed = false
  stands : th.Stands r th.pc
  flushed : th.flushed = true → ∀ k, (th.magazines k).cells = []

end Thread

def State.Known (s : State) (c : Cell) : Prop :=
  c.number < s.made ∧ c.home.serial < s.registry.nextSerial ∧ s.registry.Fits c.home

structure Sound (s : State) : Prop where
  kept : Custody s.at_ s.Counts s.Known
  registry : s.registry.Sound
  thread : ∀ t, (s.threads t).Sound s.registry
  homes : ∀ p, ∀ c ∈ (s.partitions p).free, c.home.serial = p.serial ∧ s.registry.Fits p
  unspawned : ∀ t, s.spawned ≤ t → s.threads t = {}

theorem Registry.Has.fits {r : Registry} {p : PartitionId} (h : r.Has p) : r.Fits p := by
  obtain ⟨n, hlive, hindex⟩ := h
  intro m hm
  rw [hlive] at hm
  exact some.inj hm ▸ hindex

theorem partitionIndex_lt {n : Nat} {lane : UInt32} (hpos : 0 < n) : partitionIndex n lane < n := by
  rw [partitionIndex]
  split
  · next hmask =>
    rw [laneMask] at hmask ⊢
    split at hmask
    · next hpow =>
      rw [if_pos hpow, UInt32.toNat_and]
      have hle : (UInt32.ofNat (n - 1)).toNat ≤ n - 1 := by
        rw [UInt32.toNat_ofNat']
        exact Nat.mod_le _ _
      have hand := Nat.and_le_right (n := lane.toNat) (m := (UInt32.ofNat (n - 1)).toNat)
      omega
    · exact absurd rfl hmask
  · exact Nat.mod_lt _ hpos

section

variable {r : Registry} {th : Thread} {k : Fin kSlots} {p : PartitionId} {c : Call} {cells : List Cell} {pc : Pc}

@[simp] theorem magazines_at : (th.at_ pc).magazines = th.magazines := rfl

@[simp] theorem magazine_set {lc : LocalCache} : (th.setMagazine k lc).magazines k = lc := update_self ..

theorem magazine_set_of_ne {lc : LocalCache} {j : Fin kSlots} (hj : j ≠ k) :
    (th.setMagazine k lc).magazines j = th.magazines j := update_of_ne hj ..

@[simp] theorem magazines_remember {a : UInt64} : (th.remember a k c).magazines = th.magazines := by
  cases c <;> rfl

@[simp] theorem flushed_remember {a : UInt64} : (th.remember a k c).flushed = th.flushed := by
  cases c <;> rfl

namespace LocalCache.Sound

variable {lc : LocalCache}

theorem withCells (h : lc.Sound r) (htoken : lc.token = some p) (hhomes : ∀ c ∈ cells, c.home.serial = p.serial)
    (hcap : cells.length ≤ kCap) : LocalCache.Sound r { lc with cells } := by
  refine ⟨fun hnone => ?_, h.bound, fun q hq => ?_, hcap⟩
  · rw [(h.unbound hnone).1] at htoken
    cases htoken
  · obtain ⟨hknown, hfits, -⟩ := h.token q hq
    have heq : p = q := some.inj (htoken.symm.trans hq)
    exact ⟨hknown, hfits, heq ▸ hhomes⟩

theorem less (h : lc.Sound r) (hsub : cells.Sublist lc.cells) : LocalCache.Sound r { lc with cells } :=
  ⟨fun hnone => ⟨(h.unbound hnone).1, eq_nil_of_sublist_nil ((h.unbound hnone).2 ▸ hsub)⟩, h.bound,
    fun p hp => ⟨(h.token p hp).1, (h.token p hp).2.1, fun c hc => (h.token p hp).2.2 c (hsub.subset hc)⟩,
    hsub.length_le.trans h.cap⟩

theorem cells_of_token (h : lc.Sound r) (htoken : lc.token = none) : lc.cells = [] := by
  cases hbound : lc.bound with
  | none => exact (h.unbound hbound).2
  | some a =>
    obtain ⟨p, hp, -⟩ := h.bound a hbound
    rw [htoken] at hp
    cases hp

theorem hit (h : lc.Sound r) (hr : r.Sound) (hp : r.Has p) (hserial : lc.serial = p.serial)
    (hbound : lc.bound = some (r.address p)) : lc.token = some p := by
  obtain ⟨q, htoken, hq, haddress⟩ := h.bound _ hbound
  obtain ⟨n, hlive, hindex⟩ := hp
  have hsame : q.serial = p.serial := hq.symm.trans hserial
  have hqhas : r.Has q := ⟨n, hsame.symm ▸ hlive, (h.token q htoken).2.1 n (hsame.symm ▸ hlive)⟩
  rw [htoken, hr.apart q p hqhas ⟨n, hlive, hindex⟩ hsame haddress]

end LocalCache.Sound

namespace Thread.Sound

theorem at_ (h : th.Sound r) (hcall : pc.call = th.pc.call) (hstands : th.Stands r pc) : (th.at_ pc).Sound r :=
  ⟨h.magazine, fun c hc => h.call c (hcall.symm.trans hc), hstands, h.flushed⟩

theorem ready {a : UInt64} (h : th.Sound r) (hcall : th.pc.call = some c)
    (htoken : (th.magazines k).token = some c.target) :
    ((th.remember a k c).at_ (.ready c k)).Sound r := by
  have hmags : ((th.remember a k c).at_ (.ready c k)).magazines = th.magazines := magazines_remember
  refine ⟨fun j => by rw [hmags]; exact h.magazine j, fun c' hc' => ?_, ?_, fun hflushed => ?_⟩
  · change r.Has c'.target ∧ (th.remember a k c).flushed = false
    rw [flushed_remember]
    exact h.call c' (hcall.trans hc')
  · change (((th.remember a k c).at_ (.ready c k)).magazines k).token = some c.target
    rw [hmags, htoken]
  · rw [hmags]
    exact h.flushed (flushed_remember.symm.trans hflushed)

theorem lookup (h : th.Sound r) (hr : r.Sound) (hpc : th.pc = .lookup c) :
    (th.lookup (r.address c.target) c).Sound r := by
  have hcall : th.pc.call = some c := by
    rw [hpc]
    rfl
  have hhas := (h.call c hcall).1
  rw [Thread.lookup]
  split
  · next k hcached =>
    refine h.at_ hcall.symm ?_
    cases c with
    | reclaim c => cases hcached
    | acquire p =>
      obtain ⟨-, hmatch⟩ := filter_eq_some_iff.mp hcached
      obtain ⟨-, hbound, hserial⟩ := of_decide_eq_true hmatch
      exact (h.magazine k).hit hr hhas hserial hbound
  · dsimp only
    split
    · next hhit => exact h.ready hcall ((h.magazine _).hit hr hhas hhit.1 hhit.2)
    · split
      · exact h.at_ hcall.symm rfl
      · next hempty =>
        refine h.at_ hcall.symm ?_
        by_cases hbound : (th.magazines (slotFor (r.address c.target))).bound = none
        · exact ((h.magazine _).unbound hbound).2
        · exact Classical.not_not.mp fun hne => hempty ⟨hbound, hne⟩

theorem bind (h : th.Sound r) (hr : r.Sound) (hpc : th.pc = .bind c) : (th.bind (r.address c.target) c).Sound r := by
  have hcall : th.pc.call = some c := by
    rw [hpc]
    rfl
  obtain ⟨hhas, hbusy⟩ := h.call c hcall
  obtain ⟨n, hlive, -⟩ := hhas
  have hset : (th.setMagazine (slotFor (r.address c.target))
      { bound := some (r.address c.target), token := some c.target, serial := c.target.serial }).Sound r := by
    refine ⟨fun j => ?_, h.call, ?_, fun hflushed => ?_⟩
    · by_cases hj : j = slotFor (r.address c.target)
      · rw [hj, magazine_set]
        refine ⟨nofun, fun a ha => ⟨c.target, rfl, rfl, some.inj ha⟩, fun p hp => ?_, Nat.zero_le _⟩
        cases hp
        exact ⟨(hr.known _ n hlive).1, (h.call c hcall).1.fits, nofun⟩
      · rw [magazine_set_of_ne hj]
        exact h.magazine j
    · rw [show (th.setMagazine _ _).pc = .bind c from hpc]
      exact congrArg LocalCache.cells magazine_set
    · rw [show th.flushed = true from hflushed] at hbusy
      cases hbusy
  exact hset.ready hcall (by rw [magazine_set])

theorem set (h : th.Sound r) (hlc : ({ th.magazines k with cells } : LocalCache).Sound r)
    (hcall : ∀ c, pc.call = some c → th.pc.call = some c) (hstands : (th.setCells k cells).Stands r pc)
    (hflushed : th.flushed = true → cells = []) : ((th.setCells k cells).at_ pc).Sound r := by
  refine ⟨fun j => ?_, fun c hc => h.call c (hcall c hc), hstands, fun hon j => ?_⟩
  · by_cases hj : j = k
    · rw [hj, magazines_at, Thread.setCells, magazine_set]
      exact hlc
    · rw [magazines_at, Thread.setCells, magazine_set_of_ne hj]
      exact h.magazine j
  · by_cases hj : j = k
    · rw [hj, magazines_at, Thread.setCells, magazine_set]
      exact hflushed hon
    · rw [magazines_at, Thread.setCells, magazine_set_of_ne hj]
      exact h.flushed hon j

end Thread.Sound

end

section

variable {s s' : State} {t : Nat} {th' : Thread} {pl : Place} {k : Fin kSlots} {p : PartitionId}
  {cells free : List Cell}

theorem Pc.hand_of_call {pc pc' : Pc} (h : pc.call = pc'.call) : pc.hand = pc'.hand := by
  rw [Pc.hand, Pc.hand, h]

theorem at_eq (hthreads : s'.threads = update s.threads t th') (huser : pl = .user → s'.user = s.user)
    (hhand : pl = .hand t → th'.pc.hand = (s.threads t).pc.hand)
    (hmagazine : ∀ k, pl = .magazine t k → (th'.magazines k).cells = ((s.threads t).magazines k).cells)
    (hfree : ∀ p, pl = .free p → (s'.partitions p).free = (s.partitions p).free) : s'.at_ pl = s.at_ pl := by
  cases pl with
  | user => exact huser rfl
  | free p => exact hfree p rfl
  | hand u =>
    rw [at_, hthreads]
    by_cases hu : u = t
    · rw [hu, update_self, hhand (hu ▸ rfl)]
      rfl
    · rw [update_of_ne hu]
      rfl
  | magazine u k =>
    rw [at_, hthreads]
    by_cases hu : u = t
    · rw [hu, update_self, hmagazine k (hu ▸ rfl)]
      rfl
    · rw [update_of_ne hu]
      rfl

theorem hand_self (hthreads : s'.threads = update s.threads t th') : s'.at_ (.hand t) = th'.pc.hand := by
  rw [at_, hthreads, update_self]

theorem magazine_self (hthreads : s'.threads = update s.threads t th') :
    s'.at_ (.magazine t k) = (th'.magazines k).cells := by
  rw [at_, hthreads, update_self]

theorem partition_setFree : (s.setFree p free).partitions p = { s.partitions p with free } := update_self ..

theorem partition_setFree_of_ne {q : PartitionId} (hq : q ≠ p) : (s.setFree p free).partitions q = s.partitions q :=
  update_of_ne hq ..

theorem cells_setFree (q : PartitionId) : ((s.setFree p free).partitions q).cells = (s.partitions q).cells := by
  by_cases hq : q = p
  · rw [hq, partition_setFree]
  · rw [partition_setFree_of_ne hq]

namespace Sound

theorem of_kept (h : Sound s) (ht : t < s.spawned) (hregistry : s'.registry = s.registry)
    (hspawned : s'.spawned = s.spawned)
    (hthreads : s'.threads = update s.threads t th') (hth : th'.Sound s.registry)
    (hkept : Custody s'.at_ s'.Counts s'.Known)
    (hhomes : ∀ p, ∀ c ∈ (s'.partitions p).free, c.home.serial = p.serial ∧ s.registry.Fits p) : Sound s' where
  kept := hkept
  registry := hregistry ▸ h.registry
  thread u := by
    rw [hthreads, hregistry]
    by_cases hu : u = t
    · rw [hu, update_self]
      exact hth
    · rw [update_of_ne hu]
      exact h.thread u
  homes := hregistry ▸ hhomes
  unspawned u hu := by
    have hne : u ≠ t := by
      rintro rfl
      exact absurd (hspawned ▸ hu) (not_le.mpr ht)
    rw [hthreads, update_of_ne hne]
    exact h.unspawned u (hspawned ▸ hu)

theorem of_thread (h : Sound s) (ht : t < s.spawned) (hth : th'.Sound s.registry)
    (hcells : ∀ k, (th'.magazines k).cells = ((s.threads t).magazines k).cells)
    (hcall : th'.pc.call = (s.threads t).pc.call) : Sound (s.setThread t th') :=
  h.of_kept ht rfl rfl rfl hth
    (h.kept.congr (fun _ => at_eq rfl (fun _ => rfl) (fun _ => Pc.hand_of_call hcall)
    (fun k _ => hcells k) fun _ _ => rfl) fun _ hc => hc)
    h.homes

theorem of_free (h : Sound s) (ht : t < s.spawned) (hth : th'.Sound s.registry)
    (hperm : ((th'.magazines k).cells ++ free).Perm (((s.threads t).magazines k).cells ++ (s.partitions p).free))
    (hrest : ∀ j, j ≠ k → (th'.magazines j).cells = ((s.threads t).magazines j).cells)
    (hcall : th'.pc.hand = (s.threads t).pc.hand)
    (hhomes : ∀ c ∈ free, c.home.serial = p.serial ∧ s.registry.Fits p) :
    Sound ((s.setFree p free).setThread t th') := by
  refine h.of_kept ht rfl rfl rfl hth (h.kept.move (a := .magazine t k) (b := .free p) nofun ?_ ?_ ?_) ?_
  · change (((update s.threads t th' t).magazines k).cells ++ ((s.setFree p free).partitions p).free).Perm _
    rw [update_self, partition_setFree]
    exact hperm
  · refine fun pl hmagazine hfree => at_eq rfl (fun _ => rfl) (fun _ => hcall) (fun j hj => hrest j ?_) fun q hq => ?_
    · rintro rfl
      exact hmagazine hj
    · have hne : q ≠ p := by
        rintro rfl
        exact hfree hq
      exact congrArg Partition.free (partition_setFree_of_ne hne)
  · intro c hc
    exact ⟨hc.1, (cells_setFree c.home) ▸ hc.2⟩
  · intro q c hc
    by_cases hq : q = p
    · have hc : c ∈ ((s.setFree p free).partitions q).free := hc
      rw [hq, partition_setFree] at hc
      exact hq ▸ hhomes c hc
    · have hc : c ∈ ((s.setFree p free).partitions q).free := hc
      rw [partition_setFree_of_ne hq] at hc
      exact h.homes q c hc

variable {c : Cell} {w : Work}

theorem call_next : w.next.call = w.call? := by
  cases w <;> rfl

theorem stands_next {r : Registry} {th : Thread} {lc : LocalCache} (h : th.Works r k w) (hcells : lc.cells = []) :
    (th.setMagazine k lc).Stands r w.next := by
  cases w with
  | call c =>
    rw [show k = slotFor (r.address c.target) from h]
    exact (congrArg LocalCache.cells magazine_set).trans hcells
  | sweep i exit =>
    obtain ⟨rfl, hswept⟩ := h
    intro j hj
    by_cases hjk : j = k
    · rw [hjk, magazine_set]
      exact hcells
    · rw [magazine_set_of_ne hjk]
      exact hswept j (by have := Fin.val_ne_of_ne hjk; omega)

theorem splice (h : Sound s) (ht : t < s.spawned) (hpc : (s.threads t).pc = .splice k w p) :
    Sound (s.splice t k w p) := by
  have hth := h.thread t
  have hstands : (s.threads t).Works s.registry k w ∧ ((s.threads t).magazines k).token = some p := by
    have hstands := hth.stands
    rw [hpc] at hstands
    exact hstands
  obtain ⟨-, hfits, hhomes⟩ := (hth.magazine k).token p hstands.2
  have hcall : w.next.call = (s.threads t).pc.call := by
    rw [hpc, call_next]
    rfl
  refine h.of_free (k := k) ht ?_ ?_ (fun j hj => ?_) (Pc.hand_of_call hcall) fun c hc => ?_
  · exact hth.set ((hth.magazine k).less (nil_sublist _)) (fun c hc => hcall ▸ hc)
      (stands_next hstands.1 rfl) fun _ => rfl
  · rw [magazines_at, Thread.setCells, magazine_set]
    exact List.Perm.refl _
  · rw [magazines_at, Thread.setCells, magazine_set_of_ne hj]
  · rcases mem_append.mp hc with hin | hin
    · exact ⟨hhomes c hin, hfits⟩
    · exact h.homes p c hin

theorem take {q : PartitionId} (h : Sound s) (ht : t < s.spawned) (hcall : (s.threads t).pc.call = some (.acquire p))
    (htoken : ((s.threads t).magazines k).token = some p) (hempty : ((s.threads t).magazines k).cells = [])
    (hq : q.serial = p.serial) : Sound (s.take t k p q) := by
  have hth := h.thread t
  have hbusy := (hth.call _ hcall).2
  refine h.of_free (k := k) ht ?_ ?_ (fun j hj => ?_) (Pc.hand_of_call hcall.symm) fun c hc => ?_
  · refine hth.set ((hth.magazine k).withCells htoken (fun c hc => ?_) ?_) (fun c hc => hcall.trans hc) ?_
      fun hflushed => ?_
    · rw [mem_reverse] at hc
      rw [(h.homes q c (mem_of_mem_take hc)).1, hq]
    · rw [length_reverse, length_take]
      exact (min_le_left _ _).trans (by decide)
    · change (((s.threads t).setCells k _).magazines k).token = some p
      rw [Thread.setCells, magazine_set]
      exact htoken
    · rw [hflushed] at hbusy
      cases hbusy
  · rw [magazines_at, Thread.setCells, magazine_set, hempty]
    exact ((reverse_perm _).append_right _).trans (by rw [take_append_drop, nil_append])
  · rw [magazines_at, Thread.setCells, magazine_set_of_ne hj]
  · exact h.homes q c (mem_of_mem_drop hc)

theorem flushPartial (h : Sound s) (ht : t < s.spawned) (hpc : (s.threads t).pc = .ready (.reclaim c) k) :
    Sound (s.flushPartial t k c.home) := by
  have hth := h.thread t
  have htoken : ((s.threads t).magazines k).token = some c.home := by
    have hstands := hth.stands
    rw [hpc] at hstands
    exact hstands
  obtain ⟨-, hfits, hhomes⟩ := (hth.magazine k).token c.home htoken
  have hbusy := (hth.call (.reclaim c) (by rw [hpc]; rfl)).2
  refine h.of_free (k := k) ht ?_ ?_ (fun j hj => ?_) rfl fun x hx => ?_
  · refine hth.set ((hth.magazine k).less (drop_sublist _ _)) (fun _ hc => hc) ?_ fun hflushed => ?_
    · rw [hpc]
      change (((s.threads t).setCells k _).magazines k).token = some c.home
      rw [Thread.setCells, magazine_set]
      exact htoken
    · rw [hflushed] at hbusy
      cases hbusy
  · rw [Thread.setCells, magazine_set]
    refine (perm_append_comm_assoc _ _ _).trans ?_
    rw [← append_assoc]
    refine (((reverse_perm _).append_right _).trans ?_).append_right _
    rw [take_append_drop]
  · rw [Thread.setCells, magazine_set_of_ne hj]
  · rcases mem_append.mp hx with hin | hin
    · rw [mem_reverse] at hin
      exact ⟨hhomes x (mem_of_mem_take hin), hfits⟩
    · exact h.homes c.home x hin

theorem push (h : Sound s) (ht : t < s.spawned) (hpc : (s.threads t).pc = .ready (.reclaim c) k)
    (hroom : ((s.threads t).magazines k).cells.length ≠ kCap) : Sound (s.push t k c) := by
  have hth := h.thread t
  have hlc := hth.magazine k
  have htoken : ((s.threads t).magazines k).token = some c.home := by
    have hstands := hth.stands
    rw [hpc] at hstands
    exact hstands
  have hbusy := (hth.call (.reclaim c) (by rw [hpc]; rfl)).2
  refine h.of_kept ht rfl rfl rfl ?_ (h.kept.move (a := .hand t) (b := .magazine t k) nofun ?_ ?_ fun _ hc => hc)
    h.homes
  · refine hth.set (hlc.withCells htoken (fun x hx => ?_) ?_) nofun trivial fun hflushed => ?_
    · rcases mem_cons.mp hx with rfl | hold
      · rfl
      · exact (hlc.token _ htoken).2.2 x hold
    · exact Nat.lt_of_le_of_ne hlc.cap hroom
    · rw [hflushed] at hbusy
      cases hbusy
  · rw [hand_self rfl, magazine_self rfl, magazines_at, Thread.setCells, magazine_set, at_, at_, hpc]
    exact List.Perm.refl _
  · refine fun pl hhand hmagazine =>
      at_eq rfl (fun _ => rfl) (fun hpl => absurd hpl hhand) (fun j hj => ?_) fun _ _ => rfl
    have hne : j ≠ k := by
      rintro rfl
      exact hmagazine hj
    rw [magazines_at, Thread.setCells, magazine_set_of_ne hne]

theorem pop {rest : List Cell} (h : Sound s) (ht : t < s.spawned) (hpc : (s.threads t).pc = .ready (.acquire p) k)
    (hcells : ((s.threads t).magazines k).cells = c :: rest) : Sound (s.pop t k c rest) := by
  have hth := h.thread t
  have hbusy := (hth.call (.acquire p) (by rw [hpc]; rfl)).2
  refine h.of_kept ht rfl rfl rfl ?_ (h.kept.move (a := .magazine t k) (b := .user) nofun ?_ ?_ fun _ hc => hc)
    h.homes
  · refine hth.set ((hth.magazine k).less ?_) nofun trivial fun hflushed => ?_
    · rw [hcells]
      exact sublist_cons_self _ _
    · rw [hflushed] at hbusy
      cases hbusy
  · rw [magazine_self rfl, magazines_at, Thread.setCells, magazine_set, at_, at_, at_, hcells]
    exact perm_middle
  · refine fun pl hmagazine huser =>
      at_eq rfl (fun hpl => absurd hpl huser) (fun _ => ?_) (fun j hj => ?_) fun _ _ => rfl
    · rw [hpc]
      rfl
    · have hne : j ≠ k := by
        rintro rfl
        exact hmagazine hj
      rw [magazines_at, Thread.setCells, magazine_set_of_ne hne]

theorem startReclaim (h : Sound s) (ht : t < s.spawned) (hpc : (s.threads t).pc = .idle) (hc : c ∈ s.user)
    (hlive : (s.registry.live c.home.serial).isSome = true) : Sound (s.startReclaim t c) := by
  have hth := h.thread t
  have hfits := (h.kept.known .user c hc).2.2
  obtain ⟨n, hn⟩ := isSome_iff_exists.mp hlive
  refine h.of_kept ht rfl rfl rfl ⟨hth.magazine, fun c' hc' => ?_, trivial, nofun⟩
    (h.kept.move (a := .user) (b := .hand t) nofun ?_ ?_ fun _ hc => hc) h.homes
  · cases hc'
    exact ⟨⟨n, hn, hfits n hn⟩, rfl⟩
  · rw [hand_self rfl, at_, at_, at_, hpc]
    refine (perm_append_singleton _ _).trans ?_
    rw [show Pc.hand .idle = [] from rfl, append_nil]
    exact (perm_cons_erase hc).symm
  · exact fun pl huser hhand => at_eq rfl (fun hpl => absurd hpl huser) (fun hpl => absurd hpl hhand)
      (fun _ _ => rfl) fun _ _ => rfl

theorem forfeit (h : Sound s) (ht : t < s.spawned) (hpc : (s.threads t).pc = .token k w)
    (hdead : ∀ p, ((s.threads t).magazines k).token = some p → s.registry.live p.serial = none) :
    Sound (s.setThread t (((s.threads t).forfeit k).at_ w.next)) := by
  have hth := h.thread t
  have hworks : (s.threads t).Works s.registry k w := by
    have hstands := hth.stands
    rw [hpc] at hstands
    exact hstands
  have hcall : w.next.call = (s.threads t).pc.call := by
    rw [hpc, call_next]
    rfl
  have hcells : ∀ j, ((((s.threads t).forfeit k).at_ w.next).magazines j).cells = if j = k then [] else
      ((s.threads t).magazines j).cells := by
    intro j
    rw [magazines_at, Thread.forfeit]
    split
    · next hj => rw [hj, magazine_set]
    · next hj => rw [magazine_set_of_ne hj]
  have hplaces : ∀ pl, pl ≠ .magazine t k →
      (s.setThread t (((s.threads t).forfeit k).at_ w.next)).at_ pl = s.at_ pl := by
    intro pl hpl
    refine at_eq rfl (fun _ => rfl) (fun _ => Pc.hand_of_call hcall) (fun j hj => ?_) fun _ _ => rfl
    have hne : j ≠ k := by
      rintro rfl
      exact hpl hj
    rw [hcells, if_neg hne]
  refine h.of_kept ht rfl rfl rfl ⟨fun j => ?_, fun c hc => hth.call c (hcall ▸ hc), stands_next hworks rfl,
    fun hon j => ?_⟩
    (h.kept.sublist (fun pl => ?_) (fun c hc pl hpl => ?_) fun _ hc => hc) h.homes
  · rw [magazines_at, Thread.forfeit]
    by_cases hj : j = k
    · rw [hj, magazine_set]
      exact ⟨fun _ => ⟨rfl, rfl⟩, nofun, nofun, Nat.zero_le _⟩
    · rw [magazine_set_of_ne hj]
      exact hth.magazine j
  · rw [hcells]
    split
    · rfl
    · exact hth.flushed hon j
  · by_cases hpl : pl = .magazine t k
    · rw [hpl, magazine_self rfl, hcells, if_pos rfl]
      exact nil_sublist _
    · rw [hplaces pl hpl]
  · by_cases hpk : pl = .magazine t k
    · subst hpk
      have hlive : (s.registry.live c.home.serial).isSome = true := hc.1
      cases htoken : ((s.threads t).magazines k).token with
      | none =>
        rw [at_, (hth.magazine k).cells_of_token htoken] at hpl
        cases hpl
      | some p =>
        rw [show s.registry.live c.home.serial = none from
          ((hth.magazine k).token p htoken).2.2 c hpl ▸ hdead p htoken] at hlive
        cases hlive
    · rw [hplaces pl hpk]
      exact hpl

theorem partition_register :
    (s.register p free).partitions p = { free, cells := (s.partitions p).cells ++ [s.newCell p] } :=
  update_self ..

theorem partition_register_of_ne {q : PartitionId} (hq : q ≠ p) : (s.register p free).partitions q = s.partitions q :=
  update_of_ne hq ..

theorem counts_register (hc : (s.register p free).Counts c) : c = s.newCell p ∨ s.Counts c := by
  obtain ⟨hlive, hcells⟩ := hc
  by_cases hp : c.home = p
  · rw [hp, partition_register, mem_append, mem_singleton] at hcells
    exact hcells.symm.imp id fun hold => ⟨hlive, hp ▸ hold⟩
  · rw [partition_register_of_ne hp] at hcells
    exact .inr ⟨hlive, hcells⟩

theorem known_register (free : List Cell) (hknown : p.serial < s.registry.nextSerial) (hfits : s.registry.Fits p)
    (hc : c = s.newCell p ∨ s.Known c) : (s.register p free).Known c := by
  rcases hc with rfl | ⟨hmade, hrest⟩
  · exact ⟨Nat.lt_succ_self _, hknown, hfits⟩
  · exact ⟨Nat.lt_succ_of_lt hmade, hrest⟩

theorem growOne (h : Sound s) (hp : s.registry.Has p) : Sound (s.growOne p) where
  kept := by
    obtain ⟨n, hlive, -⟩ := id hp
    refine h.kept.add (c := s.newCell p) (a := .free p) (fun hknown => lt_irrefl _ hknown.1) ?_ (fun pl hpl => ?_)
      (fun c hc => counts_register hc) fun c hc => known_register _ (h.registry.known _ n hlive).1 hp.fits hc
    · exact congrArg Partition.free partition_register
    · cases pl with
      | user | hand _ | magazine _ _ => rfl
      | free q =>
        have hq : q ≠ p := by
          rintro rfl
          exact hpl rfl
        exact congrArg Partition.free (partition_register_of_ne hq)
  registry := h.registry
  thread := h.thread
  homes q c hc := by
    by_cases hq : q = p
    · have hc : c ∈ ((s.register p (s.newCell p :: (s.partitions p).free)).partitions q).free := hc
      rw [hq, partition_register] at hc
      subst hq
      rcases mem_cons.mp hc with rfl | hold
      · exact ⟨rfl, hp.fits⟩
      · exact h.homes q c hold
    · have hc : c ∈ ((s.register p (s.newCell p :: (s.partitions p).free)).partitions q).free := hc
      rw [partition_register_of_ne hq] at hc
      exact h.homes q c hc
  unspawned := h.unspawned

theorem grow (h : Sound s) (ht : t < s.spawned) (hpc : (s.threads t).pc = .grow p k) : Sound (s.grow t k p) := by
  have hth := h.thread t
  have hcall : (s.threads t).pc.call = some (.acquire p) := by
    rw [hpc]
    rfl
  obtain ⟨hhas, hbusy⟩ := hth.call _ hcall
  have hstands : ((s.threads t).magazines k).token = some p ∧ ((s.threads t).magazines k).cells = [] := by
    have hstands := hth.stands
    rw [hpc] at hstands
    exact hstands
  obtain ⟨hknown, hfits, -⟩ := (hth.magazine k).token p hstands.1
  refine h.of_kept ht rfl rfl rfl ?_
    (h.kept.add (c := s.newCell p) (a := .magazine t k) (fun hknown => lt_irrefl _ hknown.1) ?_ (fun pl hpl => ?_)
      (fun c hc => counts_register hc) fun c hc => known_register (s.partitions p).free hknown hfits hc)
      fun q c hc => ?_
  · refine hth.set ((hth.magazine k).withCells hstands.1 (fun c hc => ?_) (show 1 ≤ kCap by decide))
      (fun _ hc => hcall.trans hc) ?_
      fun hflushed => ?_
    · rw [mem_singleton.mp hc]
      rfl
    · change (((s.threads t).setCells k _).magazines k).token = some p
      rw [Thread.setCells, magazine_set]
      exact hstands.1
    · rw [hflushed] at hbusy
      cases hbusy
  · rw [magazine_self rfl, magazines_at, Thread.setCells, magazine_set, at_, hstands.2]
  · refine at_eq rfl (fun _ => rfl) (fun _ => Pc.hand_of_call hcall.symm) (fun j hj => ?_) fun q _ => ?_
    · have hne : j ≠ k := by
        rintro rfl
        exact hpl hj
      rw [magazines_at, Thread.setCells, magazine_set_of_ne hne]
    · by_cases hq : q = p
      · subst hq
        exact (congrArg Partition.free partition_register).trans rfl
      · exact congrArg Partition.free (partition_register_of_ne hq)
  · by_cases hq : q = p
    · have hc : c ∈ ((s.register p (s.partitions p).free).partitions q).free := hc
      rw [hq, partition_register] at hc
      exact hq ▸ h.homes p c hc
    · have hc : c ∈ ((s.register p (s.partitions p).free).partitions q).free := hc
      rw [partition_register_of_ne hq] at hc
      exact h.homes q c hc

end Sound

/-- Pools are built and destroyed; a serial is never drawn again. -/
structure Registry.Later (r r' : Registry) : Prop where
  next : r.nextSerial ≤ r'.nextSerial
  address : ∀ p, p.serial < r.nextSerial → r'.address p = r.address p
  live : ∀ serial n, serial < r.nextSerial → r'.live serial = some n → r.live serial = some n

namespace Registry.Later

variable {r r' : Registry} {lc : LocalCache} {th : Thread}

theorem fits (h : r.Later r') (hp : p.serial < r.nextSerial) (hfits : r.Fits p) : r'.Fits p :=
  fun n hn => hfits n (h.live _ n hp hn)

theorem localCache (h : r.Later r') (hlc : lc.Sound r) : lc.Sound r' := by
  refine ⟨hlc.unbound, fun a ha => ?_, fun p hp => ?_, hlc.cap⟩
  · obtain ⟨p, htoken, hserial, haddress⟩ := hlc.bound a ha
    exact ⟨p, htoken, hserial, (h.address p (hlc.token p htoken).1).trans haddress⟩
  · obtain ⟨hknown, hfits, hhomes⟩ := hlc.token p hp
    exact ⟨hknown.trans_le h.next, h.fits hknown hfits, hhomes⟩

theorem thread (h : r.Later r') (hr : r.Sound) (hth : th.Sound r)
    (hcalls : ∀ c, th.pc.call = some c → r'.Has c.target) : th.Sound r' := by
  have haddress : ∀ c, th.pc.call = some c → r'.address c.target = r.address c.target := by
    intro c hc
    obtain ⟨n, hlive, -⟩ := (hth.call c hc).1
    exact h.address _ (hr.known _ n hlive).1
  refine ⟨fun k => h.localCache (hth.magazine k), fun c hc => ⟨hcalls c hc, (hth.call c hc).2⟩, ?_, hth.flushed⟩
  have hstands := hth.stands
  have hworks : ∀ k w, w.call? = th.pc.call → th.Works r k w → th.Works r' k w := by
    intro k w hcall hw
    cases w with
    | sweep i exit => exact hw
    | call c => exact Eq.trans hw (congrArg slotFor (haddress c hcall.symm).symm)
  cases hpc : th.pc with
  | token k w =>
    rw [hpc] at hstands
    exact hworks k w (by rw [hpc]; rfl) hstands
  | splice k w p =>
    rw [hpc] at hstands
    exact ⟨hworks k w (by rw [hpc]; rfl) hstands.1, hstands.2⟩
  | bind c =>
    rw [hpc] at hstands
    rw [Thread.Stands, haddress c (by rw [hpc]; rfl)]
    exact hstands
  | idle | lookup _ => trivial
  | exited | ready _ _ | refill _ _ | steal _ _ _ | grow _ _ | sweep _ _ =>
    rw [hpc] at hstands
    exact hstands

end Registry.Later

namespace Sound

variable {serial n : Nat} {address : Nat → UInt64}

theorem build (h : Sound s) (hn : 0 < n) (hapart : ((List.range n).map address).Nodup) :
    Sound (s.build n address) := by
  have hold : ∀ serial m, serial < s.registry.nextSerial → (s.build n address).registry.live serial = some m →
      s.registry.live serial = some m := by
    intro serial m hlt hlive
    exact (update_of_ne (ne_of_lt hlt) _ _).symm.trans hlive
  have hself : (s.build n address).registry.live s.registry.nextSerial = some n := update_self ..
  have hlater : s.registry.Later (s.build n address).registry :=
    ⟨Nat.le_succ _, fun p hp => if_neg (ne_of_lt hp), hold⟩
  have hparts : ∀ p, p.serial ≠ s.registry.nextSerial → (s.build n address).partitions p = s.partitions p :=
    fun p hp => if_neg hp
  have hnone : ∀ p, p.serial = s.registry.nextSerial → (s.build n address).partitions p = {} := fun p hp => if_pos hp
  have hcounts : ∀ c, (s.build n address).Counts c → c.home.serial ≠ s.registry.nextSerial := by
    intro c hc hserial
    have hcells := hc.2
    rw [hnone c.home hserial] at hcells
    cases hcells
  have hless : ∀ c, (s.build n address).Counts c → s.Counts c := by
    intro c hc
    have hne := hcounts c hc
    exact ⟨(congrArg Option.isSome (update_of_ne hne ..)).symm.trans hc.1, hparts _ hne ▸ hc.2⟩
  have hknown : ∀ c, s.Known c → (s.build n address).Known c :=
    fun c hc => ⟨hc.1, Nat.lt_succ_of_lt hc.2.1, hlater.fits hc.2.1 hc.2.2⟩
  refine ⟨(h.kept.sublist (fun pl => ?_) (fun c hc pl hpl => ?_) hless).weaken (fun _ hc => hc) hknown,
    ⟨?_, ?_⟩, fun t => ?_, fun p c hc => ?_, h.unspawned⟩
  · cases pl with
    | user | hand _ | magazine _ _ => exact List.Sublist.refl _
    | free p =>
      by_cases hp : p.serial = s.registry.nextSerial
      · rw [at_, hnone p hp]
        exact nil_sublist _
      · rw [at_, hparts p hp]
        exact List.Sublist.refl _
  · cases pl with
    | user | hand _ | magazine _ _ => exact hpl
    | free p =>
      have hp : p.serial ≠ s.registry.nextSerial := (h.homes p c hpl).1 ▸ hcounts c hc
      rw [at_, hparts p hp]
      exact hpl
  · intro serial m hlive
    by_cases hserial : serial = s.registry.nextSerial
    · subst hserial
      have hm : n = m := some.inj (hself.symm.trans hlive)
      exact ⟨Nat.lt_succ_self _, hm ▸ hn⟩
    · obtain ⟨hlt, hpos⟩ := h.registry.known serial m ((update_of_ne hserial _ _).symm.trans hlive)
      exact ⟨Nat.lt_succ_of_lt hlt, hpos⟩
  · intro p q hp hq hsame haddress
    obtain ⟨m, hpm, hpi⟩ := hp
    obtain ⟨m', hqm, hqi⟩ := hq
    by_cases hserial : p.serial = s.registry.nextSerial
    · have hqserial := hsame.symm.trans hserial
      have hm : n = m := some.inj (hself.symm.trans (hserial ▸ hpm))
      have hm' : n = m' := some.inj (hself.symm.trans (hqserial ▸ hqm))
      rw [show (s.build n address).registry.address p = address p.index from if_pos hserial,
        show (s.build n address).registry.address q = address q.index from if_pos hqserial] at haddress
      have hindex := inj_on_of_nodup_map hapart (mem_range.mpr (hm ▸ hpi)) (mem_range.mpr (hm' ▸ hqi)) haddress
      cases p
      cases q
      exact PartitionId.mk.injEq .. ▸ ⟨hsame, hindex⟩
    · have hqserial : q.serial ≠ s.registry.nextSerial := hsame ▸ hserial
      rw [show (s.build n address).registry.address p = s.registry.address p from if_neg hserial,
        show (s.build n address).registry.address q = s.registry.address q from if_neg hqserial] at haddress
      exact h.registry.apart p q ⟨m, (update_of_ne hserial _ _).symm.trans hpm, hpi⟩
        ⟨m', (update_of_ne hqserial _ _).symm.trans hqm, hqi⟩ hsame haddress
  · refine hlater.thread h.registry (h.thread t) fun c hc => ?_
    obtain ⟨m, hlive, hindex⟩ := ((h.thread t).call c hc).1
    have hne := ne_of_lt (h.registry.known _ m hlive).1
    exact ⟨m, (update_of_ne hne _ _).trans hlive, hindex⟩
  · by_cases hp : p.serial = s.registry.nextSerial
    · rw [hnone p hp] at hc
      cases hc
    · rw [hparts p hp] at hc
      obtain ⟨hhome, hfits⟩ := h.homes p c hc
      refine ⟨hhome, fun m hm => hfits m ?_⟩
      exact (update_of_ne hp _ _).symm.trans hm

theorem create {capacity : Nat} (h : Sound s) (hn : 0 < n) (hapart : ((List.range n).map address).Nodup) :
    Sound (s.create capacity n address) := by
  have hrun : ∀ is : List Nat, ∀ s' : State, Sound s' → s'.registry.live s.registry.nextSerial = some n →
      Sound (is.foldl (fun s' i => s'.growOne ⟨s.registry.nextSerial, i % n⟩) s') := by
    intro is
    induction is with
    | nil => exact fun s' h' _ => h'
    | cons i is ih => exact fun s' h' hlive => ih _ (h'.growOne ⟨n, hlive, Nat.mod_lt i hn⟩) hlive
  exact hrun _ _ (h.build hn hapart) (update_self ..)

theorem destroy (h : Sound s) (hquiet : ∀ t, (s.threads t).pc.pool ≠ some serial) :
    Sound { s with registry := { s.registry with live := update s.registry.live serial none } } := by
  have hold : ∀ serial' n, update s.registry.live serial none serial' = some n →
      s.registry.live serial' = some n := by
    intro serial' n hlive
    by_cases hserial : serial' = serial
    · rw [hserial, update_self] at hlive
      cases hlive
    · rwa [update_of_ne hserial] at hlive
  have hlater : s.registry.Later { s.registry with live := update s.registry.live serial none } :=
    ⟨le_rfl, fun _ _ => rfl, fun serial' n _ => hold serial' n⟩
  refine ⟨(h.kept.congr (fun pl => ?_) fun c hc => ⟨?_, hc.2⟩).weaken (fun _ hc => hc)
      fun c hc => ⟨hc.1, hc.2.1, hlater.fits hc.2.1 hc.2.2⟩,
    ⟨fun serial' n hlive => h.registry.known serial' n (hold serial' n hlive), fun p q hp hq => ?_⟩, fun t => ?_,
    fun p c hc => ?_, h.unspawned⟩
  · cases pl <;> rfl
  · obtain ⟨n, hn⟩ := isSome_iff_exists.mp hc.1
    rw [hold _ n hn]
    rfl
  · obtain ⟨n, hpn, hpi⟩ := hp
    obtain ⟨m, hqm, hqi⟩ := hq
    exact h.registry.apart p q ⟨n, hold _ n hpn, hpi⟩ ⟨m, hold _ m hqm, hqi⟩
  · refine hlater.thread h.registry (h.thread t) fun c hc => ?_
    obtain ⟨n, hlive, hindex⟩ := ((h.thread t).call c hc).1
    have hne : c.target.serial ≠ serial := by
      rintro rfl
      exact hquiet t (by rw [Pc.pool, hc]; rfl)
    exact ⟨n, (update_of_ne hne _ _).trans hlive, hindex⟩
  · obtain ⟨hhome, hfits⟩ := h.homes p c hc
    exact ⟨hhome, fun n hn => hfits n (hold _ n hn)⟩

theorem startAcquire (h : Sound s) (ht : t < s.spawned) (hpc : (s.threads t).pc = .idle)
    (hlive : s.registry.live serial = some n) : Sound (s.startAcquire t serial n) := by
  have hth := h.thread t
  refine h.of_kept ht rfl rfl rfl ⟨hth.magazine, fun c hc => ?_, trivial, nofun⟩
    (h.kept.congr (fun pl => at_eq rfl (fun _ => rfl) (fun _ => ?_) (fun _ _ => rfl) fun _ _ => rfl)
    fun _ hc => hc) h.homes
  · cases hc
    exact ⟨⟨n, hlive, partitionIndex_lt (h.registry.known _ n hlive).2⟩, rfl⟩
  · rw [hpc]
    rfl

theorem swept {i : Nat} {exit : Bool} (h : Sound s) (hpc : (s.threads t).pc = .sweep i exit) :
    ((s.threads t).sweep i exit).Sound s.registry ∧ (∀ k, (((s.threads t).sweep i exit).magazines k).cells =
      ((s.threads t).magazines k).cells) ∧ ((s.threads t).sweep i exit).pc.call = none := by
  have hth := h.thread t
  have hcall : (s.threads t).pc.call = none := by
    rw [hpc]
    rfl
  have hswept : (s.threads t).Swept i := by
    have hstands := hth.stands
    rw [hpc] at hstands
    exact hstands
  rw [Thread.sweep]
  split
  · next hi =>
    dsimp only
    split
    · exact ⟨hth.at_ hcall.symm ⟨rfl, hswept⟩, fun _ => rfl, rfl⟩
    · next hempty =>
      have hcells : ((s.threads t).magazines ⟨i, hi⟩).cells = [] := by
        cases hbound : ((s.threads t).magazines ⟨i, hi⟩).bound with
        | none => exact ((hth.magazine _).unbound hbound).2
        | some a => exact Classical.not_not.mp fun hne => hempty ⟨by rw [hbound]; exact some_ne_none a, hne⟩
      refine ⟨hth.at_ hcall.symm fun k hk => ?_, fun _ => rfl, rfl⟩
      rcases Nat.lt_succ_iff_lt_or_eq.mp hk with hlt | heq
      · exact hswept k hlt
      · rw [show k = ⟨i, hi⟩ from Fin.ext heq]
        exact hcells
  · next hi =>
    have hall : ∀ k, ((s.threads t).magazines k).cells = [] := fun k => hswept k (k.isLt.trans_le (not_lt.mp hi))
    cases exit with
    | false => exact ⟨⟨hth.magazine, nofun, trivial, fun _ => hall⟩, fun _ => rfl, rfl⟩
    | true => exact ⟨⟨hth.magazine, nofun, fun k _ => hall k, fun _ => hall⟩, fun _ => rfl, rfl⟩

theorem go {flag : Bool} (h : Sound s) (hstep : s.go t flag = some s') : Sound s' := by
  have hth := h.thread t
  have hstands := hth.stands
  have ht : (s.threads t).pc ≠ .idle → t < s.spawned :=
    fun hne => Nat.lt_of_not_le fun hle => hne (congrArg Thread.pc (h.unspawned t hle))
  cases hpc : (s.threads t).pc with
  | idle | exited =>
    simp only [State.go, hpc] at hstep
    cases hstep
  | lookup c =>
    simp only [State.go, hpc] at hstep
    rw [hpc] at ht
    have hlookup := hth.lookup h.registry hpc
    cases hstep
    refine h.of_thread (ht nofun) hlookup (fun k => ?_) ?_
    · rw [Thread.lookup]
      split
      · rfl
      · dsimp only
        split
        · rw [magazines_at, magazines_remember]
        · split <;> rfl
    · rw [hpc, Thread.lookup]
      split
      · rfl
      · dsimp only
        split
        · rfl
        · split <;> rfl
  | token k w =>
    simp only [State.go, hpc] at hstep
    rw [hpc] at ht hstands
    have ht := ht nofun
    split at hstep
    · next hnone =>
      cases hstep
      exact h.forfeit ht hpc fun p hp => by rw [hnone] at hp; cases hp
    · next p hp =>
      split at hstep
      · cases hstep
        refine h.of_thread ht (hth.at_ ?_ ⟨hstands, hp⟩) (fun _ => rfl) ?_
        · rw [hpc]
          rfl
        · rw [hpc]
          rfl
      · next hdead =>
        cases hstep
        refine h.forfeit ht hpc fun q hq => ?_
        rw [hp] at hq
        cases hq
        exact not_isSome_iff_eq_none.mp fun hlive => hdead (.inl hlive)
  | splice k w p =>
    simp only [State.go, hpc] at hstep
    rw [hpc] at ht
    cases hstep
    exact h.splice (ht nofun) hpc
  | bind c =>
    simp only [State.go, hpc] at hstep
    rw [hpc] at ht hstands
    have hbind := hth.bind h.registry hpc
    cases hstep
    refine h.of_thread (ht nofun) hbind (fun k => ?_) ?_
    · rw [Thread.bind, magazines_at, magazines_remember]
      by_cases hk : k = slotFor (s.registry.address c.target)
      · rw [hk, magazine_set]
        exact hstands.symm
      · rw [magazine_set_of_ne hk]
    · rw [hpc]
      rfl
  | ready c k =>
    cases c with
    | acquire p =>
      simp only [State.go, hpc] at hstep
      rw [hpc] at ht hstands
      have ht := ht nofun
      split at hstep
      · next hempty =>
        cases hstep
        refine h.of_thread ht (hth.at_ ?_ ⟨hstands, hempty⟩) (fun _ => rfl) ?_
        · rw [hpc]
          rfl
        · rw [hpc]
          rfl
      · next c rest hcells =>
        cases hstep
        exact h.pop ht hpc hcells
    | reclaim c =>
      simp only [State.go, hpc] at hstep
      rw [hpc] at ht
      have ht := ht nofun
      split at hstep
      · cases hstep
        exact h.flushPartial ht hpc
      · next hroom =>
        cases hstep
        exact h.push ht hpc hroom
  | refill p k =>
    simp only [State.go, hpc] at hstep
    rw [hpc] at ht hstands
    have ht := ht nofun
    have hcall : (s.threads t).pc.call = some (.acquire p) := by
      rw [hpc]
      rfl
    split at hstep
    · cases hstep
      exact h.of_thread ht (hth.at_ hcall.symm hstands) (fun _ => rfl) hcall.symm
    · cases hstep
      exact h.take ht hcall hstands.1 hstands.2 rfl
  | steal p k j =>
    simp only [State.go, hpc] at hstep
    rw [hpc] at ht hstands
    have ht := ht nofun
    have hcall : (s.threads t).pc.call = some (.acquire p) := by
      rw [hpc]
      rfl
    split at hstep
    · cases hstep
    · split at hstep
      · split at hstep
        · cases hstep
          exact h.of_thread ht (hth.at_ hcall.symm hstands) (fun _ => rfl) hcall.symm
        · cases hstep
          exact h.take ht hcall hstands.1 hstands.2 rfl
      · cases hstep
        exact h.of_thread ht (hth.at_ hcall.symm hstands) (fun _ => rfl) hcall.symm
  | grow p k =>
    simp only [State.go, hpc] at hstep
    rw [hpc] at ht
    cases hstep
    exact h.grow (ht nofun) hpc
  | sweep i exit =>
    simp only [State.go, hpc] at hstep
    rw [hpc] at ht
    cases hstep
    obtain ⟨hsound, hcells, hcall⟩ := h.swept hpc
    exact h.of_thread (ht nofun) hsound hcells (by rw [hcall, hpc]; rfl)

theorem start : Sound {} := by
  have hempty : ∀ pl, ({} : State).at_ pl = [] := by
    intro pl
    cases pl <;> rfl
  have hcache : LocalCache.Sound ({} : State).registry {} :=
    ⟨fun _ => ⟨rfl, rfl⟩, nofun, nofun, Nat.zero_le _⟩
  refine ⟨⟨fun pl => ?_, fun p q c hc => ?_, fun c hc => ?_, fun p c hc => ?_⟩, ⟨nofun, fun p q hp => ?_⟩,
    fun t => ⟨fun _ => hcache, nofun, trivial, fun _ _ => rfl⟩, nofun, fun _ _ => rfl⟩
  · rw [hempty]
    exact nodup_nil
  · rw [hempty] at hc
    cases hc
  · cases hc.1
  · rw [hempty] at hc
    cases hc
  · obtain ⟨n, hlive, -⟩ := hp
    cases hlive

theorem step {a : Label} (h : Sound s) (hstep : s.step a = some s') : Sound s' := by
  have hfree : ∀ t, s.free t = true → t < s.spawned ∧ (s.threads t).pc = .idle := by
    intro t ht
    rw [free, Bool.and_eq_true, decide_eq_true_iff, decide_eq_true_iff] at ht
    exact ht
  have hsweep : ∀ t exit, s.free t = true → Sound (s.setThread t ((s.threads t).at_ (.sweep 0 exit))) := by
    intro t exit ht
    obtain ⟨hlt, hpc⟩ := hfree t ht
    refine h.of_thread hlt ((h.thread t).at_ ?_ fun k hk => absurd hk (Nat.not_lt_zero _)) (fun _ => rfl) ?_
    · rw [hpc]
      rfl
    · rw [hpc]
      rfl
  cases a with
  | create capacity numPartitions address =>
    simp only [State.step, ite_none_right_eq_some, some.injEq] at hstep
    obtain ⟨hapart, rfl⟩ := hstep
    exact h.create (by split <;> omega) hapart
  | destroy serial =>
    simp only [State.step] at hstep
    split at hstep
    · next hquiet =>
      cases hstep
      refine h.destroy fun t => ?_
      by_cases ht : t < s.spawned
      · exact of_decide_eq_true (all_eq_true.mp hquiet t (mem_range.mpr ht))
      · rw [h.unspawned t (not_lt.mp ht)]
        exact nofun
    · cases hstep
  | spawn =>
    cases hstep
    refine ⟨h.kept.congr (fun pl => ?_) fun _ hc => hc, h.registry, h.thread, h.homes,
      fun t ht => h.unspawned t (Nat.le_of_succ_le ht)⟩
    cases pl <;> rfl
  | acquire t serial =>
    simp only [State.step] at hstep
    split at hstep
    · cases hstep
    · next n hlive =>
      split at hstep
      · next ht =>
        cases hstep
        exact h.startAcquire (hfree t ht).1 (hfree t ht).2 hlive
      · cases hstep
  | reclaim t c =>
    simp only [State.step] at hstep
    split at hstep
    · next hguard =>
      cases hstep
      obtain ⟨ht, hc, hlive⟩ := hguard
      exact h.startReclaim (hfree t ht).1 (hfree t ht).2 hc hlive
    · cases hstep
  | flush t | exit t =>
    simp only [State.step] at hstep
    split at hstep
    · next ht =>
      cases hstep
      exact hsweep t _ ht
    · cases hstep
  | go t flag => exact h.go hstep

theorem of_reachable (hreach : Machine.Reachable State.step {} s) : Sound s :=
  hreach.invariant start fun _ _ _ h hstep => h.step hstep

theorem user_go {flag : Bool} (hstep : s.go t flag = some s') :
    s'.user = s.user ∨ ∃ k c rest, ((s.threads t).magazines k).cells = c :: rest ∧ s'.user = c :: s.user := by
  unfold State.go at hstep
  dsimp only at hstep
  split at hstep
  · cases hstep
  · cases hstep
  · cases hstep
    exact .inl rfl
  · split at hstep
    · cases hstep
      exact .inl rfl
    · split at hstep <;> (cases hstep; exact .inl rfl)
  · cases hstep
    exact .inl rfl
  · cases hstep
    exact .inl rfl
  · split at hstep
    · cases hstep
      exact .inl rfl
    · next k _ _ c rest hcells =>
      cases hstep
      exact .inr ⟨k, c, rest, hcells, rfl⟩
  · split at hstep <;> (cases hstep; exact .inl rfl)
  · split at hstep <;> (cases hstep; exact .inl rfl)
  · split at hstep
    · cases hstep
    · split at hstep
      · split at hstep <;> (cases hstep; exact .inl rfl)
      · cases hstep
        exact .inl rfl
  · cases hstep
    exact .inl rfl
  · cases hstep
    exact .inl rfl

end Sound

/-- In every run: a cell of a live pool is at one place, once; `acquire` hands out no cell in use; and once
every thread has flushed its magazines, or exited, the cells that are not in use are on the free lists of
their pool. -/
theorem cells_kept (hreach : Machine.Reachable State.step {} s) :
    (∀ c, s.Counts c → ∃ pl, ∀ pl', (s.at_ pl').count c = if pl' = pl then 1 else 0) ∧
    (∀ t flag s' c, s.go t flag = some s' → s'.user = c :: s.user → ¬s.InUse c) ∧
    ((∀ t, t < s.spawned → (s.threads t).flushed = true ∨ (s.threads t).pc = .exited) →
      ∀ c, s.Counts c → ¬s.InUse c → ∃ p, p.serial = c.home.serial ∧ s.registry.Has p ∧
      c ∈ (s.partitions p).free) := by
  have h := Sound.of_reachable hreach
  refine ⟨fun c hc => h.kept.count_eq hc, fun t flag s' c hstep huser huse => ?_, fun hall c hc hidle => ?_⟩
  · rcases Sound.user_go hstep with hsame | ⟨k, c', rest, hcells, hpopped⟩
    · rw [hsame] at huser
      exact absurd (congrArg List.length huser) (by rw [length_cons]; omega)
    · have hc : c' = c := (List.cons.inj (hpopped.symm.trans huser)).1
      have hin : c ∈ s.at_ (.magazine t k) := by
        rw [at_, hcells, hc]
        exact mem_cons_self
      rcases huse with hheld | ⟨u, hhand⟩
      · cases h.kept.apart (.magazine t k) .user c hin hheld
      · cases h.kept.apart (.magazine t k) (.hand u) c hin hhand
  · obtain ⟨pl, hpl⟩ := h.kept.kept c hc
    cases pl with
    | user => exact absurd (.inl hpl) hidle
    | hand t => exact absurd (.inr ⟨t, hpl⟩) hidle
    | magazine t k =>
      have hempty : ((s.threads t).magazines k).cells = [] := by
        by_cases ht : t < s.spawned
        · rcases hall t ht with hflushed | hexited
          · exact (h.thread t).flushed hflushed k
          · have hstands := (h.thread t).stands
            rw [hexited] at hstands
            exact hstands k k.isLt
        · rw [h.unspawned t (not_lt.mp ht)]
      rw [at_, hempty] at hpl
      cases hpl
    | free p =>
      obtain ⟨hhome, hfits⟩ := h.homes p c hpl
      obtain ⟨n, hn⟩ := isSome_iff_exists.mp hc.1
      rw [hhome] at hn
      exact ⟨p, hhome.symm, ⟨n, hn, hfits n hn⟩, hpl⟩

end

def acquiring : List Label :=
  [.create 1 1 fun _ => 0, .spawn, .acquire 0 1] ++ List.replicate 5 (.go 0 false)

def first : Cell := ⟨0, ⟨1, 0⟩⟩

def second : Cell := ⟨1, ⟨1, 1⟩⟩

/-- A pool of two partitions with a cell each. A thread acquires both, the second one by a steal; another thread gives
that one back and exits; the first flushes its magazines and keeps its cell. -/
def stealing : List Label :=
  [[.create 2 2 fun i => UInt64.ofNat (64 * i), .spawn, .spawn, .acquire 0 1], List.replicate 5 (.go 0 false),
    .acquire 0 1 :: List.replicate 5 (.go 0 false), .reclaim 1 second :: List.replicate 3 (.go 1 false),
    .exit 1 :: List.replicate 67 (.go 1 false), .flush 0 :: List.replicate 65 (.go 0 false)].flatten

theorem cells_kept_acquired : ∃ s : State, s.user = [first] ∧
    (∃ pl, ∀ pl', (s.at_ pl').count first = if pl' = pl then 1 else 0) ∧
    ∃ p, p.serial = 1 ∧ s.registry.Has p ∧ second ∈ (s.partitions p).free := by
  obtain ⟨s, hrun, hview⟩ := map_eq_some_iff.mp (show (Machine.run State.step {} stealing).map
    (fun s => ((s.user, (s.partitions ⟨1, 0⟩).cells, (s.partitions ⟨1, 1⟩).cells, (s.registry.live 1).isSome),
      s.spawned, (s.threads 0).flushed, (s.threads 0).pc, (s.threads 1).pc)) =
      some (([first], [first], [second], true), 2, true, .idle, .exited) by decide +kernel)
  simp only [Prod.mk.injEq] at hview
  obtain ⟨⟨huser, hcells, hcells', hlive⟩, hspawned, hflushed, hidle, hexited⟩ := hview
  obtain ⟨hone, -, hback⟩ := cells_kept (Machine.reachable_of_run hrun)
  refine ⟨s, huser, hone first ⟨hlive, hcells ▸ mem_cons_self⟩, hback (fun t ht => ?_) second ⟨hlive, ?_⟩ ?_⟩
  · rw [hspawned] at ht
    obtain rfl | rfl : t = 0 ∨ t = 1 := by omega
    · exact .inl hflushed
    · exact .inr hexited
  · exact hcells' ▸ mem_cons_self
  · rintro (hheld | ⟨t, hhand⟩)
    · rw [huser] at hheld
      exact absurd hheld (by decide)
    · by_cases ht : t < s.spawned
      · rw [hspawned] at ht
        obtain rfl | rfl : t = 0 ∨ t = 1 := by omega
        · rw [hidle] at hhand
          cases hhand
        · rw [hexited] at hhand
          cases hhand
      · rw [(Sound.of_reachable (Machine.reachable_of_run hrun)).unspawned t (not_lt.mp ht)] at hhand
        cases hhand

/-- Every thread has flushed and a cell of a live pool is on no free list: it is in use. -/
theorem flushed_cell_in_use : ∃ s, Machine.Reachable State.step {} s ∧
    (∀ t, t < s.spawned → (s.threads t).flushed = true) ∧ s.Counts first ∧ ∀ p, first ∉ (s.partitions p).free := by
  obtain ⟨s, hrun, hview⟩ := map_eq_some_iff.mp (show (Machine.run State.step {}
    (acquiring ++ [.flush 0] ++ List.replicate 65 (.go 0 false))).map
      (fun s => (s.user, (s.registry.live 1).isSome, (s.partitions ⟨1, 0⟩).cells, s.spawned, (s.threads 0).flushed)) =
        some ([first], true, [first], 1, true) by decide +kernel)
  simp only [Prod.mk.injEq] at hview
  obtain ⟨huser, hlive, hcells, hspawned, hflushed⟩ := hview
  have hreach := Machine.reachable_of_run hrun
  refine ⟨s, hreach, fun t ht => ?_, ⟨hlive, hcells ▸ mem_cons_self⟩, fun p hp => ?_⟩
  · rw [hspawned] at ht
    rw [Nat.lt_one_iff.mp ht]
    exact hflushed
  · have hheld : first ∈ s.user := huser ▸ mem_cons_self
    cases (Sound.of_reachable hreach).kept.apart (.free p) .user first hp hheld

end Quark.MessagePool
