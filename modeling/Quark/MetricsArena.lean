import Mathlib.Data.List.Perm.Basic
import Mathlib.Data.List.Range
import Mathlib.Logic.Relation
import Quark.HistogramSpec
import Quark.Persistence

/-! `InstanceMetricsArena` of `metrics_cardinality.hpp`: the slots that activations bind for metrics of their
own, with a freelist for each shard and type, and the side-table of the labels. -/
namespace Quark.MetricsArena

open List Option UInt32 Histogram

section

variable {α : Type}

def cell (rows : List (List α)) (i j : Nat) : Option α := rows[i]?.bind (·[j]?)

def modifyCell (rows : List (List α)) (i j : Nat) (f : α → α) : List (List α) := rows.modify i (·.modify j f)

end

structure TypeReservation where
  typeIndex : Nat
  capacityPerShard : Nat
  deriving DecidableEq, Repr

/-- A stack of free slots in a vector of fixed size. -/
structure Freelist where
  slots : List UInt32
  top : Nat
  deriving DecidableEq, Repr

namespace Freelist

def new (capacity : Nat) : Freelist := ⟨(List.range capacity).map UInt32.ofNat, capacity⟩

def pop (fl : Freelist) : Freelist := { fl with top := fl.top - 1 }

/-- No value: a write behind the end of the vector. -/
def push (fl : Freelist) (s : UInt32) : Option Freelist :=
  if fl.top < fl.slots.length then some ⟨fl.slots.set fl.top s, fl.top + 1⟩ else none

def free (fl : Freelist) : List UInt32 := fl.slots.take fl.top

end Freelist

def noActor : ActorId := ⟨⟨0⟩, 0⟩

structure InstanceSlotHandle where
  block : Option Nat := none
  shard : UInt32 := 0
  typeIndex : UInt32 := 0
  slot : UInt32 := 0
  valid : Bool := false
  deriving DecidableEq, Repr

structure InstanceMetricsArena where
  types : List TypeReservation
  offsets : List Nat
  blocks : List HistogramBlock
  freelists : List (List Freelist)
  labels : List (List ActorId)
  exhausted : List (List UInt64)
  totalSlots : Nat
  deriving DecidableEq

/-- `type_to_local_`: `emplace` keeps the first reservation of a type. -/
def typeToLocal (types : List TypeReservation) (typeIndex : Nat) : Option Nat :=
  types.findIdx? fun t => t.typeIndex = typeIndex

namespace InstanceMetricsArena

def layout (shardCount : Nat) (types : List TypeReservation) : List Nat × Nat :=
  types.foldl (fun acc t => (acc.1 ++ [acc.2], acc.2 + t.capacityPerShard * shardCount)) ([], 0)

def new (spec : HistogramSpec) (shardCount : Nat) (types : List TypeReservation) : InstanceMetricsArena where
  types := types
  offsets := (layout shardCount types).1
  totalSlots := (layout shardCount types).2
  blocks := List.replicate (max 1 (layout shardCount types).2) (HistogramBlock.new spec)
  freelists := types.map fun t => List.replicate shardCount (Freelist.new t.capacityPerShard)
  labels := types.map fun t => List.replicate (shardCount * t.capacityPerShard) noActor
  exhausted := types.map fun _ => List.replicate shardCount 0

def bindActivation (spec : HistogramSpec) (a : InstanceMetricsArena) (shard typeIndex : Nat) (id : ActorId) :
    Option (InstanceSlotHandle × InstanceMetricsArena) :=
  match typeToLocal a.types typeIndex with
  | none => some ({}, a)
  | some ti =>
    (cell a.freelists ti shard).bind fun fl =>
      if fl.top = 0 then some ({}, { a with exhausted := modifyCell a.exhausted ti shard (· + 1) })
      else
        fl.slots[fl.top - 1]?.bind fun slot =>
          a.types[ti]?.bind fun t =>
            a.offsets[ti]?.map fun offset =>
              let place := shard * t.capacityPerShard + slot.toNat
              ({ block := some (offset + place)
                 shard := UInt32.ofNat shard
                 typeIndex := UInt32.ofNat typeIndex
                 slot := slot
                 valid := true },
               { a with
                 freelists := modifyCell a.freelists ti shard Freelist.pop
                 blocks := a.blocks.modify (offset + place) fun _ => HistogramBlock.new spec
                 labels := modifyCell a.labels ti place fun _ => id })

def unbindActivation (spec : HistogramSpec) (a : InstanceMetricsArena) (h : InstanceSlotHandle) :
    Option InstanceMetricsArena :=
  if !h.valid then some a
  else
    match typeToLocal a.types h.typeIndex.toNat with
    | none => some a
    | some ti =>
      a.types[ti]?.bind fun t =>
        (cell a.freelists ti h.shard.toNat).bind fun fl =>
          (fl.push h.slot).map fun fl' =>
            { a with
              blocks := h.block.elim a.blocks fun b => a.blocks.modify b fun _ => HistogramBlock.new spec
              labels := modifyCell a.labels ti (h.shard.toNat * t.capacityPerShard + h.slot.toNat) fun _ => noActor
              freelists := modifyCell a.freelists ti h.shard.toNat fun _ => fl' }

def label (a : InstanceMetricsArena) (typeIndex shard : Nat) (slot : UInt32) : Option ActorId :=
  match typeToLocal a.types typeIndex with
  | none => some noActor
  | some ti => a.types[ti]?.bind fun t => cell a.labels ti (shard * t.capacityPerShard + slot.toNat)

def capacityOf (types : List TypeReservation) (typeIndex : Nat) : Nat :=
  match typeToLocal types typeIndex with
  | none => 0
  | some ti => (types[ti]?.map TypeReservation.capacityPerShard).getD 0

def freelist (a : InstanceMetricsArena) (typeIndex shard : Nat) : Option Freelist :=
  (typeToLocal a.types typeIndex).bind fun ti => cell a.freelists ti shard

end InstanceMetricsArena

/-- One `bind_activation`: its arguments, what it returned, and whether `unbind_activation` was called for it. -/
structure Activation where
  shard : Nat
  typeIndex : Nat
  id : ActorId
  handle : InstanceSlotHandle
  unbound : Bool := false
  deriving DecidableEq

def Activation.holds (b : Activation) : Bool := b.handle.valid && !b.unbound

structure Run where
  arena : InstanceMetricsArena
  bound : List Activation := []
  deriving DecidableEq

inductive Call
  | bind (shard typeIndex : Nat) (id : ActorId)
  /-- With the handle of the `n`-th binding, or a copy of it, for the first time or again. -/
  | unbind (n : Nat)
  deriving DecidableEq

namespace Run

variable (spec : HistogramSpec)

def step (r : Run) : Call → Option Run
  | .bind shard typeIndex id =>
    (r.arena.bindActivation spec shard typeIndex id).map fun p =>
      ⟨p.2, r.bound ++ [⟨shard, typeIndex, id, p.1, false⟩]⟩
  | .unbind n =>
    r.bound[n]?.bind fun b =>
      (r.arena.unbindActivation spec b.handle).map fun a => ⟨a, r.bound.modify n fun b => { b with unbound := true }⟩

def start (shardCount : Nat) (types : List TypeReservation) : Run := ⟨.new spec shardCount types, []⟩

def run (r : Run) (calls : List Call) : Option Run := calls.foldlM (step spec) r

/-- What is to hold of the slots at every moment. -/
structure Sound (spec : HistogramSpec) (shardCount : Nat) (types : List TypeReservation) (r : Run) : Prop where
  exclusive : r.bound.Pairwise fun b b' => b.holds = true → b'.holds = true → b.shard = b'.shard →
    b.typeIndex = b'.typeIndex → b.handle.slot ≠ b'.handle.slot
  label : ∀ b ∈ r.bound, b.holds = true → r.arena.label b.typeIndex b.shard b.handle.slot = some b.id
  freelist : ∀ typeIndex shard fl, r.arena.freelist typeIndex shard = some fl →
    fl.free.length ≤ InstanceMetricsArena.capacityOf types typeIndex ∧ fl.free.Nodup
  fails : ∀ typeIndex, (typeToLocal types typeIndex).isSome → ∀ shard id h a,
    r.arena.bindActivation spec shard typeIndex id = some (h, a) → h.valid = false →
    ∀ slot < InstanceMetricsArena.capacityOf types typeIndex, ∃ b ∈ r.bound, b.holds = true ∧ b.shard = shard ∧
      b.typeIndex = typeIndex ∧ b.handle.slot.toNat = slot

def Proper (r : Run) : Call → Prop
  | .bind .. => True
  | .unbind n => ∀ b ∈ r.bound[n]?, b.handle.valid = true → b.unbound = false ∧ b.shard < 2 ^ 32 ∧
      b.typeIndex < 2 ^ 32

def Defined (shardCount : Nat) (r : Run) : Call → Prop
  | .bind shard .. => shard < shardCount
  | .unbind n => n < r.bound.length

inductive Reached (shardCount : Nat) (types : List TypeReservation) : Run → Prop
  | start : Reached shardCount types (start spec shardCount types)
  | step {r r' : Run} {c : Call} (h : Reached shardCount types r) (hproper : r.Proper c)
      (hstep : r.step spec c = some r') :
      Reached shardCount types r'

end Run

def Activation.slotAt (typeIndex shard : Nat) (b : Activation) : Option Nat :=
  if b.holds = true ∧ b.typeIndex = typeIndex ∧ b.shard = shard then some b.handle.slot.toNat else none

section

variable {α β : Type} {rows : List (List α)} {i j i' j' n : Nat} {f : α → α} {l : List α} {a : α}

theorem cell_modifyCell : cell (modifyCell rows i j f) i' j' =
    if i = i' ∧ j = j' then (cell rows i j).map f else cell rows i' j' := by
  rw [cell, cell, cell, modifyCell, getElem?_modify]
  by_cases hi : i = i'
  · subst hi
    cases hrow : rows[i]? with
    | none => exact (ite_self _).symm
    | some row =>
      change (if i = i then row.modify j f else row)[j']? = if i = i ∧ j = j' then row[j]?.map f else row[j']?
      rw [if_pos rfl, getElem?_modify]
      by_cases hj : j = j'
      · subst hj
        rw [if_pos ⟨rfl, rfl⟩]
        exact map_congr fun x _ => if_pos rfl
      · rw [if_neg fun h => hj h.2]
        exact (map_congr fun x _ => if_neg hj).trans map_id'
  · rw [if_neg fun h => hi h.1]
    cases rows[i']? with
    | none => rfl
    | some row => exact congrArg (·[j']?) (if_neg hi)

theorem cell_modifyCell_ne (h : i = i' → j ≠ j') : cell (modifyCell rows i j f) i' j' = cell rows i' j' := by
  rw [cell_modifyCell, if_neg fun heq => h heq.1 heq.2]

theorem isSome_modifyCell : (cell (modifyCell rows i j f) i' j').isSome = (cell rows i' j').isSome := by
  rw [cell_modifyCell]
  split
  · next heq =>
    obtain ⟨rfl, rfl⟩ := heq
    exact isSome_map
  · rfl

theorem filterMap_modify {p : α → Option β} (h : l[n]? = some a) (hsame : p (f a) = p a) :
    (l.modify n f).filterMap p = l.filterMap p := by
  induction l generalizing n with
  | nil => cases h
  | cons x l ih =>
    cases n with
    | zero =>
      cases h
      rw [modify_zero_cons, filterMap_cons, filterMap_cons, hsame]
    | succ n =>
      rw [modify_succ_cons, filterMap_cons, filterMap_cons, ih h]

theorem filterMap_modify_perm {p : α → Option β} {y : β} (h : l[n]? = some a) (hbefore : p a = some y)
    (hafter : p (f a) = none) : (y :: (l.modify n f).filterMap p).Perm (l.filterMap p) := by
  induction l generalizing n with
  | nil => cases h
  | cons x l ih =>
    cases n with
    | zero =>
      cases h
      rw [modify_zero_cons, filterMap_cons_none hafter, filterMap_cons_some hbefore]
    | succ n =>
      rw [modify_succ_cons]
      cases hx : p x with
      | none =>
        rw [filterMap_cons_none hx, filterMap_cons_none hx]
        exact ih h
      | some z =>
        rw [filterMap_cons_some hx, filterMap_cons_some hx]
        exact (List.Perm.swap z y _).trans ((ih h).cons z)

theorem mem_modify {x : α} (hx : x ∈ l.modify n f) : x ∈ l ∨ ∃ a, l[n]? = some a ∧ x = f a := by
  obtain ⟨m, hm⟩ := mem_iff_getElem?.mp hx
  rw [getElem?_modify] at hm
  obtain ⟨a, ha, rfl⟩ := map_eq_some_iff.mp hm
  split
  · next heq => exact .inr ⟨a, heq ▸ ha, rfl⟩
  · exact .inl (mem_of_getElem? ha)

theorem cell_map_replicate {β : Type} {rows : List β} {width : β → Nat} {g : β → α} :
    cell (rows.map fun t => List.replicate (width t) (g t)) i j =
      rows[i]?.bind fun t => if j < width t then some (g t) else none := by
  rw [cell, getElem?_map]
  cases rows[i]? with
  | none => rfl
  | some t => exact getElem?_replicate

theorem place_inj {cap shard shard' slot slot' : Nat} (hslot : slot < cap) (hslot' : slot' < cap)
    (h : shard * cap + slot = shard' * cap + slot') : shard = shard' ∧ slot = slot' := by
  have hdiv := congrArg (· / cap) h
  have hmod := congrArg (· % cap) h
  have hpos : 0 < cap := Nat.zero_lt_of_lt hslot
  simp only [mul_comm _ cap, Nat.mul_add_div hpos, Nat.mul_add_mod, Nat.div_eq_of_lt hslot, Nat.div_eq_of_lt hslot',
    Nat.mod_eq_of_lt hslot, Nat.mod_eq_of_lt hslot', add_zero] at hdiv hmod
  exact ⟨hdiv, hmod⟩

theorem place_lt {cap shard shardCount slot : Nat} (hshard : shard < shardCount) (hslot : slot < cap) :
    shard * cap + slot < shardCount * cap := by
  calc shard * cap + slot < shard * cap + cap := Nat.add_lt_add_left hslot _
    _ = (shard + 1) * cap := (Nat.succ_mul ..).symm
    _ ≤ shardCount * cap := Nat.mul_le_mul_right cap hshard

end

section

variable {spec : HistogramSpec} {shardCount shard typeIndex ti n : Nat} {types : List TypeReservation}
  {t : TypeReservation}
  {fl : Freelist} {slot : UInt32} {a : InstanceMetricsArena} {r r' : Run} {b : Activation} {id : ActorId} {c : Call}

namespace Freelist

theorem free_length (h : fl.top ≤ fl.slots.length) : fl.free.length = fl.top := by
  rw [free, length_take, Nat.min_eq_left h]

theorem free_pop (hslot : fl.slots[fl.top - 1]? = some slot) (htop : fl.top ≠ 0) :
    fl.free = fl.pop.free ++ [slot] := by
  obtain ⟨slots, top⟩ := fl
  cases top with
  | zero => exact absurd rfl htop
  | succ top =>
    change slots[top]? = some slot at hslot
    change slots.take (top + 1) = slots.take top ++ [slot]
    rw [take_add_one, hslot]
    rfl

theorem push_free {fl' : Freelist} (h : fl.push slot = some fl') :
    fl'.free = fl.free ++ [slot] ∧ fl'.slots.length = fl.slots.length ∧ fl'.top ≤ fl.slots.length := by
  unfold push at h
  split at h
  · next hlt =>
    cases h
    refine ⟨?_, length_set .., hlt⟩
    rw [free, free, take_add_one, take_set_of_le le_rfl, getElem?_set_self hlt]
    rfl
  · cases h

theorem free_new (hcap : t.capacityPerShard ≤ 2 ^ 32) :
    (new t.capacityPerShard).free.map UInt32.toNat = List.range t.capacityPerShard := by
  rw [free, new, List.take_of_length_le (by simp), List.map_map]
  refine (List.map_congr_left fun s hs => ?_).trans (List.map_id _)
  exact toNat_ofNat_of_lt' ((List.mem_range.mp hs).trans_le hcap)

end Freelist

theorem layout_length : (InstanceMetricsArena.layout shardCount types).1.length = types.length := by
  have hfold : ∀ acc : List Nat × Nat, (types.foldl (fun acc t =>
      (acc.1 ++ [acc.2], acc.2 + t.capacityPerShard * shardCount)) acc).1.length = acc.1.length + types.length := by
    induction types with
    | nil => exact fun _ => rfl
    | cons t types ih =>
      intro acc
      rw [foldl_cons, ih, length_append, length_singleton, length_cons, add_assoc, add_comm 1]
  exact (hfold ([], 0)).trans (zero_add _)

theorem typeToLocal_spec (h : typeToLocal types typeIndex = some ti) : ∃ t, types[ti]? = some t ∧
    t.typeIndex = typeIndex := by
  obtain ⟨hlt, hat, -⟩ := findIdx?_eq_some_iff_getElem.mp h
  exact ⟨types[ti], getElem?_eq_getElem hlt, of_decide_eq_true hat⟩

theorem typeToLocal_inj {typeIndex' : Nat} (h : typeToLocal types typeIndex = some ti)
    (h' : typeToLocal types typeIndex' = some ti) : typeIndex = typeIndex' := by
  obtain ⟨t, ht, rfl⟩ := typeToLocal_spec h
  obtain ⟨t', ht', rfl⟩ := typeToLocal_spec h'
  rw [some.inj (ht.symm.trans ht')]

theorem capacityOf_eq (h : typeToLocal types typeIndex = some ti) (ht : types[ti]? = some t) :
    InstanceMetricsArena.capacityOf types typeIndex = t.capacityPerShard := by
  rw [InstanceMetricsArena.capacityOf, h]
  simp only [ht, map_some, getD_some]

theorem label_eq (h : typeToLocal a.types typeIndex = some ti) (ht : a.types[ti]? = some t) :
    a.label typeIndex shard slot = cell a.labels ti (shard * t.capacityPerShard + slot.toNat) := by
  rw [InstanceMetricsArena.label, h]
  simp only [ht, bind_some]

/-- What holds after every run of proper calls. -/
structure Inv (shardCount : Nat) (types : List TypeReservation) (r : Run) : Prop where
  reserved : r.arena.types = types
  offsets : r.arena.offsets.length = types.length
  handle : ∀ b ∈ r.bound, b.handle.valid = true → b.handle.shard = UInt32.ofNat b.shard ∧
    b.handle.typeIndex = UInt32.ofNat b.typeIndex ∧ b.shard < shardCount ∧ (typeToLocal types b.typeIndex).isSome
  rows : ∀ ti shard, (cell r.arena.freelists ti shard).isSome → shard < shardCount
  slots : ∀ typeIndex ti t, typeToLocal types typeIndex = some ti → types[ti]? = some t → ∀ shard < shardCount,
    ∃ fl, cell r.arena.freelists ti shard = some fl ∧ fl.slots.length = t.capacityPerShard ∧
    fl.top ≤ fl.slots.length ∧
      (fl.free.map UInt32.toNat ++ r.bound.filterMap (Activation.slotAt typeIndex shard)).Perm
      (List.range t.capacityPerShard)
  places : ∀ ti t, types[ti]? = some t →
    ∀ place < shardCount * t.capacityPerShard, (cell r.arena.labels ti place).isSome
  label : ∀ b ∈ r.bound, b.holds = true → r.arena.label b.typeIndex b.shard b.handle.slot = some b.id

theorem slotAt_holds (h : b.holds = true) : b.slotAt b.typeIndex b.shard = some b.handle.slot.toNat :=
  if_pos ⟨h, rfl, rfl⟩

theorem slotAt_eq_some {s : Nat} (h : b.slotAt typeIndex shard = some s) :
    b.holds = true ∧ b.typeIndex = typeIndex ∧ b.shard = shard ∧ b.handle.slot.toNat = s := by
  unfold Activation.slotAt at h
  split at h
  · next hat => exact ⟨hat.1, hat.2.1, hat.2.2, some.inj h⟩
  · cases h

theorem slotAt_else (h : ¬(b.typeIndex = typeIndex ∧ b.shard = shard)) : b.slotAt typeIndex shard = none :=
  if_neg fun hat => h hat.2

theorem holds_valid (h : b.holds = true) : b.handle.valid = true := (Bool.and_eq_true_iff.mp h).1

namespace Inv

theorem sound (h : Inv shardCount types r) : r.Sound spec shardCount types where
  exclusive := by
    refine pairwise_iff_forall_sublist.mpr fun {b b'} hsub hb hb' hshard htype hslot => ?_
    have hmem : b ∈ r.bound := hsub.subset mem_cons_self
    obtain ⟨-, -, hlt, hlocal⟩ := h.handle b hmem (holds_valid hb)
    obtain ⟨ti, hti⟩ := isSome_iff_exists.mp hlocal
    obtain ⟨t, ht, -⟩ := typeToLocal_spec hti
    obtain ⟨fl, -, -, -, hperm⟩ := h.slots _ ti t hti ht b.shard hlt
    have hnodup := (hperm.nodup_iff.mpr nodup_range).of_append_right
    have hpair := (hsub.filterMap (Activation.slotAt b.typeIndex b.shard)).nodup hnodup
    rw [filterMap_cons_some (slotAt_holds hb), hshard, htype, filterMap_cons_some (slotAt_holds hb'), hslot] at hpair
    exact absurd mem_cons_self (nodup_cons.mp hpair).1
  label := h.label
  freelist := by
    intro typeIndex shard fl hfl
    obtain ⟨ti, hti, hcell⟩ := bind_eq_some_iff.mp hfl
    rw [h.reserved] at hti
    obtain ⟨t, ht, -⟩ := typeToLocal_spec hti
    obtain ⟨fl', hcell', hlength, htop, hperm⟩ := h.slots _ ti t hti ht shard (h.rows ti shard (by rw [hcell]; rfl))
    obtain rfl : fl = fl' := some.inj (hcell.symm.trans hcell')
    refine ⟨?_, ((hperm.nodup_iff.mpr nodup_range).of_append_left).of_map _⟩
    rw [capacityOf_eq hti ht, Freelist.free_length htop, ← hlength]
    exact htop
  fails := by
    intro typeIndex hlocal shard id hd a hbind hinvalid slot hslot
    obtain ⟨ti, hti⟩ := isSome_iff_exists.mp hlocal
    obtain ⟨t, ht, -⟩ := typeToLocal_spec hti
    rw [capacityOf_eq hti ht] at hslot
    rw [InstanceMetricsArena.bindActivation, h.reserved, hti] at hbind
    obtain ⟨fl, hcell, hbind⟩ := bind_eq_some_iff.mp hbind
    obtain ⟨fl', hcell', hlength, htop, hperm⟩ := h.slots _ ti t hti ht shard (h.rows ti shard (by rw [hcell]; rfl))
    obtain rfl : fl = fl' := some.inj (hcell.symm.trans hcell')
    split at hbind
    · next hempty =>
      have hall := hperm.symm.subset (mem_range.mpr hslot)
      rw [Freelist.free, hempty, take_zero, map_nil, nil_append] at hall
      obtain ⟨b, hb, hat⟩ := mem_filterMap.mp hall
      obtain ⟨hholds, htype, hshard, hslot⟩ := slotAt_eq_some hat
      exact ⟨b, hb, hholds, hshard, htype, hslot⟩
    · obtain ⟨s, -, hbind⟩ := bind_eq_some_iff.mp hbind
      obtain ⟨t', -, hbind⟩ := bind_eq_some_iff.mp hbind
      obtain ⟨offset, -, hbind⟩ := map_eq_some_iff.mp hbind
      cases hbind
      cases hinvalid

theorem start (hcap : ∀ t ∈ types, t.capacityPerShard ≤ 2 ^ 32) : Inv shardCount types
    (.start spec shardCount types) where
  reserved := rfl
  offsets := layout_length
  handle := nofun
  rows ti shard hsome := by
    change (cell (types.map _) ti shard).isSome = true at hsome
    rw [cell_map_replicate] at hsome
    obtain ⟨fl, hfl⟩ := isSome_iff_exists.mp hsome
    obtain ⟨t, -, hlt⟩ := bind_eq_some_iff.mp hfl
    by_contra hge
    rw [if_neg hge] at hlt
    cases hlt
  slots typeIndex ti t _ ht shard hshard := by
    refine ⟨.new t.capacityPerShard, ?_, by simp [Freelist.new], by simp [Freelist.new], ?_⟩
    · change cell (types.map _) ti shard = _
      rw [cell_map_replicate, ht]
      exact if_pos hshard
    · rw [Freelist.free_new (hcap t (mem_of_getElem? ht)), Run.start, filterMap_nil, append_nil]
  places ti t ht place hplace := by
    change (cell (types.map _) ti place).isSome = true
    rw [cell_map_replicate, ht, bind_some, if_pos hplace]
    rfl
  label := nofun

theorem refused (h : Inv shardCount types r) (counts : List (List UInt64)) :
    Inv shardCount types ⟨{ r.arena with exhausted := counts }, r.bound ++ [⟨shard, typeIndex, id, {}, false⟩]⟩ where
  reserved := h.reserved
  offsets := h.offsets
  handle b hb hvalid := by
    rcases mem_append.mp hb with hold | hnew
    · exact h.handle b hold hvalid
    · rw [mem_singleton.mp hnew] at hvalid
      cases hvalid
  rows := h.rows
  slots typeIndex' ti t hti ht shard' hshard := by
    obtain ⟨fl, hcell, hlength, htop, hperm⟩ := h.slots typeIndex' ti t hti ht shard' hshard
    have hnone : (⟨shard, typeIndex, id, {}, false⟩ : Activation).slotAt typeIndex' shard' = none :=
      if_neg fun hat => Bool.false_ne_true hat.1
    refine ⟨fl, hcell, hlength, htop, ?_⟩
    rw [filterMap_append, filterMap_cons_none hnone, filterMap_nil, append_nil]
    exact hperm
  places := h.places
  label b hb hholds := by
    rcases mem_append.mp hb with hold | hnew
    · exact h.label b hold hholds
    · rw [mem_singleton.mp hnew] at hholds
      cases hholds

theorem slot_lt (h : Inv shardCount types r) (hb : b ∈ r.bound) (hholds : b.holds = true)
    (hti : typeToLocal types b.typeIndex = some ti) (ht : types[ti]? = some t) :
    b.handle.slot.toNat < t.capacityPerShard := by
  obtain ⟨-, -, hshard, -⟩ := h.handle b hb (holds_valid hholds)
  obtain ⟨fl, -, -, -, hperm⟩ := h.slots _ ti t hti ht b.shard hshard
  exact mem_range.mp (hperm.subset (mem_append_right _ (mem_filterMap.mpr ⟨b, hb, slotAt_holds hholds⟩)))

theorem label_other (h : Inv shardCount types r) {f : ActorId → ActorId} (hti : typeToLocal types typeIndex = some ti)
    (ht : types[ti]? = some t) (hlt : slot.toNat < t.capacityPerShard) (htypes : a.types = r.arena.types)
    (hlabels : a.labels = modifyCell r.arena.labels ti (shard * t.capacityPerShard + slot.toNat) f) (hb : b ∈ r.bound)
    (hholds : b.holds = true) (hne : b.typeIndex = typeIndex → b.shard = shard → b.handle.slot ≠ slot) :
    a.label b.typeIndex b.shard b.handle.slot = r.arena.label b.typeIndex b.shard b.handle.slot := by
  obtain ⟨-, -, -, hlocal⟩ := h.handle b hb (holds_valid hholds)
  obtain ⟨ti', hti'⟩ := isSome_iff_exists.mp hlocal
  obtain ⟨t', ht', -⟩ := typeToLocal_spec hti'
  have hlt' := h.slot_lt hb hholds hti' ht'
  rw [label_eq (by rw [htypes, h.reserved]; exact hti') (by rw [htypes, h.reserved]; exact ht'),
    label_eq (by rw [h.reserved]; exact hti') (by rw [h.reserved]; exact ht'), hlabels]
  refine cell_modifyCell_ne fun hrow hplace => ?_
  subst hrow
  obtain rfl : t = t' := some.inj (ht.symm.trans ht')
  obtain ⟨hshard, hslot⟩ := place_inj hlt hlt' hplace
  exact hne (typeToLocal_inj hti' hti) hshard.symm (UInt32.toNat_inj.mp hslot.symm)

theorem taken (h : Inv shardCount types r) {block : Nat} {blocks : List HistogramBlock}
    (hti : typeToLocal types typeIndex = some ti) (ht : types[ti]? = some t)
    (hcell : cell r.arena.freelists ti shard = some fl)
    (htop : fl.top ≠ 0) (hslot : fl.slots[fl.top - 1]? = some slot)
    (hb : b = ⟨shard, typeIndex, id, ⟨some block, UInt32.ofNat shard, UInt32.ofNat typeIndex, slot, true⟩, false⟩) :
    Inv shardCount types
      ⟨{ r.arena with
          freelists := modifyCell r.arena.freelists ti shard Freelist.pop
          blocks := blocks
          labels := modifyCell r.arena.labels ti (shard * t.capacityPerShard + slot.toNat) fun _ => id },
        r.bound ++ [b]⟩ := by
  have hshard := h.rows ti shard (by rw [hcell]; rfl)
  obtain ⟨fl', hcell', hlength, hbound, hperm⟩ := h.slots typeIndex ti t hti ht shard hshard
  obtain rfl : fl = fl' := some.inj (hcell.symm.trans hcell')
  have hfree := Freelist.free_pop hslot htop
  have hlt : slot.toNat < t.capacityPerShard := by
    refine mem_range.mp (hperm.subset (mem_append_left _ (mem_map_of_mem ?_)))
    rw [hfree]
    exact mem_append_right _ mem_cons_self
  have hfresh : slot.toNat ∉ r.bound.filterMap (Activation.slotAt typeIndex shard) := fun hmem => by
    have hnodup := hperm.nodup_iff.mpr nodup_range
    rw [hfree, map_append] at hnodup
    exact (nodup_append.mp hnodup).2.2 _ (mem_append_right _ mem_cons_self) _ hmem rfl
  have hat : b.slotAt typeIndex shard = some slot.toNat := by
    rw [hb]
    exact if_pos ⟨rfl, rfl, rfl⟩
  refine ⟨h.reserved, h.offsets, fun b' hb' hvalid => ?_, fun ti' shard' hsome => ?_,
    fun typeIndex' ti' t' hti' ht' shard' hshard' => ?_, fun ti' t' ht' place hplace => ?_, fun b' hb' hholds => ?_⟩
  · rcases mem_append.mp hb' with hold | hnew
    · exact h.handle b' hold hvalid
    · rw [mem_singleton.mp hnew, hb]
      exact ⟨rfl, rfl, hshard, by rw [hti]; rfl⟩
  · rw [isSome_modifyCell] at hsome
    exact h.rows ti' shard' hsome
  · rw [filterMap_append]
    by_cases hsame : typeIndex = typeIndex' ∧ shard = shard'
    · obtain ⟨rfl, rfl⟩ := hsame
      rw [filterMap_cons_some hat, filterMap_nil]
      obtain rfl : ti = ti' := some.inj (hti.symm.trans hti')
      obtain rfl : t = t' := some.inj (ht.symm.trans ht')
      refine ⟨fl.pop, by rw [cell_modifyCell, if_pos ⟨rfl, rfl⟩, hcell]; rfl, hlength,
        (Nat.sub_le ..).trans hbound, ?_⟩
      rw [hfree, map_append, append_assoc] at hperm
      exact (perm_append_comm.append_left _).trans hperm
    · obtain ⟨fl', hcell', hlength', hbound', hperm'⟩ := h.slots typeIndex' ti' t' hti' ht' shard' hshard'
      have helse : ti = ti' → shard ≠ shard' := by
        rintro rfl rfl
        exact hsame ⟨typeToLocal_inj hti hti', rfl⟩
      refine ⟨fl', (cell_modifyCell_ne helse).trans hcell', hlength', hbound', ?_⟩
      rw [filterMap_cons_none (slotAt_else (b := b) (by rwa [hb])), filterMap_nil, append_nil]
      exact hperm'
  · rw [isSome_modifyCell]
    exact h.places ti' t' ht' place hplace
  · rcases mem_append.mp hb' with hold | hnew
    · refine Eq.trans ?_ (h.label b' hold hholds)
      refine h.label_other hti ht hlt rfl rfl hold hholds fun htype hshard hsame => hfresh ?_
      exact mem_filterMap.mpr ⟨b', hold, by rw [← htype, ← hshard, ← hsame]; exact slotAt_holds hholds⟩
    · obtain ⟨old, hold⟩ := isSome_iff_exists.mp (h.places ti t ht _ (place_lt hshard hlt))
      rw [mem_singleton.mp hnew, hb, label_eq (by rw [h.reserved]; exact hti) (by rw [h.reserved]; exact ht),
        cell_modifyCell, if_pos ⟨rfl, rfl⟩, hold]
      rfl

theorem marked_slotAt (b : Activation) (typeIndex shard : Nat) :
    ({ b with unbound := true } : Activation).slotAt typeIndex shard = none :=
  if_neg fun hat => by
    rw [Activation.holds, Bool.not_true, Bool.and_false] at hat
    exact Bool.false_ne_true hat.1

theorem marked_mem {b' : Activation} (hb' : b' ∈ r.bound.modify n fun b => { b with unbound := true })
    (hholds : b'.holds = true) : b' ∈ r.bound := by
  rcases mem_modify hb' with hold | ⟨b, -, rfl⟩
  · exact hold
  · rw [Activation.holds, Bool.not_true, Bool.and_false] at hholds
    cases hholds

theorem marked_handle (h : Inv shardCount types r) :
    ∀ b ∈ r.bound.modify n fun b => { b with unbound := true }, b.handle.valid = true →
      b.handle.shard = UInt32.ofNat b.shard ∧ b.handle.typeIndex = UInt32.ofNat b.typeIndex ∧ b.shard < shardCount ∧
        (typeToLocal types b.typeIndex).isSome := by
  intro b' hb' hvalid
  rcases mem_modify hb' with hold | ⟨b, hb, rfl⟩
  · exact h.handle b' hold hvalid
  · exact h.handle b (mem_of_getElem? hb) hvalid

theorem marked (h : Inv shardCount types r) (hb : r.bound[n]? = some b) (hinvalid : b.handle.valid = false) :
    Inv shardCount types ⟨r.arena, r.bound.modify n fun b => { b with unbound := true }⟩ where
  reserved := h.reserved
  offsets := h.offsets
  handle := h.marked_handle
  rows := h.rows
  slots typeIndex ti t hti ht shard hshard := by
    have hnone : b.slotAt typeIndex shard = none := if_neg fun hat => by
      rw [holds_valid hat.1] at hinvalid
      cases hinvalid
    rw [filterMap_modify hb ((marked_slotAt b typeIndex shard).trans hnone.symm)]
    exact h.slots typeIndex ti t hti ht shard hshard
  places := h.places
  label b' hb' hholds := h.label b' (marked_mem hb' hholds) hholds

theorem released (h : Inv shardCount types r) {blocks : List HistogramBlock} {fl' : Freelist}
    (hb : r.bound[n]? = some b)
    (hholds : b.holds = true) (hti : typeToLocal types b.typeIndex = some ti) (ht : types[ti]? = some t)
    (hcell : cell r.arena.freelists ti b.shard = some fl) (hpush : fl.push b.handle.slot = some fl') :
    Inv shardCount types
      ⟨{ r.arena with
          blocks := blocks
          labels := modifyCell r.arena.labels ti (b.shard * t.capacityPerShard + b.handle.slot.toNat) fun _ => noActor
          freelists := modifyCell r.arena.freelists ti b.shard fun _ => fl' },
        r.bound.modify n fun b => { b with unbound := true }⟩ := by
  have hmem := mem_of_getElem? hb
  obtain ⟨-, -, hshard, -⟩ := h.handle b hmem (holds_valid hholds)
  obtain ⟨fl₀, hcell', hlength, hbound, hperm⟩ := h.slots _ ti t hti ht b.shard hshard
  obtain rfl : fl = fl₀ := some.inj (hcell.symm.trans hcell')
  obtain ⟨hfree, hlength', htop'⟩ := Freelist.push_free hpush
  have hback := filterMap_modify_perm (f := fun b => { b with unbound := true }) hb (slotAt_holds hholds)
    (marked_slotAt b b.typeIndex b.shard)
  refine ⟨h.reserved, h.offsets, h.marked_handle, fun ti' shard' hsome => ?_,
    fun typeIndex' ti' t' hti' ht' shard' hshard' => ?_, fun ti' t' ht' place hplace => ?_, fun b' hb' hholds' => ?_⟩
  · rw [isSome_modifyCell] at hsome
    exact h.rows ti' shard' hsome
  · by_cases hsame : b.typeIndex = typeIndex' ∧ b.shard = shard'
    · obtain ⟨rfl, rfl⟩ := hsame
      obtain rfl : ti = ti' := some.inj (hti.symm.trans hti')
      obtain rfl : t = t' := some.inj (ht.symm.trans ht')
      refine ⟨fl', by rw [cell_modifyCell, if_pos ⟨rfl, rfl⟩, hcell]; rfl, hlength'.trans hlength,
        hlength' ▸ htop', ?_⟩
      rw [hfree, map_append, append_assoc]
      exact (hback.append_left _).trans hperm
    · obtain ⟨fl₁, hcell₁, hlength₁, hbound₁, hperm₁⟩ := h.slots typeIndex' ti' t' hti' ht' shard' hshard'
      have helse : ti = ti' → b.shard ≠ shard' := by
        rintro rfl rfl
        exact hsame ⟨typeToLocal_inj hti hti', rfl⟩
      refine ⟨fl₁, (cell_modifyCell_ne helse).trans hcell₁, hlength₁, hbound₁, ?_⟩
      rw [filterMap_modify hb ((marked_slotAt b typeIndex' shard').trans (slotAt_else hsame).symm)]
      exact hperm₁
  · rw [isSome_modifyCell]
    exact h.places ti' t' ht' place hplace
  · refine Eq.trans ?_ (h.label b' (marked_mem hb' hholds') hholds')
    refine h.label_other hti ht (h.slot_lt hmem hholds hti ht) rfl rfl (marked_mem hb' hholds') hholds'
      fun htype hshard hsame => ?_
    have hnodup := hback.nodup_iff.mpr (hperm.nodup_iff.mpr nodup_range).of_append_right
    refine (nodup_cons.mp hnodup).1 (mem_filterMap.mpr ⟨b', hb', ?_⟩)
    rw [← htype, ← hshard, ← hsame]
    exact slotAt_holds hholds'

theorem bind (h : Inv shardCount types r) (hstep : r.step spec (.bind shard typeIndex id) = some r') :
    Inv shardCount types r' := by
  obtain ⟨⟨hd, a⟩, hbind, rfl⟩ := map_eq_some_iff.mp hstep
  unfold InstanceMetricsArena.bindActivation at hbind
  split at hbind
  · cases hbind
    exact h.refused r.arena.exhausted
  · next ti hti =>
    rw [h.reserved] at hti
    obtain ⟨fl, hcell, hbind⟩ := bind_eq_some_iff.mp hbind
    split at hbind
    · cases hbind
      exact h.refused _
    · next htop =>
      obtain ⟨slot, hslot, hbind⟩ := bind_eq_some_iff.mp hbind
      obtain ⟨t, ht, hbind⟩ := bind_eq_some_iff.mp hbind
      obtain ⟨offset, -, hbind⟩ := map_eq_some_iff.mp hbind
      cases hbind
      exact h.taken hti (h.reserved ▸ ht) hcell htop hslot rfl

theorem handle_place (h : Inv shardCount types r) (hproper : r.Proper (.unbind n)) (hb : r.bound[n]? = some b)
    (hvalid : b.handle.valid = true) :
    b.holds = true ∧ b.handle.shard.toNat = b.shard ∧ b.handle.typeIndex.toNat = b.typeIndex ∧
      ∃ ti t, typeToLocal types b.typeIndex = some ti ∧ types[ti]? = some t := by
  obtain ⟨hunbound, hshard, htype⟩ := hproper b hb hvalid
  obtain ⟨hshard', htype', -, hlocal⟩ := h.handle b (mem_of_getElem? hb) hvalid
  obtain ⟨ti, hti⟩ := isSome_iff_exists.mp hlocal
  obtain ⟨t, ht, -⟩ := typeToLocal_spec hti
  refine ⟨?_, ?_, ?_, ti, t, hti, ht⟩
  · rw [Activation.holds, hvalid, hunbound]
    rfl
  · rw [hshard', toNat_ofNat_of_lt' hshard]
  · rw [htype', toNat_ofNat_of_lt' htype]

theorem unbind (h : Inv shardCount types r) (hproper : r.Proper (.unbind n))
    (hstep : r.step spec (.unbind n) = some r') : Inv shardCount types r' := by
  obtain ⟨b, hb, hstep⟩ := bind_eq_some_iff.mp hstep
  obtain ⟨a, hunbind, rfl⟩ := map_eq_some_iff.mp hstep
  unfold InstanceMetricsArena.unbindActivation at hunbind
  cases hvalid : b.handle.valid with
  | false =>
    rw [hvalid] at hunbind
    cases hunbind
    exact h.marked hb hvalid
  | true =>
    obtain ⟨hholds, hshard, htype, ti, t, hti, ht⟩ := h.handle_place hproper hb hvalid
    have hti' : typeToLocal r.arena.types b.typeIndex = some ti := by rwa [h.reserved]
    rw [hvalid, htype, hshard, hti'] at hunbind
    obtain ⟨t', ht', hunbind⟩ := bind_eq_some_iff.mp hunbind
    rw [h.reserved] at ht'
    obtain rfl : t = t' := some.inj (ht.symm.trans ht')
    obtain ⟨fl, hcell, hunbind⟩ := bind_eq_some_iff.mp hunbind
    obtain ⟨fl', hpush, rfl⟩ := map_eq_some_iff.mp hunbind
    exact h.released hb hholds hti ht hcell hpush

theorem step (h : Inv shardCount types r) (hproper : r.Proper c) (hstep : r.step spec c = some r') :
    Inv shardCount types r' := by
  cases c with
  | bind shard typeIndex id => exact h.bind hstep
  | unbind n => exact h.unbind hproper hstep

theorem defined (h : Inv shardCount types r) (hproper : r.Proper c) (hdefined : r.Defined shardCount c) :
    (r.step spec c).isSome := by
  cases c with
  | bind shard typeIndex id =>
    rw [Run.step, isSome_map, InstanceMetricsArena.bindActivation]
    split
    · rfl
    · next ti hti =>
      rw [h.reserved] at hti
      obtain ⟨t, ht, -⟩ := typeToLocal_spec hti
      obtain ⟨fl, hcell, hlength, htop, -⟩ := h.slots typeIndex ti t hti ht shard hdefined
      have hoffset : ti < r.arena.offsets.length := by
        rw [h.offsets]
        exact (List.getElem?_eq_some_iff.mp ht).1
      rw [hcell, Option.bind_some]
      split
      · rfl
      · rw [getElem?_eq_getElem (by omega), bind_some, h.reserved, ht, bind_some,
          getElem?_eq_getElem hoffset]
        rfl
  | unbind n =>
    have hb := getElem?_eq_getElem (show n < r.bound.length from hdefined)
    rw [Run.step, hb, bind_some, isSome_map, InstanceMetricsArena.unbindActivation]
    generalize r.bound[n] = b at hb
    cases hvalid : b.handle.valid with
    | false => rfl
    | true =>
      obtain ⟨hholds, hshard, htype, ti, t, hti, ht⟩ := h.handle_place hproper hb hvalid
      obtain ⟨-, -, hlt, -⟩ := h.handle b (mem_of_getElem? hb) hvalid
      obtain ⟨fl, hcell, hlength, htop, hperm⟩ := h.slots _ ti t hti ht b.shard hlt
      have hroom : fl.top < fl.slots.length := by
        have hcount := hperm.length_eq
        have hone := length_pos_of_mem (mem_filterMap.mpr ⟨b, mem_of_getElem? hb, slotAt_holds hholds⟩)
        rw [length_append, length_map, Freelist.free_length htop, length_range] at hcount
        omega
      have hti' : typeToLocal r.arena.types b.typeIndex = some ti := by rwa [h.reserved]
      rw [htype, hshard, hti', h.reserved]
      simp only [Bool.not_true, Bool.false_eq_true, if_false, ht, hcell, bind_some, Freelist.push, if_pos hroom,
        map_some, isSome_some]

end Inv

end

/-- In every run that unbinds only what is still held, the slots are sound at every moment, and every further
such call has an answer. -/
theorem reached_sound (spec : HistogramSpec) (shardCount : Nat) (types : List TypeReservation)
    (hcap : ∀ t ∈ types, t.capacityPerShard ≤ 2 ^ 32) (r : Run) (h : Run.Reached spec shardCount types r) :
    r.Sound spec shardCount types ∧ ∀ c, r.Proper c → r.Defined shardCount c → (r.step spec c).isSome := by
  have hinv : Inv shardCount types r := by
    induction h with
    | start => exact .start hcap
    | step _ hproper hstep ih => exact ih.step hproper hstep
  exact ⟨hinv.sound, fun c hproper hdefined => hinv.defined hproper hdefined⟩

/-- One shard with two slots: two activations bind, and the first unbinds. -/
theorem reached_sound_unbound : ∃ r, (Run.start mailboxDepthSpec 1 [⟨5, 2⟩]).run mailboxDepthSpec
    [.bind 0 5 ⟨⟨1⟩, 1⟩, .bind 0 5 ⟨⟨1⟩, 2⟩, .unbind 0] = some r ∧ r.Sound mailboxDepthSpec 1 [⟨5, 2⟩] := by
  refine ⟨_, rfl, (reached_sound mailboxDepthSpec 1 [⟨5, 2⟩] (by decide) _ ?_).1⟩
  refine .step (c := .unbind 0) (.step (c := .bind 0 5 ⟨⟨1⟩, 2⟩) (.step (c := .bind 0 5 ⟨⟨1⟩, 1⟩) .start trivial rfl)
    trivial rfl) (fun b hb _ => ?_) rfl
  cases hb
  exact ⟨rfl, by decide, by decide⟩

def unboundTwice : List Call :=
  [.bind 0 5 ⟨⟨1⟩, 1⟩, .bind 0 5 ⟨⟨1⟩, 2⟩, .unbind 0, .unbind 0, .bind 0 5 ⟨⟨1⟩, 3⟩, .bind 0 5 ⟨⟨1⟩, 4⟩]

/-- The slot lies on the stack twice, and then two activations hold it. -/
theorem unbound_twice :
    (∃ r fl, (Run.start mailboxDepthSpec 1 [⟨5, 2⟩]).run mailboxDepthSpec (unboundTwice.take 4) = some r ∧
      r.arena.freelist 5 0 = some fl ∧ ¬fl.free.Nodup) ∧
    ∃ r, (Run.start mailboxDepthSpec 1 [⟨5, 2⟩]).run mailboxDepthSpec unboundTwice = some r ∧
      ¬r.Sound mailboxDepthSpec 1 [⟨5, 2⟩] := by
  refine ⟨⟨_, _, rfl, rfl, by decide⟩, _, rfl, fun hsound => ?_⟩
  have hboth := pairwise_iff_getElem.mp hsound.exclusive 2 3 (by decide) (by decide) (by decide)
  exact hboth rfl rfl rfl rfl rfl

end Quark.MetricsArena
