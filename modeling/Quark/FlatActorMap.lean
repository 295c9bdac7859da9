import Mathlib.Data.Finset.Dedup
import Mathlib.Data.Nat.Bitwise
import Quark.Lib.LinearProbing
import Quark.Persistence

/-! `FlatActorMap` (`flat_actor_map.hpp`): the ids of a table with open addressing and linear probing. -/
namespace Quark

open Function List Option LinearProbing

/-- A slot without an entry is one whose value pointer is null. -/
structure FlatActorMap (V : Type) where
  capacity : Nat := 16
  slots : Nat → Option (ActorId × V) := fun _ => none
  size : Nat := 0

namespace FlatActorMap

section

variable {V : Type} (hash : ActorId → UInt64)

def home (capacity : Nat) (id : ActorId) : Nat := (hash id).toNat &&& (capacity - 1)

def next (capacity i : Nat) : Nat := (i + 1) &&& (capacity - 1)

/-- The loop of `probe`, and of `find`; `none` where it has seen every slot and goes on. -/
def probe (capacity : Nat) (slots : Nat → Option (ActorId × V)) (id : ActorId) : Option Nat :=
  walk (next capacity) (stops slots id) capacity (home hash capacity id)

/-- One entry of the old table in the loop of `grow`. -/
def reinsert (capacity : Nat) (slots : Nat → Option (ActorId × V)) (e : ActorId × V) :
    Option (Nat → Option (ActorId × V)) :=
  (probe hash capacity slots e.1).map fun i => update slots i (some e)

def entries (capacity : Nat) (slots : Nat → Option (ActorId × V)) : List (ActorId × V) :=
  (List.range capacity).filterMap slots

def grow (m : FlatActorMap V) : Option (FlatActorMap V) :=
  ((entries m.capacity m.slots).foldlM (reinsert hash (m.capacity * 2)) fun _ => none).map fun slots =>
    { m with capacity := m.capacity * 2, slots }

def insertOrAssign (m : FlatActorMap V) (c : ActorId × V) : Option (FlatActorMap V) :=
  (if m.capacity < (m.size + 1) * 2 then m.grow hash else some m).bind fun m =>
    (probe hash m.capacity m.slots c.1).map fun i =>
      { m with
        slots := update m.slots i (some c)
        size := if m.slots i = none then m.size + 1 else m.size }

/-- The outer `none` is a call that does not return. -/
def find (m : FlatActorMap V) (id : ActorId) : Option (Option V) :=
  (probe hash m.capacity m.slots id).map fun i => (m.slots i).map Prod.snd

end

section

variable {V : Type}

/-- What a map has under `id` after these assignments. -/
def lastAssigned (calls : List (ActorId × V)) (id : ActorId) : Option V :=
  (calls.reverse.find? fun c => c.1 = id).map Prod.snd

theorem lastAssigned_concat (calls : List (ActorId × V)) (c : ActorId × V) (id : ActorId) :
    lastAssigned (calls ++ [c]) id = if id = c.1 then some c.2 else lastAssigned calls id := by
  rw [lastAssigned, reverse_append, reverse_singleton, singleton_append, find?_cons]
  by_cases hid : id = c.1
  · simp [hid]
  · simp [hid, Ne.symm hid, lastAssigned]

theorem lastAssigned_ne_none {calls : List (ActorId × V)} {id : ActorId} :
    (∃ v, lastAssigned calls id = some v) ↔ id ∈ calls.map Prod.fst := by
  rw [← isSome_iff_exists, lastAssigned, isSome_map, find?_isSome]
  simp

end

section

variable {V : Type} {hash : ActorId → UInt64} {capacity : Nat}
  {slots slots' : Nat → Option (ActorId × V)} {id : ActorId}
variable {m m' : FlatActorMap V} {calls : List (ActorId × V)}

theorem home_eq (hpow : ∃ b, capacity = 2 ^ b) : home hash capacity id = (hash id).toNat % capacity := by
  obtain ⟨b, rfl⟩ := hpow
  exact Nat.and_two_pow_sub_one_eq_mod _ b

theorem next_eq (hpow : ∃ b, capacity = 2 ^ b) : next capacity = fun i => (i + 1) % capacity := by
  obtain ⟨b, rfl⟩ := hpow
  funext i
  exact Nat.and_two_pow_sub_one_eq_mod _ b

/-- A table of which every entry is where its id is looked for. -/
structure Probed (hash : ActorId → UInt64) (capacity : Nat) (slots : Nat → Option (ActorId × V)) : Prop where
  pow : ∃ b, capacity = 2 ^ b
  chained : Chained (home hash capacity) (next capacity) slots

namespace Probed

theorem lt_of_walk (h : Probed hash capacity slots) (j : Nat) : (next capacity)^[j]
    (home hash capacity id) < capacity := by
  have hpos : 0 < capacity := by
    obtain ⟨b, rfl⟩ := h.pow
    exact Nat.two_pow_pos b
  rw [next_eq h.pow, home_eq h.pow, iterate_succ_mod]
  exact Nat.mod_lt _ hpos

theorem lt_of_slot (h : Probed hash capacity slots) {i : Nat} {v : V} (hslot : slots i = some (id, v)) :
    i < capacity := by
  obtain ⟨j, rfl, -⟩ := h.chained i id v hslot
  exact h.lt_of_walk j

theorem exists_probe (h : Probed hash capacity slots) (hroom : occupied slots capacity < capacity) (id : ActorId) :
    ∃ p < capacity, probe hash capacity slots id = some p := by
  obtain ⟨i, hi, hempty⟩ := exists_empty hroom
  obtain ⟨j, hj, hat_⟩ := exists_iterate (h := (hash id).toNat) hi
  have hstop : stops slots id ((next capacity)^[j] (home hash capacity id)) = true := by
    rw [next_eq h.pow, home_eq h.pow, hat_]
    exact stops_eq_true.mpr (.inl hempty)
  obtain ⟨p, hp⟩ := exists_walk hj hstop
  refine ⟨p, ?_, hp⟩
  obtain ⟨j', -, rfl, -⟩ := exists_of_walk hp
  exact h.lt_of_walk j'

theorem put {p : Nat} (h : Probed hash capacity slots) (hp : probe hash capacity slots id = some p) (v : V) :
    Probed hash capacity (update slots p (some (id, v))) := ⟨h.pow, h.chained.put hp v⟩

end Probed

/-- The new table in the loop of `grow`, when the entries `es` have been taken over. -/
structure Regrown (hash : ActorId → UInt64) (capacity : Nat) (slots : Nat →
    Option (ActorId × V)) (es : List (ActorId × V)) : Prop where
  probed : Probed hash capacity slots
  has : ∀ k v, Has slots k v ↔ (k, v) ∈ es
  occupied : occupied slots capacity = es.length

theorem Regrown.reinsert {es : List (ActorId × V)} {e : ActorId × V} (h : Regrown hash capacity slots es)
    (hroom : es.length < capacity) (hnew : ∀ v, (e.1, v) ∉ es) :
    ∃ slots', reinsert hash capacity slots e = some slots' ∧ Regrown hash capacity slots' (es ++ [e]) := by
  obtain ⟨p, hlt, hp⟩ := h.probed.exists_probe (by rwa [h.occupied]) e.1
  refine ⟨_, by rw [FlatActorMap.reinsert, hp, map_some], h.probed.put hp e.2, fun k v => ?_, ?_⟩
  · rw [h.probed.chained.has_put hp, mem_append, mem_singleton]
    by_cases hk : k = e.1
    · rw [if_pos hk, hk]
      constructor
      · rintro rfl
        exact .inr rfl
      · rintro (hin | heq)
        · exact absurd hin (hnew v)
        · exact congrArg Prod.snd heq
    · rw [if_neg hk, h.has]
      refine ⟨.inl, fun hin => hin.resolve_right fun heq => hk (congrArg Prod.fst heq)⟩
  · have hempty : slots p = none := (h.probed.chained.walk_none hp).mpr fun v hhas => hnew v ((h.has _ _).mp hhas)
    rw [occupied_put hlt, if_pos hempty, h.occupied, length_append, length_singleton]

theorem Regrown.foldlM {es old : List (ActorId × V)} (h : Regrown hash capacity slots es)
    (hroom : (es ++ old).length < capacity) (hkeys : ((es ++ old).map Prod.fst).Nodup) :
    ∃ slots', old.foldlM (FlatActorMap.reinsert hash capacity) slots = some slots' ∧
      Regrown hash capacity slots' (es ++ old) := by
  induction old generalizing slots es with
  | nil =>
    rw [append_nil]
    exact ⟨slots, rfl, h⟩
  | cons e old ih =>
    rw [append_cons] at hroom hkeys ⊢
    have hnew : ∀ v, (e.1, v) ∉ es := by
      intro v hin
      rw [map_append, map_append, nodup_append] at hkeys
      have hfirst := (nodup_append.mp hkeys.1).2.2
      exact hfirst e.1 (mem_map.mpr ⟨(e.1, v), hin, rfl⟩) e.1 (mem_singleton.mpr rfl) rfl
    have hless : es.length < capacity := by
      rw [length_append, length_append] at hroom
      omega
    obtain ⟨mid, hput, hmid⟩ := h.reinsert hless hnew
    obtain ⟨slots', hfold, hregrown⟩ := ih hmid hroom hkeys
    refine ⟨slots', ?_, hregrown⟩
    rw [foldlM_cons, hput]
    exact hfold

theorem Probed.mem_entries (h : Probed hash capacity slots) {v : V} : (id, v) ∈ entries capacity slots ↔
    Has slots id v := by
  rw [entries, mem_filterMap]
  constructor
  · rintro ⟨i, -, hslot⟩
    exact ⟨i, hslot⟩
  · rintro ⟨i, hslot⟩
    exact ⟨i, mem_range.mpr (h.lt_of_slot hslot), hslot⟩

theorem length_entries : (entries capacity slots).length = occupied slots capacity := by
  rw [entries, length_filterMap_eq_countP, countP_eq_length_filter, occupied, Finset.card, Finset.filter_val,
    Finset.range_val]
  simp only [Multiset.range, Multiset.filter_coe, Multiset.coe_card, Bool.decide_eq_true]

theorem Probed.nodup_entries (h : Probed hash capacity slots) (hroom : occupied slots capacity < capacity) :
    ((entries capacity slots).map Prod.fst).Nodup := by
  rw [entries, map_filterMap]
  refine List.Nodup.filterMap (fun i i' k hk hk' => ?_) nodup_range
  obtain ⟨⟨k, v⟩, hslot, rfl⟩ := map_eq_some_iff.mp hk
  obtain ⟨⟨k', v'⟩, hslot', heq⟩ := map_eq_some_iff.mp hk'
  obtain rfl : k' = k := heq
  obtain ⟨p, -, hp⟩ := h.exists_probe hroom k'
  exact (h.chained.walk_at hp hslot).trans (h.chained.walk_at hp hslot').symm

/-- The map, against the calls that were made on it. -/
structure Holds (hash : ActorId → UInt64) (m : FlatActorMap V) (calls : List (ActorId × V)) : Prop where
  probed : Probed hash m.capacity m.slots
  has : ∀ k v, Has m.slots k v ↔ lastAssigned calls k = some v
  occupied : occupied m.slots m.capacity = m.size
  size : m.size = (calls.map Prod.fst).toFinset.card
  half : 2 * m.size ≤ m.capacity

namespace Holds

theorem start : Holds hash ({} : FlatActorMap V) [] where
  probed := ⟨⟨4, rfl⟩, .empty⟩
  has k v := by
    refine ⟨fun ⟨i, hslot⟩ => (nomatch hslot), fun h => (nomatch h)⟩
  occupied := occupied_empty
  size := rfl
  half := Nat.zero_le _

theorem capacity_pos (h : Holds hash m calls) : 0 < m.capacity := by
  obtain ⟨b, hb⟩ := h.probed.pow
  rw [hb]
  exact Nat.two_pow_pos b

theorem room (h : Holds hash m calls) : LinearProbing.occupied m.slots m.capacity < m.capacity := by
  have hhalf := h.half
  have hpos := h.capacity_pos
  have hoccupied := h.occupied
  omega

theorem grow (h : Holds hash m calls) :
    ∃ m', m.grow hash = some m' ∧ Holds hash m' calls ∧ m'.capacity = m.capacity * 2 ∧ m'.size = m.size := by
  obtain ⟨b, hb⟩ := h.probed.pow
  have hfresh : Regrown hash (m.capacity * 2) (fun _ => (none : Option (ActorId × V))) [] :=
    ⟨⟨⟨b + 1, by rw [hb, pow_succ]⟩, .empty⟩, fun k v => ⟨fun ⟨i, hslot⟩ => (nomatch hslot), fun h => (nomatch h)⟩,
      occupied_empty⟩
  have hlength : (entries m.capacity m.slots).length = m.size := length_entries.trans h.occupied
  have hroom := h.room
  have hspace : ([] ++ entries m.capacity m.slots).length < m.capacity * 2 := by
    rw [nil_append, length_entries]
    omega
  obtain ⟨slots', hfold, hregrown⟩ := hfresh.foldlM hspace (h.probed.nodup_entries hroom)
  rw [nil_append] at hregrown
  refine ⟨{ m with capacity := m.capacity * 2, slots := slots' }, by rw [FlatActorMap.grow, hfold, map_some],
    ⟨hregrown.probed, fun k v => ?_, hregrown.occupied.trans hlength, h.size, ?_⟩, rfl, rfl⟩
  · rw [hregrown.has, h.probed.mem_entries, h.has]
  · have hhalf := h.half
    change 2 * m.size ≤ m.capacity * 2
    omega

theorem put (h : Holds hash m calls) (hload : (m.size + 1) * 2 ≤ m.capacity) (c : ActorId × V) :
    ∃ i, probe hash m.capacity m.slots c.1 = some i ∧
      Holds hash
        { m with
          slots := update m.slots i (some c)
          size := if m.slots i = none then m.size + 1 else m.size } (calls ++ [c]) := by
  obtain ⟨p, hlt, hp⟩ := h.probed.exists_probe h.room c.1
  have hempty : m.slots p = none ↔ c.1 ∉ (calls.map Prod.fst).toFinset := by
    rw [h.probed.chained.walk_none hp, List.mem_toFinset, ← lastAssigned_ne_none, not_exists]
    exact forall_congr' fun v => not_congr (h.has c.1 v)
  refine ⟨p, hp, h.probed.put hp c.2, fun k v => ?_, ?_, ?_, ?_⟩
  · rw [h.probed.chained.has_put hp, lastAssigned_concat]
    by_cases hk : k = c.1
    · rw [if_pos hk, if_pos hk, some.injEq, eq_comm]
    · rw [if_neg hk, if_neg hk, h.has]
  · dsimp only
    rw [occupied_put hlt, h.occupied]
  · dsimp only
    rw [map_append, toFinset_append, map_singleton, toFinset_cons, toFinset_nil,
      insert_empty_eq, Finset.union_comm, ← Finset.insert_eq]
    split
    · next hnone => rw [Finset.card_insert_of_notMem (hempty.mp hnone), h.size]
    · next hsome => rw [Finset.insert_eq_of_mem (not_not.mp fun hnot => hsome (hempty.mpr hnot)), h.size]
  · dsimp only
    split <;> omega

theorem insertOrAssign (h : Holds hash m calls) (c : ActorId × V) :
    ∃ m', m.insertOrAssign hash c = some m' ∧ Holds hash m' (calls ++ [c]) := by
  by_cases hload : m.capacity < (m.size + 1) * 2
  · obtain ⟨m', hgrow, h', hcapacity, hsize⟩ := h.grow
    have hroom := h.half
    have hpos := h.capacity_pos
    obtain ⟨i, hp, hput⟩ := h'.put (by omega) c
    refine ⟨_, ?_, hput⟩
    rw [FlatActorMap.insertOrAssign, if_pos hload, hgrow, bind_some, hp, map_some]
  · obtain ⟨i, hp, hput⟩ := h.put (not_lt.mp hload) c
    refine ⟨_, ?_, hput⟩
    rw [FlatActorMap.insertOrAssign, if_neg hload, bind_some, hp, map_some]

theorem find (h : Holds hash m calls) (id : ActorId) : m.find hash id = some (lastAssigned calls id) := by
  obtain ⟨p, -, hp⟩ := h.probed.exists_probe h.room id
  rw [FlatActorMap.find, hp, map_some, some.injEq]
  refine Option.ext fun v => ?_
  rw [← h.has, ← h.probed.chained.walk_has hp]
  constructor
  · intro hv
    obtain ⟨⟨k, w⟩, hslot, rfl⟩ := map_eq_some_iff.mp hv
    obtain ⟨j, -, rfl, hstop, -⟩ := exists_of_walk hp
    obtain hnone | ⟨u, hsame⟩ := stops_eq_true.mp hstop
    · rw [hnone] at hslot
      cases hslot
    · rw [hsame] at hslot
      cases hslot
      exact hsame
  · intro hslot
    rw [hslot]
    rfl

end Holds

/-- For every hash and every sequence of assignments each call returns, and the map is the finite map of what was
assigned last, half empty at least. -/
theorem finite_map (hash : ActorId → UInt64) (calls : List (ActorId × V)) :
    ∃ m : FlatActorMap V, calls.foldlM (insertOrAssign hash) {} = some m ∧
      (∀ id, m.find hash id = some (lastAssigned calls id)) ∧ m.size = (calls.map Prod.fst).toFinset.card ∧
      2 * LinearProbing.occupied m.slots m.capacity ≤ m.capacity := by
  have hholds : ∃ m : FlatActorMap V, calls.foldlM (FlatActorMap.insertOrAssign hash) {} = some m ∧
      Holds hash m calls := by
    induction calls using List.reverseRecOn with
    | nil => exact ⟨{}, rfl, .start⟩
    | append_singleton calls c ih =>
      obtain ⟨m, hrun, h⟩ := ih
      obtain ⟨m', hcall, h'⟩ := h.insertOrAssign c
      refine ⟨m', ?_, h'⟩
      rw [foldlM_append, hrun]
      change (FlatActorMap.insertOrAssign hash m c).bind some = some m'
      rw [hcall, bind_some]
  obtain ⟨m, hrun, h⟩ := hholds
  refine ⟨m, hrun, h.find, h.size, ?_⟩
  rw [h.occupied]
  exact h.half

end

end FlatActorMap

end Quark
