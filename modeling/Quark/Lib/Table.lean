import Mathlib.Data.Finset.Card
import Mathlib.Data.List.AList
import Quark.Lib.Census

/-! Finite tables: association lists without repeated keys, filtered and updated throughout. -/

abbrev Table (K V : Type) := AList fun _ : K => V

namespace Table

open List Option AList

variable {K V : Type}

def size (t : Table K V) : Nat := t.entries.length

/-- `std::erase_if`: keep the entries that do not satisfy `p`. -/
def eraseIf (p : K → V → Bool) (t : Table K V) : Table K V :=
  ⟨t.entries.filter fun e => !p e.1 e.2, t.nodupKeys.sublist filter_sublist⟩

theorem keys_mapEntries (f : K → V → V) (l : List (Sigma fun _ : K => V)) :
    (l.map fun e => (⟨e.1, f e.1 e.2⟩ : Sigma fun _ : K => V)).keys = l.keys := by
  simp [List.keys, Function.comp_def]

def mapVals (f : K → V → V) (t : Table K V) : Table K V :=
  ⟨t.entries.map fun e => ⟨e.1, f e.1 e.2⟩, by
    rw [List.NodupKeys, keys_mapEntries]
    exact t.nodupKeys⟩

theorem size_eq_keys (t : Table K V) : size t = t.keys.length := (length_map _).symm

variable [DecidableEq K] {t : Table K V} {k : K} {v : V}

theorem mem_entries_iff : (⟨k, v⟩ : Sigma fun _ : K => V) ∈ t.entries ↔ t.lookup k = some v := by
  rw [← mem_lookup_iff, mem_def]

@[simp] theorem lookup_eraseIf (p : K → V → Bool) :
    (eraseIf p t).lookup k = (t.lookup k).filter fun v => !p k v := by
  ext v
  rw [← mem_entries_iff, eraseIf, mem_filter, mem_entries_iff, filter_eq_some_iff]

theorem dlookup_filter (p : K → V → Bool) :
    (t.entries.filter fun e => p e.1 e.2).dlookup k = (t.lookup k).filter (p k) := by
  have hkept := lookup_eraseIf (t := t) (k := k) fun k v => !p k v
  simp only [Bool.not_not] at hkept
  rw [← hkept]
  simp [AList.lookup, eraseIf]

@[simp] theorem lookup_mapVals (f : K → V → V) : (mapVals f t).lookup k = (t.lookup k).map (f k) := by
  ext w
  rw [← mem_entries_iff, mapVals, List.mem_map, Option.map_eq_some_iff]
  constructor
  · rintro ⟨⟨k', v⟩, hin, heq⟩
    cases heq
    exact ⟨v, mem_entries_iff.mp hin, rfl⟩
  · rintro ⟨v, hv, rfl⟩
    exact ⟨⟨k, v⟩, mem_entries_iff.mpr hv, rfl⟩

theorem lookup_of_erase {k' : K} (h : (t.erase k').lookup k = some v) : t.lookup k = some v := by
  by_cases hk : k = k'
  · rw [hk, lookup_erase] at h
    cases h
  · rw [lookup_erase_ne hk] at h
    exact h

theorem size_insert_le (t : Table K V) (k : K) (v : V) : size (t.insert k v) ≤ size t + 1 := by
  rw [size, entries_insert, length_cons]
  exact Nat.succ_le_succ (kerase_sublist k t.entries).length_le

theorem size_insert_of_none (h : t.lookup k = none) : size (t.insert k v) = size t + 1 := by
  rw [size, entries_insert_of_notMem (lookup_eq_none.mp h), length_cons]
  rfl

theorem size_erase_of_some (h : t.lookup k = some v) : size (t.erase k) + 1 = size t := by
  have hmem : k ∈ t.keys := mem_keys.mp (lookup_isSome.mp (isSome_of_eq_some h))
  have hpos := length_pos_of_mem hmem
  rw [size_eq_keys, size_eq_keys, keys_erase, length_erase_of_mem hmem]
  omega

theorem size_insert_of_some {w : V} (h : t.lookup k = some w) : size (t.insert k v) = size t := by
  have hmem : k ∈ t.keys := mem_keys.mp (lookup_isSome.mp (isSome_of_eq_some h))
  have hpos := length_pos_of_mem hmem
  rw [size_eq_keys, size_eq_keys, keys_insert, length_cons, length_erase_of_mem hmem]
  omega

theorem length_le_size (ks : List K) (hnodup : ks.Nodup) (h : ∀ k ∈ ks, (t.lookup k).isSome = true) :
    ks.length ≤ size t := by
  rw [size_eq_keys]
  exact (hnodup.subperm fun k hk => mem_keys.mp (lookup_isSome.mp (h k hk))).length_le

theorem census_lookup [Fintype K] {q : Option V → Prop} [DecidablePred q] (hnone : ¬ q none) :
    Census.census q (fun k => t.lookup k) = (t.entries.filter fun e => decide (q (some e.2))).length := by
  have hnodup : (t.entries.filter fun e => decide (q (some e.2))).keys.Nodup :=
    t.nodupKeys.sublist filter_sublist
  rw [← length_map (f := Sigma.fst), Census.census]
  refine (congrArg Finset.card ?_).trans (toFinset_card_of_nodup hnodup)
  ext k
  rw [Finset.mem_filter, List.mem_toFinset]
  constructor
  · rintro ⟨-, hq⟩
    cases hk : t.lookup k with
    | none => rw [hk] at hq; exact absurd hq hnone
    | some v =>
      rw [hk] at hq
      exact mem_map.mpr ⟨⟨k, v⟩, mem_filter.mpr ⟨mem_entries_iff.mpr hk, decide_eq_true hq⟩, rfl⟩
  · intro hk
    obtain ⟨e, he, rfl⟩ := mem_map.mp hk
    obtain ⟨hin, hq⟩ := mem_filter.mp he
    rw [mem_entries_iff.mp hin]
    exact ⟨Finset.mem_univ _, of_decide_eq_true hq⟩

end Table
