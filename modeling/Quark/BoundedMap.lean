import Mathlib.Data.List.AList

/-! `detail::BoundedMap` of `delivery.hpp`: a map with a cap that evicts what was touched least recently. -/
namespace Quark

open List AList

variable {K V : Type}

/-- The entries, most recently touched first. -/
structure BoundedMap (K V : Type) where
  cap : Nat := 0
  evictions : Nat := 0
  entries : AList (fun _ : K => V) := ∅

def takeEntries (m : AList (fun _ : K => V)) (n : Nat) : AList (fun _ : K => V) :=
  ⟨m.entries.take n, m.nodupKeys.sublist (take_sublist n m.entries)⟩

namespace BoundedMap

def trim (m : BoundedMap K V) : BoundedMap K V :=
  if m.cap = 0 then m
  else { m with
    entries := takeEntries m.entries m.cap
    evictions := m.evictions + (m.entries.entries.length - m.cap) }

def setCap (m : BoundedMap K V) (cap : Nat) : BoundedMap K V := { m with cap }.trim

theorem trim_uncapped {m : BoundedMap K V} (hcap : m.cap = 0) : m.trim = m := by
  unfold trim
  rw [if_pos hcap]

@[simp] theorem cap_trim {m : BoundedMap K V} : m.trim.cap = m.cap := by
  unfold trim
  split <;> rfl

variable [DecidableEq K]

def find (m : BoundedMap K V) (k : K) : Option V := m.entries.lookup k

/-- Insert `init` if absent, mark most recent, enforce the cap, and assign through the reference. -/
def touch (m : BoundedMap K V) (k : K) (init : V) (assign : V → V) : BoundedMap K V :=
  { m with entries := m.entries.insert k (assign ((m.find k).getD init)) }.trim

def size (m : BoundedMap K V) : Nat := m.entries.entries.length

section

variable {m : BoundedMap K V} {k : K} {v init : V} {assign : V → V}

theorem lookup_of_take {a : AList (fun _ : K => V)} {n : Nat} (h : (takeEntries a n).lookup k = some v) :
    a.lookup k = some v := by
  rw [← Option.mem_def, mem_lookup_iff] at h ⊢
  exact mem_of_mem_take h

theorem find_trim (h : m.trim.find k = some v) : m.find k = some v := by
  unfold trim at h
  split at h
  · exact h
  · exact lookup_of_take h

@[simp] theorem find_touch : (m.touch k init assign).find k = some (assign ((m.find k).getD init)) := by
  unfold touch trim
  split
  · exact lookup_insert _
  · next hcap =>
    rw [find, ← Option.mem_def, mem_lookup_iff]
    change _ ∈ List.take m.cap (AList.insert k _ m.entries).entries
    rw [entries_insert]
    obtain ⟨n, hn⟩ := Nat.exists_eq_succ_of_ne_zero hcap
    rw [hn, take_succ_cons]
    exact mem_cons_self

theorem find_touch_ne {k' : K} (hne : k' ≠ k) (h : (m.touch k init assign).find k' = some v) :
    m.find k' = some v := by
  have h := find_trim h
  rwa [find, lookup_insert_ne hne] at h

theorem find_touch_uncapped {k' : K} (hcap : m.cap = 0) (hne : k' ≠ k) :
    (m.touch k init assign).find k' = m.find k' := by
  unfold touch
  rw [trim_uncapped (by exact hcap), find, lookup_insert_ne hne]
  rfl

@[simp] theorem cap_touch : (m.touch k init assign).cap = m.cap := cap_trim

end

end BoundedMap

end Quark
