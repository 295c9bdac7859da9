import Mathlib.Data.Prod.Lex
import Quark.EffectivelyOnce
import Quark.Lib.Argmax

/-! `placement.hpp`: the node of an actor is the one with the highest weight for its hash. -/
open List Option

open UInt64

namespace Quark

theorem xor_shiftRight_injective {k : UInt64} (hk : 0 < k.toNat) (hk' : k.toNat < 64) :
    Function.Injective fun x : UInt64 => x ^^^ (x >>> k) := by
  intro x y h
  -- the difference of the two is its own shift
  have hself : x ^^^ y = (x ^^^ y) >>> k := by
    have hdiff : (x ^^^ y) ^^^ ((x ^^^ y) >>> k) = 0 := by
      rw [UInt64.shiftRight_xor]
      calc (x ^^^ y) ^^^ ((x >>> k) ^^^ (y >>> k)) = (x ^^^ (x >>> k)) ^^^ (y ^^^ (y >>> k)) := by ac_rfl
        _ = 0 := by rw [show x ^^^ (x >>> k) = y ^^^ (y >>> k) from h, UInt64.xor_self]
    exact UInt64.xor_eq_zero_iff.mp hdiff
  have hzero : (x ^^^ y).toNat = 0 := by
    have hnat : (x ^^^ y).toNat = (x ^^^ y).toNat / 2 ^ k.toNat := by
      conv => lhs; rw [hself]
      rw [UInt64.toNat_shiftRight, Nat.mod_eq_of_lt hk', Nat.shiftRight_eq_div_pow]
    by_contra hne
    have hlt := Nat.div_lt_self (pos_of_ne_zero hne) (Nat.one_lt_two_pow (Nat.pos_iff_ne_zero.mp hk))
    omega
  exact UInt64.xor_eq_zero_iff.mp (UInt64.toNat_inj.mp hzero)

theorem mul_injective {c d : UInt64} (h : c * d = 1) : Function.Injective fun x : UInt64 => x * c := by
  intro x y hxy
  calc x = x * c * d := by rw [UInt64.mul_assoc, h, UInt64.mul_one]
    _ = y * c * d := by rw [show x * c = y * c from hxy]
    _ = y := by rw [UInt64.mul_assoc, h, UInt64.mul_one]

theorem splitmix64_injective : Function.Injective splitmix64 := by
  intro x y h
  unfold splitmix64 at h
  dsimp only at h
  have hlast := xor_shiftRight_injective (by decide) (by decide) h
  have hsecond := xor_shiftRight_injective (k := 27) (by decide) (by decide)
    (mul_injective (d := 0x319642B2D24D8EC3) (by decide) hlast)
  have hfirst := xor_shiftRight_injective (k := 30) (by decide) (by decide)
    (mul_injective (d := 0x96DE1B173F119089) (by decide) hsecond)
  exact (UInt64.add_left_inj _).mp hfirst

end Quark

namespace Quark.Placement

abbrev NodeId := UInt64

def rendezvousWeight (n : NodeId) (keyHash : UInt64) : UInt64 := splitmix64 (splitmix64 n ^^^ keyHash)

section
variable {S : Type} [LT S] [DecidableLT S] [BEq S] (weight : NodeId → S)

def better (best : Option (NodeId × S)) (n : NodeId) : Option (NodeId × S) :=
  match best with
  | none => some (n, weight n)
  | some (best, bestW) =>
    if bestW < weight n ∨ weight n == bestW ∧ best < n then some (n, weight n) else some (best, bestW)

def winner (nodes : List NodeId) : Option NodeId := (nodes.foldl (better weight) none).map Prod.fst

variable {weight} {nodes : List NodeId} {n : NodeId}

theorem better_cases (weight : NodeId → S) (best : Option (NodeId × S)) (n : NodeId) :
    better weight best n = some (n, weight n) ∨ ∃ b, best = some b ∧ better weight best n = some b := by
  cases best with
  | none => exact .inl rfl
  | some b =>
    unfold better
    by_cases h : b.2 < weight n ∨ weight n == b.2 ∧ b.1 < n
    · exact .inl (if_pos h)
    · exact .inr ⟨b, rfl, if_neg h⟩

theorem scan_mem {nodes : List NodeId} {b : NodeId × S} (h : nodes.foldl (better weight) none = some b) :
    b.1 ∈ nodes := by
  induction nodes using List.reverseRecOn generalizing b with
  | nil => cases h
  | append_singleton nodes n ih =>
    rw [foldl_append, foldl_cons, foldl_nil] at h
    obtain hnew | ⟨old, hold, hkept⟩ := better_cases weight (nodes.foldl (better weight) none) n
    · rw [hnew, some.injEq] at h
      rw [← h]
      exact mem_append_right _ (mem_singleton.mpr rfl)
    · rw [hkept, some.injEq] at h
      rw [← h]
      exact mem_append_left _ (ih hold)

theorem winner_mem (h : winner weight nodes = some n) : n ∈ nodes := by
  obtain ⟨b, hb, rfl⟩ := map_eq_some_iff.mp h
  exact scan_mem hb

theorem winner_eq_none : winner weight nodes = none ↔ nodes = [] := by
  rw [winner, map_eq_none_iff]
  cases nodes using List.reverseRecOn with
  | nil => exact iff_of_true rfl rfl
  | append_singleton nodes n =>
    rw [foldl_append, foldl_cons, foldl_nil]
    refine iff_of_false ?_ (append_ne_nil_of_right_ne_nil _ (cons_ne_nil _ _))
    obtain hnew | ⟨old, -, hkept⟩ := better_cases weight (nodes.foldl (better weight) none) n
    · rw [hnew]
      exact some_ne_none _
    · rw [hkept]
      exact some_ne_none _

end

def placeHash (keyHash : UInt64) (nodes : List NodeId) : Option NodeId :=
  winner (fun n => rendezvousWeight n keyHash) nodes

def place (id : ActorId) (nodes : List NodeId) : Option NodeId := placeHash id.hash nodes

variable {keyHash : UInt64} {nodes : List NodeId}

theorem rendezvousWeight_injective (keyHash : UInt64) : Function.Injective fun n => rendezvousWeight n keyHash := by
  intro a b h
  have hmixed : splitmix64 a ^^^ keyHash = splitmix64 b ^^^ keyHash := splitmix64_injective h
  refine splitmix64_injective ?_
  calc splitmix64 a = splitmix64 a ^^^ keyHash ^^^ keyHash := by
        rw [UInt64.xor_assoc, UInt64.xor_self, UInt64.xor_zero]
    _ = splitmix64 b ^^^ keyHash ^^^ keyHash := by rw [hmixed]
    _ = splitmix64 b := by rw [UInt64.xor_assoc, UInt64.xor_self, UInt64.xor_zero]

def score (keyHash : UInt64) (n : NodeId) : Nat ×ₗ Nat := toLex ((rendezvousWeight n keyHash).toNat, n.toNat)

theorem score_injective (keyHash : UInt64) : Function.Injective (score keyHash) := by
  intro a b h
  exact UInt64.toNat_inj.mp (Prod.mk.inj (toLex.injective h)).2

theorem placeHash_eq (keyHash : UInt64) (nodes : List NodeId) : placeHash keyHash nodes = nodes.argmax
    (score keyHash) := by
  have hscan : nodes.foldl (better fun n => rendezvousWeight n keyHash) none =
      (nodes.argmax (score keyHash)).map fun n => (n, rendezvousWeight n keyHash) := by
    induction nodes using List.reverseRecOn with
    | nil => rfl
    | append_singleton nodes n ih =>
      rw [foldl_append, foldl_cons, foldl_nil, ih, argmax_concat]
      cases nodes.argmax (score keyHash) with
      | none => rfl
      | some best =>
        simp only [map_some, better, score, Prod.Lex.toLex_lt_toLex, ← UInt64.lt_iff_toNat_lt, UInt64.toNat_inj,
          beq_iff_eq]
        by_cases h : rendezvousWeight best keyHash < rendezvousWeight n keyHash ∨
            rendezvousWeight n keyHash = rendezvousWeight best keyHash ∧ best < n
        · rw [if_pos h, if_pos (h.imp_right (And.imp_left Eq.symm))]
          rfl
        · rw [if_neg h, if_neg fun h' => h (h'.imp_right (And.imp_left Eq.symm))]
          rfl
  rw [placeHash, winner, hscan, Option.map_map, show (Prod.fst ∘ fun n => (n, rendezvousWeight n keyHash)) = id
    from rfl, Option.map_id, id]

theorem placeHash_congr {nodes' : List NodeId} (h : ∀ m, m ∈ nodes' ↔ m ∈ nodes) :
    placeHash keyHash nodes' = placeHash keyHash nodes := by
  rw [placeHash_eq, placeHash_eq]
  exact Argmax.argmax_congr (score_injective keyHash) h

theorem placeHash_insert (keyHash : UInt64) {n : NodeId} {larger : List NodeId}
    (h : ∀ m, m ∈ larger ↔ m = n ∨ m ∈ nodes) :
    placeHash keyHash larger = some n ∨ placeHash keyHash larger = placeHash keyHash nodes := by
  rw [placeHash_eq, placeHash_eq]
  exact Argmax.argmax_insert (score_injective keyHash) h

theorem placeHash_subset {n : NodeId} {fewer : List NodeId} (hn : n ∈ fewer) (hfewer : fewer ⊆ nodes)
    (h : placeHash keyHash nodes = some n) : placeHash keyHash fewer = some n := by
  rw [placeHash_eq] at h ⊢
  exact Argmax.argmax_subset (score_injective keyHash) hn hfewer h

theorem placeHash_eq_none : placeHash keyHash nodes = none ↔ nodes = [] := winner_eq_none

theorem placeHash_mem {n : NodeId} (h : placeHash keyHash nodes = some n) : n ∈ nodes := winner_mem h

end Quark.Placement
