import Mathlib.Data.Finset.Card
import Mathlib.Logic.Function.Iterate

/-! A hash table with open addressing: the slots of a key are walked from its home until one stops the walk,
because it is empty or has the key. -/
namespace LinearProbing

open Function Finset

variable {I K V : Type}

/-- The walk, `fuel` slots at most. -/
def walk (next : I → I) (stop : I → Bool) : Nat → I → Option I
  | 0, _ => none
  | fuel + 1, i => if stop i then some i else walk next stop fuel (next i)

/-- The walk ends at the first slot that stops it. -/
theorem exists_of_walk {next : I → I} {stop : I → Bool} {fuel : Nat} {i p : I}
    (h : walk next stop fuel i = some p) :
    ∃ j < fuel, next^[j] i = p ∧ stop p = true ∧ ∀ j' < j, stop (next^[j'] i) = false := by
  induction fuel generalizing i with
  | zero => cases h
  | succ fuel ih =>
    rw [walk] at h
    by_cases hstop : stop i = true
    · rw [if_pos hstop, Option.some.injEq] at h
      cases h
      exact ⟨0, Nat.succ_pos fuel, rfl, hstop, fun j' hj' => absurd hj' (Nat.not_lt_zero j')⟩
    · rw [if_neg hstop] at h
      obtain ⟨j, hj, hp, hat_, hbefore⟩ := ih h
      refine ⟨j + 1, Nat.succ_lt_succ hj, hp, hat_, fun j' hj' => ?_⟩
      cases j' with
      | zero => exact Bool.eq_false_iff.mpr hstop
      | succ j' => exact hbefore j' (Nat.lt_of_succ_lt_succ hj')

theorem walk_of_first {next : I → I} {stop : I → Bool} {fuel j : Nat} {i : I} (hj : j < fuel)
    (hstop : stop (next^[j] i) = true) (hbefore : ∀ j' < j, stop (next^[j'] i) = false) :
    walk next stop fuel i = some (next^[j] i) := by
  induction fuel generalizing i j with
  | zero => exact absurd hj (Nat.not_lt_zero j)
  | succ fuel ih =>
    rw [walk]
    cases j with
    | zero => exact if_pos hstop
    | succ j =>
      have hfirst : stop i = false := hbefore 0 (Nat.succ_pos j)
      rw [if_neg (Bool.eq_false_iff.mp hfirst)]
      exact ih (Nat.lt_of_succ_lt_succ hj) hstop fun j' hj' => hbefore (j' + 1) (Nat.succ_lt_succ hj')

theorem exists_walk {next : I → I} {stop : I → Bool} {fuel j : Nat} {i : I} (hj : j < fuel)
    (hstop : stop (next^[j] i) = true) : ∃ p, walk next stop fuel i = some p := by
  induction j using Nat.strong_induction_on with
  | _ j ih =>
    by_cases hfirst : ∃ j' < j, stop (next^[j'] i) = true
    · obtain ⟨j', hj', hstop'⟩ := hfirst
      exact ih j' hj' (hj'.trans hj) hstop'
    · refine ⟨next^[j] i, walk_of_first hj hstop fun j' hj' => ?_⟩
      exact Bool.eq_false_iff.mpr fun hstop' => hfirst ⟨j', hj', hstop'⟩

section

variable [DecidableEq K]

def stops (slots : I → Option (K × V)) (k : K) (i : I) : Bool :=
  match slots i with
  | none => true
  | some e => decide (e.1 = k)

theorem stops_eq_true {slots : I → Option (K × V)} {k : K} {i : I} :
    stops slots k i = true ↔ slots i = none ∨ ∃ v, slots i = some (k, v) := by
  unfold stops
  cases hslot : slots i with
  | none => simp
  | some e =>
    obtain ⟨k', v⟩ := e
    simp

theorem stops_congr {slots slots' : I → Option (K × V)} {k : K} {i : I} (h : slots' i = slots i) :
    stops slots' k i = stops slots k i := by
  unfold stops
  rw [h]

/-- Every entry lies where the walk of its key comes to it. -/
def Chained (home : K → I) (next : I → I) (slots : I → Option (K × V)) : Prop :=
  ∀ i k v, slots i = some (k, v) →
    ∃ j, next^[j] (home k) = i ∧ ∀ j' < j, stops slots k (next^[j'] (home k)) = false

def Has (slots : I → Option (K × V)) (k : K) (v : V) : Prop := ∃ i, slots i = some (k, v)

namespace Chained

variable {home : K → I} {next : I → I} {slots : I → Option (K × V)} {fuel : Nat} {k k' : K} {v v' : V} {p : I}

theorem empty : Chained home next (fun _ => (none : Option (K × V))) := fun _ _ _ hslot => (nomatch hslot)

theorem walk_at {i : I} (h : Chained home next slots) (hwalk : walk next (stops slots k) fuel (home k) = some p)
    (hslot : slots i = some (k, v)) : i = p := by
  obtain ⟨j, -, hp, hstop, hbefore⟩ := exists_of_walk hwalk
  obtain ⟨j₀, hi, hbefore₀⟩ := h i k v hslot
  have hstop₀ : stops slots k i = true := stops_eq_true.mpr (.inr ⟨v, hslot⟩)
  obtain hlt | rfl | hgt := Nat.lt_trichotomy j j₀
  · have hnot := hbefore₀ j hlt
    rw [hp, hstop] at hnot
    cases hnot
  · exact hi.symm.trans hp
  · have hnot := hbefore j₀ hgt
    rw [hi, hstop₀] at hnot
    cases hnot

theorem walk_has (h : Chained home next slots) (hwalk : walk next (stops slots k) fuel (home k) = some p) :
    slots p = some (k, v) ↔ Has slots k v := by
  refine ⟨fun hslot => ⟨p, hslot⟩, fun ⟨i, hslot⟩ => ?_⟩
  rw [← h.walk_at hwalk hslot, hslot]

theorem walk_none (h : Chained home next slots) (hwalk : walk next (stops slots k) fuel (home k) = some p) :
    slots p = none ↔ ∀ v, ¬ Has slots k v := by
  constructor
  · intro hslot v hhas
    rw [(h.walk_has hwalk).mpr hhas] at hslot
    cases hslot
  · intro hnot
    obtain ⟨j, -, hp, hstop, -⟩ := exists_of_walk hwalk
    obtain hslot | ⟨v, hslot⟩ := stops_eq_true.mp hstop
    · exact hslot
    · exact absurd ⟨p, hslot⟩ (hnot v)

variable [DecidableEq I]

theorem put (h : Chained home next slots) (hwalk : walk next (stops slots k) fuel (home k) = some p) (v : V) :
    Chained home next (update slots p (some (k, v))) := by
  obtain ⟨j, -, hp, hstop, hbefore⟩ := exists_of_walk hwalk
  intro i k' v' hslot
  by_cases hi : i = p
  · rw [hi, update_self] at hslot
    cases hslot
    refine ⟨j, hp.trans hi.symm, fun j' hj' => ?_⟩
    rw [stops_congr (update_of_ne ?_ ..)]
    · exact hbefore j' hj'
    · intro heq
      have hnot := hbefore j' hj'
      rw [heq, hstop] at hnot
      cases hnot
  · rw [update_of_ne hi] at hslot
    obtain ⟨j₀, hi₀, hbefore₀⟩ := h i k' v' hslot
    refine ⟨j₀, hi₀, fun j' hj' => ?_⟩
    by_cases heq : next^[j'] (home k') = p
    · -- the slot that is written lies on the way to another key's entry
      rw [heq, stops, update_self]
      refine decide_eq_false fun hk => ?_
      have hnot := hbefore₀ j' hj'
      rw [heq, ← hk, hstop] at hnot
      cases hnot
    · rw [stops_congr (update_of_ne heq ..)]
      exact hbefore₀ j' hj'

theorem has_put (h : Chained home next slots) (hwalk : walk next (stops slots k) fuel (home k) = some p) :
    Has (update slots p (some (k, v))) k' v' ↔ if k' = k then v' = v else Has slots k' v' := by
  constructor
  · rintro ⟨i, hslot⟩
    by_cases hi : i = p
    · rw [hi, update_self] at hslot
      cases hslot
      rw [if_pos rfl]
    · rw [update_of_ne hi] at hslot
      by_cases hk : k' = k
      · rw [hk] at hslot
        exact absurd (h.walk_at hwalk hslot) hi
      · rw [if_neg hk]
        exact ⟨i, hslot⟩
  · intro hhas
    by_cases hk : k' = k
    · rw [if_pos hk] at hhas
      exact ⟨p, by rw [update_self, hk, hhas]⟩
    · rw [if_neg hk] at hhas
      obtain ⟨i, hslot⟩ := hhas
      refine ⟨i, ?_⟩
      rw [update_of_ne ?_, hslot]
      rintro rfl
      obtain ⟨j, -, -, hstop, -⟩ := exists_of_walk hwalk
      obtain hnone | ⟨w, hsame⟩ := stops_eq_true.mp hstop
      · rw [hnone] at hslot
        cases hslot
      · rw [hsame] at hslot
        cases hslot
        exact hk rfl

end Chained

end

section

variable {n : Nat} {slots : Nat → Option (K × V)} {p : Nat}

/-- How many of the first `n` slots have an entry. -/
def occupied (slots : Nat → Option (K × V)) (n : Nat) : Nat :=
  ((Finset.range n).filter fun i => (slots i).isSome = true).card

theorem occupied_empty : occupied (fun _ => (none : Option (K × V))) n = 0 := by
  rw [occupied, card_eq_zero, filter_eq_empty_iff]
  exact fun _ _ => Bool.false_ne_true

theorem occupied_put (hp : p < n) (e : K × V) :
    occupied (update slots p (some e)) n = if slots p = none then occupied slots n + 1 else occupied slots n := by
  have hset : ((Finset.range n).filter fun i => (update slots p (some e) i).isSome = true) =
      insert p ((Finset.range n).filter fun i => (slots i).isSome = true) := by
    ext i
    rw [mem_insert, mem_filter, mem_filter, mem_range]
    by_cases hi : i = p
    · rw [hi, update_self]
      simp [hp]
    · rw [update_of_ne hi]
      simp [hi]
  rw [occupied, hset]
  split
  · next hnone => rw [card_insert_of_notMem (by simp [hnone]), occupied]
  · next hsome =>
    rw [insert_eq_of_mem, occupied]
    rw [mem_filter, mem_range]
    exact ⟨hp, Option.isSome_iff_ne_none.mpr hsome⟩

theorem exists_empty (h : occupied slots n < n) : ∃ i < n, slots i = none := by
  by_contra hfull
  refine absurd h (not_lt.mpr ?_)
  rw [occupied, filter_true_of_mem, card_range]
  intro i hi
  rw [Option.isSome_iff_ne_none]
  exact fun hnone => hfull ⟨i, mem_range.mp hi, hnone⟩

end

section

variable {n : Nat}

theorem iterate_succ_mod {h j : Nat} : (fun i => (i + 1) % n)^[j] (h % n) = (h + j) % n := by
  induction j with
  | zero => rfl
  | succ j ih => rw [Function.iterate_succ_apply', ih, Nat.mod_add_mod, Nat.add_assoc]

theorem exists_iterate {i h : Nat} (hi : i < n) : ∃ j < n, (fun i => (i + 1) % n)^[j] (h % n) = i := by
  have hn : 0 < n := Nat.zero_lt_of_lt hi
  refine ⟨(i + n - h % n) % n, Nat.mod_lt _ hn, ?_⟩
  have hlt := Nat.mod_lt h hn
  rw [iterate_succ_mod, ← Nat.mod_add_mod h, Nat.add_mod_mod]
  rw [show h % n + (i + n - h % n) = i + n by omega, Nat.add_mod_right, Nat.mod_eq_of_lt hi]

end

end LinearProbing
