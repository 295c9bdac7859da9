import Mathlib.Algebra.BigOperators.Fin
import Mathlib.Tactic.Ring
import Quark.RunQueue

/-! `WeightedDRR<W...>`: deficits of 32 bits, and a scan that starts at the band served last. -/
namespace Quark.RunQueue

open Function List Machine Vyukov
open Engine (lowest)

structure WeightedDRR (k : Nat) where
  deficit : Fin k → Int := fun _ => 0
  rr : Nat := 0

namespace WeightedDRR

variable {k : Nat} (weights : Fin k → UInt16)

/-- The scan of `pick`: the deficits after it and the band found. A sum that is no `int` is undefined. -/
def scan (mask : Fin k → Bool) : List (Fin k) → (Fin k → Int) → Option ((Fin k → Int) × Option (Fin k))
  | [], deficit => some (deficit, none)
  | b :: rest, deficit =>
    if mask b then
      let d := deficit b + (weights b).toNat
      if d < 2 ^ 31 then
        if 0 < d then some (update deficit b (d - 1), some b)
        else scan mask rest (update deficit b d)
      else none
    else scan mask rest deficit

/-- `pick<K>`; without a band whose deficit is positive the top one starts anew. -/
def pick (r : WeightedDRR k) (mask : Fin k → Bool) : Option (WeightedDRR k × Fin k) :=
  match scan weights mask ((List.finRange k).rotate r.rr) r.deficit with
  | none => none
  | some (deficit, some b) => some ({ deficit, rr := b }, b)
  | some (deficit, none) =>
    (lowest mask).map fun top =>
      ({ deficit := update deficit top ((weights top).toNat - 1), rr := top }, top)

variable {weights} {r : WeightedDRR k} {b : Fin k} {mask : Fin k → Bool}

theorem rotate_head (b : Fin k) : ∃ rest, (List.finRange k).rotate b = b :: rest := by
  have hb : (b : Nat) < (List.finRange k).length := by rw [length_finRange]; exact b.isLt
  rw [rotate_eq_drop_append_take (le_of_lt hb), drop_eq_getElem_cons hb, getElem_finRange]
  exact ⟨_, rfl⟩

/-- The band served last is paid again before it is scanned, so as long as it has an item it is served again: with
a deficit that grows by the rest of its weight. -/
theorem pick_stays (mask : Fin k → Bool) (hr : r.rr = b) (hb : mask b = true) (hweight : 0 < (weights b).toNat)
    (hdeficit : 0 ≤ r.deficit b) : r.pick weights mask =
      if r.deficit b + (weights b).toNat < 2 ^ 31 then
        some ({ deficit := update r.deficit b (r.deficit b + (weights b).toNat - 1), rr := b }, b)
      else none := by
  obtain ⟨rest, hrest⟩ := rotate_head b
  have hpos : 0 < r.deficit b + (weights b).toNat := by omega
  rw [pick, hr, hrest]
  by_cases hfits : r.deficit b + (weights b).toNat < 2 ^ 31
  · simp only [scan, if_pos hb, if_pos hfits, if_pos hpos]
  · simp only [scan, if_pos hb, if_neg hfits]

end WeightedDRR

variable {S A : Type} [DecidableEq S] {k : Nat}

/-- Every select finds an item in every band. -/
def AllBusy (s : State S A k) (call : Call S) : Prop := call = .select → ∀ b, (s.q.bands b).hasWork = true

instance (s : State S A k) (call : Call S) : Decidable (AllBusy s call) :=
  inferInstanceAs (Decidable (call = .select → ∀ b, (s.q.bands b).hasWork = true))

variable [NeZero k]

/-- As long as no band runs empty, a select is defined, and of a number of selects each band has its share up to a
constant; the shares are multiplied by the sum of the weights. -/
def Proportional (weights : Fin k → UInt16) (band : S → UInt16) : Prop :=
  ∃ C : Nat, ∀ s, Reachable (step (WeightedDRR.pick weights) band) { q := { anti := {} } } s →
    ((∀ b, (s.q.bands b).hasWork = true) → (select (WeightedDRR.pick weights) s.q).isSome) ∧
    ∀ calls s', Machine.run (guarded (step (WeightedDRR.pick weights) band) AllBusy) s calls = some s' →
      ∀ b : Fin k, (((inBand band b s'.selected).length - (inBand band b s.selected).length : Int) *
        (∑ c, (weights c).toNat : Nat) - (weights b).toNat * calls.count .select).natAbs ≤ C

section

variable {band : S → UInt16} {item : Fin k → S}

theorem reach_filled (pick : A → (Fin k → Bool) → Option (A × Fin k)) (anti : A)
    (hitem : ∀ b, bandOf (band (item b)) = b) {bands : List (Fin k)} (hbands : bands.Nodup) :
    ∃ s, Reachable (step pick band) { q := { anti } } s ∧ s.q.anti = anti ∧ s.selected = [] ∧
      Accounted band s fun b => if b ∈ bands then [item b] else [] := by
  induction bands with
  | nil => exact ⟨_, .start, rfl, rfl, Accounted.initial anti⟩
  | cons c bands ih =>
    obtain ⟨hnew, hbands⟩ := nodup_cons.mp hbands
    obtain ⟨s, hs, hanti, hsel, hacc⟩ := ih hbands
    have hempty : (if c ∈ bands then [item c] else []) = [] := if_neg hnew
    obtain ⟨s', hstep⟩ := hacc.enqueue_some pick (item c) (by rw [hitem, hempty]; exact not_mem_nil)
    obtain ⟨hanti', hsel', hacc'⟩ := hacc.enqueue hstep
    refine ⟨s', .step hs trivial hstep, hanti'.trans hanti, hsel'.trans hsel, ?_⟩
    rw [hitem, hempty] at hacc'
    convert hacc' using 2 with b
    by_cases hb : b = c
    · subst hb
      rw [if_pos mem_cons_self, update_self]
      rfl
    · rw [update_of_ne hb]
      simp only [mem_cons, hb, false_or]

theorem Accounted.hasWork {s : State S A k} {items : Fin k → List S} (h : Accounted band s items) (b : Fin k) :
    (s.q.bands b).hasWork = decide (items b ≠ []) := congrFun h.1.mask b

end

section

variable {weights : Fin k → UInt16} {band : S → UInt16} {item : Fin k → S}
  {s s' : State S (WeightedDRR k) k} {n : Nat}

/-- Each band has one item, and after `n` selects all of them went to the top one. -/
structure Cycled (weights : Fin k → UInt16) (band : S → UInt16) (item : Fin k → S) (s : State S (WeightedDRR k) k)
    (n : Nat) : Prop where
  reachable : Reachable (step (WeightedDRR.pick weights) band) { q := { anti := {} } } s
  accounted : Accounted band s fun b => [item b]
  rr : s.q.anti.rr = 0
  deficit : s.q.anti.deficit 0 = n * ((weights 0).toNat - 1 : Int)
  others : ∀ b : Fin k, b ≠ 0 → inBand band b s.selected = []

theorem Cycled.busy (h : Cycled weights band item s n) (b : Fin k) : (s.q.bands b).hasWork = true := by
  rw [h.accounted.hasWork]
  exact decide_eq_true (cons_ne_nil _ _)

/-- The sum in the scan, and the item of the top band selected and enqueued again. -/
theorem Cycled.next (h : Cycled weights band item s n) (hitem : ∀ b, bandOf (band (item b)) = b)
    (hweight : 0 < (weights 0).toNat) (hdefined : (select (WeightedDRR.pick weights) s.q).isSome) :
    n * ((weights 0).toNat - 1 : Int) + (weights 0).toNat < 2 ^ 31 ∧ ∃ s', Cycled weights band item s' (n + 1) ∧
      Machine.run (guarded (step (WeightedDRR.pick weights) band) AllBusy) s [.select, .enqueue (item 0)] =
        some s' := by
  have hmask : decide ([item (0 : Fin k)] ≠ []) = true := decide_eq_true (cons_ne_nil _ _)
  have hpos : 0 ≤ s.q.anti.deficit 0 := by
    rw [h.deficit]
    exact Int.mul_nonneg (by omega) (by omega)
  have hpick := WeightedDRR.pick_stays (fun b => decide ([item b] ≠ [])) h.rr hmask hweight hpos
  by_cases hfits : s.q.anti.deficit 0 + (weights 0).toNat < 2 ^ 31
  · refine ⟨h.deficit ▸ hfits, ?_⟩
    rw [if_pos hfits] at hpick
    obtain ⟨mid, hselect, hanti, henq, hsel, hacc⟩ := h.accounted.select hpick rfl
    obtain ⟨s', henqueue⟩ := hacc.enqueue_some (WeightedDRR.pick weights) (item 0)
      (by rw [hitem, update_self]; exact not_mem_nil)
    obtain ⟨hanti', hsel', hacc'⟩ := hacc.enqueue henqueue
    have hagain : update (update (fun b => [item b]) 0 []) (bandOf (band (item 0)))
        (update (fun b => [item b]) 0 [] (bandOf (band (item 0))) ++ [item 0]) = fun b : Fin k => [item b] := by
      rw [hitem, update_self, update_idem, nil_append]
      exact update_eq_self 0 fun b => [item b]
    rw [hagain] at hacc'
    refine ⟨s', ⟨.step (.step h.reachable trivial hselect) trivial henqueue, hacc', ?_, ?_, fun b hb => ?_⟩, ?_⟩
    · rw [hanti', hanti]
      rfl
    · rw [hanti', hanti]
      simp only [update_self]
      rw [h.deficit]
      push_cast
      ring
    · rw [hsel', hsel, inBand_append_ne _ _ (by rw [hitem]; exact Ne.symm hb), h.others b hb]
    · have hbusy : AllBusy s .select := fun _ => h.busy
      have hfree : AllBusy mid (.enqueue (item 0)) := fun heq => nomatch heq
      refine run_cons.mpr ⟨mid, ?_, run_cons.mpr ⟨s', ?_, rfl⟩⟩
      · rw [guarded, if_pos hbusy, hselect]
      · rw [guarded, if_pos hfree, henqueue]
  · rw [if_neg hfits] at hpick
    rw [h.accounted.1.select_undefined (cons_ne_nil (item 0) []) hpick] at hdefined
    cases hdefined

theorem Cycled.run (h : Cycled weights band item s 0) (hitem : ∀ b, bandOf (band (item b)) = b)
    (hweight : 0 < (weights 0).toNat)
    (hdefined : ∀ s, Reachable (step (WeightedDRR.pick weights) band) { q := { anti := {} } } s →
      (∀ b, (s.q.bands b).hasWork = true) → (select (WeightedDRR.pick weights) s.q).isSome) (n : Nat) :
    ∃ calls s', Cycled weights band item s' n ∧ calls.count .select = n ∧
      Machine.run (guarded (step (WeightedDRR.pick weights) band) AllBusy) s calls = some s' := by
  induction n with
  | zero => exact ⟨[], s, h, rfl, rfl⟩
  | succ n ih =>
    obtain ⟨calls, mid, hmid, hcount, hrun⟩ := ih
    obtain ⟨-, s', hs', hround⟩ := hmid.next hitem hweight (hdefined mid hmid.reachable hmid.busy)
    refine ⟨calls ++ [.select, .enqueue (item 0)], s', hs', ?_, run_append.mpr ⟨mid, hrun, hround⟩⟩
    rw [count_append, hcount]
    rfl

theorem Proportional.single (h : Proportional weights band) (item : Fin k → S)
    (hitem : ∀ b, bandOf (band (item b)) = b)
    (hweights : ∀ b, 0 < (weights b).toNat) : k = 1 ∧ ∀ b, weights b = 1 := by
  obtain ⟨C, hshare⟩ := h
  obtain ⟨s, hs, hanti, hsel, hacc⟩ := reach_filled (WeightedDRR.pick weights) {} hitem (nodup_finRange k)
  simp only [mem_finRange, if_true] at hacc
  have hstart : Cycled weights band item s 0 :=
    ⟨hs, hacc, by rw [hanti], by rw [hanti, Nat.cast_zero, Int.zero_mul], fun b _ => by rw [hsel]; rfl⟩
  have hdefined := fun s hs => (hshare s hs).1
  have hone : (weights 0).toNat = 1 := by
    -- a deficit that grows at all gets past every bound
    obtain ⟨-, s', hs', -⟩ := hstart.run hitem (hweights 0) hdefined (2 ^ 31)
    obtain ⟨hfits, -⟩ := hs'.next hitem (hweights 0) (hdefined s' hs'.reachable hs'.busy)
    have := hweights 0
    push_cast at hfits
    omega
  have htop : ∀ b : Fin k, b = 0 := by
    intro b
    by_contra hb
    obtain ⟨calls, s', hs', hcount, hrun⟩ := hstart.run hitem (hweights 0) hdefined (C + 1)
    have hbound := (hshare s hs).2 calls s' hrun b
    rw [hs'.others b hb, hstart.others b hb, hcount, length_nil, Int.sub_self, Int.zero_mul, Int.zero_sub,
      Int.natAbs_neg, Int.natAbs_mul, Int.natAbs_natCast, Int.natAbs_natCast] at hbound
    have hmul := Nat.le_mul_of_pos_left (C + 1) (hweights b)
    omega
  refine ⟨?_, fun b => ?_⟩
  · have hk := Nat.pos_of_neZero k
    by_contra hne
    have := congrArg Fin.val (htop ⟨1, by omega⟩)
    simp at this
  · rw [htop b]
    exact UInt16.toNat_inj.mp hone

end

section

variable {weights : Fin 1 → UInt16} {band : S → UInt16} {s s' : State S (WeightedDRR 1) 1} {items : Fin 1 → List S}

local instance oneBand : NeZero 1 := ⟨Nat.one_ne_zero⟩

def Spent (band : S → UInt16) (s : State S (WeightedDRR 1) 1) : Prop :=
  (∃ items, Accounted band s items) ∧ s.q.anti.rr = 0 ∧ s.q.anti.deficit 0 = 0

theorem Spent.select (hweight : weights 0 = 1) (hacc : Accounted band s items) (hrr : s.q.anti.rr = 0)
    (hdeficit : s.q.anti.deficit 0 = 0) (hitems : items 0 ≠ []) :
    (select (WeightedDRR.pick weights) s.q).isSome ∧ ∃ s', step (WeightedDRR.pick weights) band s .select = some s' ∧
      Spent band s' ∧ s'.selected.length = s.selected.length + 1 := by
  obtain ⟨x, rest, hx⟩ := exists_cons_of_ne_nil hitems
  have hpos : 0 < (weights 0).toNat := by rw [hweight]; decide
  have hpick := WeightedDRR.pick_stays (fun b => decide (items b ≠ [])) hrr (decide_eq_true hitems) hpos hdeficit.ge
  rw [hdeficit, hweight, if_pos (by decide)] at hpick
  obtain ⟨q', hselect, -⟩ := hacc.1.select_item hpick hx
  obtain ⟨s', hstep, hanti, -, hsel, hacc'⟩ := hacc.select hpick hx
  refine ⟨by rw [hselect]; rfl, s', hstep, ⟨⟨_, hacc'⟩, by rw [hanti]; rfl, ?_⟩, by rw [hsel, length_append]; rfl⟩
  rw [hanti]
  simp only [update_self]
  rfl

theorem Spent.step {call : Call S} (hweight : weights 0 = 1) (h : Spent band s)
    (hstep : step (WeightedDRR.pick weights) band s call = some s') :
    Spent band s' ∧ (AllBusy s call → s'.selected.length = s.selected.length + [call].count .select) := by
  obtain ⟨⟨items, hacc⟩, hrr, hdeficit⟩ := h
  cases call with
  | enqueue x =>
    obtain ⟨hanti, hsel, hacc'⟩ := hacc.enqueue hstep
    exact ⟨⟨⟨_, hacc'⟩, by rw [hanti, hrr], by rw [hanti, hdeficit]⟩, fun _ => by rw [hsel]; rfl⟩
  | select =>
    by_cases hitems : items 0 = []
    · have hempty : ∀ b, items b = [] := fun b => Subsingleton.elim 0 b ▸ hitems
      rw [hacc.select_empty hempty] at hstep
      cases hstep
      refine ⟨⟨⟨items, hacc⟩, hrr, hdeficit⟩, fun hbusy => ?_⟩
      have hwork := hbusy rfl 0
      rw [hacc.hasWork, hitems] at hwork
      cases hwork
    · obtain ⟨-, s'', hselect, hspent, hlen⟩ := Spent.select hweight hacc hrr hdeficit hitems
      rw [hselect] at hstep
      cases hstep
      exact ⟨hspent, fun _ => hlen⟩

theorem Spent.run (hweight : weights 0 = 1) (h : Spent band s) {calls : List (Call S)}
    (hrun : Machine.run (guarded (RunQueue.step (WeightedDRR.pick weights) band) AllBusy) s calls = some s') :
    s'.selected.length = s.selected.length + calls.count .select := by
  induction calls generalizing s with
  | nil =>
    cases hrun
    rfl
  | cons call calls ih =>
    obtain ⟨mid, hstep, hrest⟩ := run_cons.mp hrun
    rw [guarded] at hstep
    split_ifs at hstep with hbusy
    obtain ⟨hmid, hlen⟩ := h.step hweight hstep
    have hcount : (call :: calls).count Call.select = [call].count .select + calls.count .select := by
      rw [← count_append]
      rfl
    rw [ih hmid hrest, hlen hbusy, hcount, add_assoc]

theorem proportional_one (band : S → UInt16) (hweight : weights 0 = 1) : Proportional weights band := by
  have hspent : ∀ s, Reachable (RunQueue.step (WeightedDRR.pick weights) band) { q := { anti := {} } } s →
      Spent band s :=
    fun s hs => hs.invariant ⟨⟨_, Accounted.initial _⟩, rfl, rfl⟩ fun _ _ _ h hstep => (h.step hweight hstep).1
  refine ⟨0, fun s hs => ⟨fun hbusy => ?_, fun calls s' hrun b => ?_⟩⟩
  · obtain ⟨⟨items, hacc⟩, hrr, hdeficit⟩ := hspent s hs
    have hwork := hbusy 0
    rw [hacc.hasWork] at hwork
    exact (Spent.select hweight hacc hrr hdeficit (of_decide_eq_true hwork)).1
  · have hlen := (hspent s hs).run hweight hrun
    have hsum : (∑ c, (weights c).toNat) = 1 := by
      rw [Fin.sum_univ_one, hweight]
      rfl
    rw [inBand_single, inBand_single, hlen, hsum, Subsingleton.elim b 0, hweight, Nat.cast_add, UInt16.toNat_one]
    omega

end

/-- The exact weights that are served in proportion. With two bands or more all selects go to one of them for
as long as it has items, and a single weight above one is paid until its deficit is no `int` any more. -/
theorem weightedDRR_proportional_iff (weights : Fin k → UInt16) (hweights : ∀ b, 0 < (weights b).toNat)
    (band : S → UInt16)
    (hband : ∀ b : Fin k, ∃ x, bandOf (band x) = b) : Proportional weights band ↔ k = 1 ∧ ∀ b, weights b = 1 := by
  choose item hitem using hband
  refine ⟨fun h => h.single item hitem hweights, ?_⟩
  rintro ⟨rfl, hone⟩
  exact proportional_one band (hone 0)

theorem weightedDRR_proportional_one : Proportional (fun _ : Fin 1 => 1) fun _ : Nat => 0 :=
  (weightedDRR_proportional_iff (fun _ => 1) (fun _ => by decide) (fun _ : Nat => 0)
    fun b => ⟨0, Subsingleton.elim _ b⟩).mpr ⟨rfl, fun _ => rfl⟩

/-- Two bands of the same weight are not served alike. -/
theorem second_band_starves : ¬ Proportional (fun _ : Fin 2 => 1) UInt16.ofNat := fun h =>
  absurd (h.single (fun b => b.val) (by decide) fun _ => by decide).1 (by decide)

end Quark.RunQueue
