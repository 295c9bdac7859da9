import Mathlib.Algebra.BigOperators.Group.Finset.Piecewise
import Mathlib.Data.List.Sort
import Mathlib.Data.List.TakeWhile

/-! A hierarchical timing wheel: `levels` levels of `size` buckets, a level for each digit of the expiry, and
an overflow tier that is sorted by expiry. -/
namespace Quark

/-- What the wheel holds until the tick of its expiry. -/
structure TimingItem (α : Type) where
  expiry : Nat
  val : α
  deriving DecidableEq, Repr

structure TimingWheel (size levels : Nat) (α : Type) where
  buckets : Nat × Nat → List (TimingItem α) := fun _ => []
  overflow : List (TimingItem α) := []
  now : Nat := 0

namespace TimingWheel

section

variable {size levels : Nat} {α : Type} (w : TimingWheel size levels α)

def setBucket (i : Nat × Nat) (its : List (TimingItem α)) : TimingWheel size levels α :=
  { w with buckets := Function.update w.buckets i its }

def pushFront (i : Nat × Nat) (it : TimingItem α) : TimingWheel size levels α := w.setBucket i (it :: w.buckets i)

def clear (i : Nat × Nat) : TimingWheel size levels α := w.setBucket i []

def digit (size lvl t : Nat) : Nat := t / size ^ lvl % size

/-- The level of an item that is `delta` ticks away. -/
def level? (size levels delta : Nat) : Option Nat := (List.range levels).find? fun lvl => delta < size ^ (lvl + 1)

def insert (it : TimingItem α) : TimingWheel size levels α :=
  if it.expiry ≤ w.now then w.pushFront (0, digit size 0 w.now) it
  else
    match level? size levels (it.expiry - w.now) with
    | some lvl => w.pushFront (lvl, digit size lvl it.expiry) it
    | none => { w with overflow := w.overflow.orderedInsert (fun a b => a.expiry ≤ b.expiry) it }

def insertAll (its : List (TimingItem α)) : TimingWheel size levels α := its.foldl insert w

def fits (it : TimingItem α) : Bool := it.expiry < w.now + size ^ levels

def promoteOverflow : TimingWheel size levels α :=
  insertAll { w with overflow := w.overflow.dropWhile w.fits } (w.overflow.takeWhile w.fits)

/-- The levels from `lvl` on, `n` of them at most; a level that did not roll over ends the chain. -/
def cascade (lvl : Nat) : Nat → TimingWheel size levels α → TimingWheel size levels α
  | 0, w => w
  | n + 1, w =>
    let i := (lvl, digit size lvl w.now)
    let w' := (w.clear i).insertAll (w.buckets i)
    if digit size lvl w.now ≠ 0 then w' else cascade (lvl + 1) n w'

def tick : List (TimingItem α) × TimingWheel size levels α :=
  let w := w.promoteOverflow
  let w := if digit size 0 w.now = 0 then cascade 1 (levels - 1) w else w
  let i := (0, digit size 0 w.now)
  (w.buckets i, { w.clear i with now := w.now + 1 })

end

section

variable {size lvl now t : Nat}

/-- The first tick with the digits of `t` from `lvl` on. -/
def floor (size lvl t : Nat) : Nat := t / size ^ lvl * size ^ lvl

theorem floor_le : floor size lvl t ≤ t := Nat.div_mul_le_self t _

theorem floor_zero : floor size 0 t = t := by
  rw [floor, pow_zero, Nat.div_one, mul_one]

theorem lt_floor (hsize : 0 < size) (h : now + size ^ lvl ≤ t) : now < floor size lvl t := by
  have hlt := Nat.lt_div_mul_add (a := t) (Nat.pow_pos (n := lvl) hsize)
  rw [floor]
  omega

theorem floor_eq_of_digit (hsize : 0 < size) (hdvd : size ^ lvl ∣ now) (hle : now ≤ floor size lvl t)
    (hlt : floor size lvl t < now + size ^ (lvl + 1)) (hdigit : digit size lvl t = digit size lvl now) :
    floor size lvl t = now := by
  obtain ⟨m, rfl⟩ := hdvd
  have hpos : 0 < size ^ lvl := Nat.pow_pos hsize
  rw [floor] at hle hlt ⊢
  rw [digit, digit, Nat.mul_div_cancel_left m hpos] at hdigit
  rw [Nat.mul_comm] at hle
  rw [pow_succ, Nat.mul_comm (t / size ^ lvl), ← Nat.mul_add] at hlt
  have hle := Nat.le_of_mul_le_mul_right hle hpos
  have hlt := Nat.lt_of_mul_lt_mul_left hlt
  have hdiff := Nat.sub_mod_eq_zero_of_mod_eq hdigit
  rw [Nat.mod_eq_of_lt (by omega)] at hdiff
  rw [show t / size ^ lvl = m by omega, mul_comm]

theorem digit_eq_of_floor (h : floor size lvl t = now) : digit size lvl t = digit size lvl now := by
  subst h
  rcases Nat.eq_zero_or_pos (size ^ lvl) with hzero | hpos
  · rw [digit, digit, floor, hzero, Nat.div_zero, Nat.div_zero]
  · rw [digit, digit, floor, Nat.mul_div_cancel _ hpos]

theorem pow_dvd_floor {l : Nat} (hl : l ≤ lvl) : size ^ l ∣ floor size lvl t :=
  (pow_dvd_pow size hl).trans (Nat.dvd_mul_left _ _)

theorem pow_succ_dvd (hdvd : size ^ lvl ∣ now) : size ^ (lvl + 1) ∣ now ↔ digit size lvl now = 0 := by
  obtain ⟨m, rfl⟩ := hdvd
  rcases Nat.eq_zero_or_pos (size ^ lvl) with hzero | hpos
  · simp [digit, hzero, pow_succ]
  · rw [digit, Nat.mul_div_cancel_left m hpos, pow_succ, Nat.mul_dvd_mul_iff_left hpos, Nat.dvd_iff_mod_eq_zero]

end

section

open Finset

variable {size levels : Nat} {α : Type} {w : TimingWheel size levels α} {it : TimingItem α}
  {its : List (TimingItem α)}
  {lvl slot : Nat} {i : Nat × Nat}

instance : Std.Total fun a b : TimingItem α => a.expiry ≤ b.expiry := ⟨fun a b => le_total a.expiry b.expiry⟩

instance : IsTrans (TimingItem α) fun a b => a.expiry ≤ b.expiry := ⟨fun _ _ _ => le_trans⟩

def items (w : TimingWheel size levels α) : Multiset (TimingItem α) :=
  ∑ i ∈ range levels ×ˢ range size, (w.buckets i : Multiset (TimingItem α)) + w.overflow

/-- An item lies in the bucket that its digit selects, less than a turn of the level ahead; what is a span
away, in the overflow. Levels from 1 to below `done` hold nothing for now. -/
structure Placed (done : Nat) (w : TimingWheel size levels α) : Prop where
  inside : ∀ i, ∀ it ∈ w.buckets i, i ∈ range levels ×ˢ range size
  digit : ∀ lvl slot, ∀ it ∈ w.buckets (lvl, slot), slot = digit size lvl it.expiry
  le : ∀ lvl slot, ∀ it ∈ w.buckets (lvl, slot), w.now ≤ floor size lvl it.expiry
  lt : ∀ lvl slot, ∀ it ∈ w.buckets (lvl, slot), floor size lvl it.expiry < w.now + size ^ (lvl + 1)
  cascaded : ∀ lvl slot, 1 ≤ lvl → lvl < done → ∀ it ∈ w.buckets (lvl, slot), floor size lvl it.expiry ≠ w.now
  sorted : w.overflow.Pairwise fun a b => a.expiry ≤ b.expiry
  far : ∀ it ∈ w.overflow, w.now + size ^ levels ≤ it.expiry + 1

theorem items_buckets (hi : i ∈ range levels ×ˢ range size) :
    items w = (w.buckets i : Multiset (TimingItem α)) +
      (∑ j ∈ (range levels ×ˢ range size) \ {i}, (w.buckets j : Multiset (TimingItem α)) + w.overflow) := by
  rw [items, Finset.sum_eq_add_sum_sdiff_singleton_of_mem hi fun i =>
    (w.buckets i : Multiset (TimingItem α)), add_assoc]

theorem items_setBucket (hi : i ∈ range levels ×ˢ range size) :
    items (w.setBucket i its) = (its : Multiset (TimingItem α)) +
      (∑ j ∈ (range levels ×ˢ range size) \ {i}, (w.buckets j : Multiset (TimingItem α)) + w.overflow) := by
  rw [items_buckets hi]
  refine congrArg₂ (· + ·) ?_ (congrArg (· + _) (Finset.sum_congr rfl fun j hj => ?_))
  · exact congrArg _ (Function.update_self ..)
  · have hj : j ≠ i := fun h => (mem_sdiff.mp hj).2 (mem_singleton.mpr h)
    exact congrArg _ (Function.update_of_ne hj ..)

theorem items_pushFront (hi : i ∈ range levels ×ˢ range size) : items (w.pushFront i it) = it ::ₘ items w := by
  rw [pushFront, items_setBucket hi, items_buckets hi, ← Multiset.cons_coe, Multiset.cons_add]

theorem items_clear (hi : i ∈ range levels ×ˢ range size) :
    items w = (w.buckets i : Multiset (TimingItem α)) + items (w.clear i) := by
  rw [clear, items_setBucket hi, items_buckets hi, Multiset.coe_nil, zero_add]

theorem mem_setBucket {j : Nat × Nat} {x : TimingItem α} (hx : x ∈ (w.setBucket i its).buckets j) :
    j = i ∧ x ∈ its ∨ j ≠ i ∧ x ∈ w.buckets j := by
  rw [show (w.setBucket i its).buckets = Function.update w.buckets i its from rfl] at hx
  by_cases hj : j = i
  · rw [hj, Function.update_self] at hx
    exact .inl ⟨hj, hx⟩
  · rw [Function.update_of_ne hj] at hx
    exact .inr ⟨hj, hx⟩

theorem level?_eq_some {delta : Nat} (h : level? size levels delta = some lvl) :
    lvl < levels ∧ delta < size ^ (lvl + 1) ∧ (1 ≤ lvl → size ^ lvl ≤ delta) := by
  rw [level?, List.find?_range_eq_some] at h
  obtain ⟨hlt, hmem, hbelow⟩ := h
  refine ⟨List.mem_range.mp hmem, of_decide_eq_true hlt, fun hpos => ?_⟩
  have hprev := hbelow (lvl - 1) (by omega)
  rw [Nat.sub_add_cancel hpos, Bool.not_eq_true', decide_eq_false_iff_not, not_lt] at hprev
  exact hprev

theorem level?_eq_none {delta : Nat} (hlevels : 0 < levels) (h : level? size levels delta = none) :
    size ^ levels ≤ delta := by
  have hlast := List.find?_eq_none.mp h (levels - 1) (List.mem_range.mpr (by omega))
  rw [Nat.sub_add_cancel hlevels, decide_eq_true_iff, not_lt] at hlast
  exact hlast

theorem digit_lt (hsize : 0 < size) {t : Nat} : TimingWheel.digit size lvl t < size := Nat.mod_lt _ hsize

namespace Placed

variable {done : Nat}

theorem setBucket (h : Placed done w) (hits : ∀ x ∈ its, slot = TimingWheel.digit size lvl x.expiry ∧
    w.now ≤ floor size lvl x.expiry ∧ floor size lvl x.expiry < w.now + size ^ (lvl + 1) ∧
      (1 ≤ lvl → lvl < done → floor size lvl x.expiry ≠ w.now)) (hmem : (lvl, slot) ∈ range levels ×ˢ range size) :
    Placed done (w.setBucket (lvl, slot) its) := by
  refine ⟨fun j x hx => ?_, fun l s x hx => ?_, fun l s x hx => ?_, fun l s x hx => ?_,
    fun l s hpos hdone x hx => ?_, h.sorted, h.far⟩ <;> rcases mem_setBucket hx with ⟨hj, hin⟩ | ⟨-, hin⟩
  · exact hj ▸ hmem
  · exact h.inside j x hin
  · cases hj
    exact (hits x hin).1
  · exact h.digit l s x hin
  · cases hj
    exact (hits x hin).2.1
  · exact h.le l s x hin
  · cases hj
    exact (hits x hin).2.2.1
  · exact h.lt l s x hin
  · cases hj
    exact (hits x hin).2.2.2 hpos hdone
  · exact h.cascaded l s hpos hdone x hin

theorem clear (h : Placed done w) (hi : i ∈ range levels ×ˢ range size) : Placed done (w.clear i) :=
  h.setBucket nofun hi

theorem pushFront (h : Placed done w) (hdigit : slot = TimingWheel.digit size lvl it.expiry)
    (hle : w.now ≤ floor size lvl it.expiry)
    (hlt : floor size lvl it.expiry < w.now + size ^ (lvl + 1))
    (hcascaded : 1 ≤ lvl → floor size lvl it.expiry ≠ w.now)
    (hmem : (lvl, slot) ∈ range levels ×ˢ range size) : Placed done (w.pushFront (lvl, slot) it) := by
  refine h.setBucket (fun x hx => ?_) hmem
  rcases List.mem_cons.mp hx with rfl | hold
  · exact ⟨hdigit, hle, hlt, fun hpos _ => hcascaded hpos⟩
  · exact ⟨h.digit _ _ x hold, h.le _ _ x hold, h.lt _ _ x hold, fun hpos hdone => h.cascaded _ _ hpos hdone x hold⟩

theorem insert (h : Placed done w) (it : TimingItem α) (hsize : 1 < size) (hlevels : 0 < levels)
    (hnow : w.now ≤ it.expiry) :
    Placed done (w.insert it) ∧ items (w.insert it) = it ::ₘ items w ∧ (w.insert it).now = w.now := by
  have hpos : 0 < size := Nat.zero_lt_of_lt hsize
  have hslot : ∀ lvl t, lvl < levels → (lvl, TimingWheel.digit size lvl t) ∈ range levels ×ˢ range size :=
    fun lvl t hlvl => mem_product.mpr ⟨mem_range.mpr hlvl, mem_range.mpr (digit_lt hpos)⟩
  rw [TimingWheel.insert]
  split
  · next hdue =>
    have heq : it.expiry = w.now := le_antisymm hdue hnow
    refine ⟨h.pushFront (heq ▸ rfl) ?_ ?_ (fun hzero => absurd hzero (by decide)) (hslot 0 _ hlevels),
      items_pushFront (hslot 0 _ hlevels), rfl⟩
    · rw [floor_zero, heq]
    · rw [floor_zero, heq, zero_add, pow_one]
      omega
  · next hfuture =>
    have hfuture := not_le.mp hfuture
    split
    · next lvl hlvl =>
      obtain ⟨hlvl, hlt, hge⟩ := level?_eq_some hlvl
      have hle : floor size lvl it.expiry ≤ it.expiry := floor_le
      refine ⟨h.pushFront rfl ?_ (by omega) (fun hlevel => ?_) (hslot lvl _ hlvl),
        items_pushFront (hslot lvl _ hlvl), rfl⟩
      · rcases Nat.eq_zero_or_pos lvl with rfl | hlevel
        · rw [floor_zero]
          exact hnow
        · exact (lt_floor hpos (by have := hge hlevel; omega)).le
      · exact (lt_floor hpos (by have := hge hlevel; omega)).ne'
    · next hnone =>
      have hfar := level?_eq_none hlevels hnone
      refine ⟨⟨h.inside, h.digit, h.le, h.lt, h.cascaded, ?_, fun x hx => ?_⟩, ?_, rfl⟩
      · exact List.Pairwise.orderedInsert _ _ h.sorted
      · rcases (List.mem_orderedInsert _).mp hx with rfl | hold
        · change w.now + size ^ levels ≤ x.expiry + 1
          omega
        · exact h.far x hold
      · rw [items, items, Multiset.coe_eq_coe.mpr (List.perm_orderedInsert _ _ _), ← Multiset.cons_coe,
          Multiset.add_cons]

theorem insertAll (h : Placed done w) (its : List (TimingItem α)) (hsize : 1 < size) (hlevels : 0 < levels)
    (hnow : ∀ x ∈ its, w.now ≤ x.expiry) :
    Placed done (w.insertAll its) ∧ items (w.insertAll its) = (its : Multiset (TimingItem α)) + items w ∧
      (w.insertAll its).now = w.now := by
  induction its generalizing w with
  | nil => exact ⟨h, (zero_add _).symm, rfl⟩
  | cons it its ih =>
    obtain ⟨hplaced, hitems, hsame⟩ := h.insert it hsize hlevels (hnow it List.mem_cons_self)
    obtain ⟨hplaced', hitems', hsame'⟩ := ih hplaced fun x hx => hsame ▸ hnow x (List.mem_cons_of_mem it hx)
    refine ⟨hplaced', hitems'.trans ?_, hsame'.trans hsame⟩
    rw [hitems, ← Multiset.cons_coe, Multiset.cons_add, Multiset.add_cons]

end Placed

theorem overflow_insert (w : TimingWheel size levels α) (it : TimingItem α) (hlevels : 0 < levels)
    (hfits : w.fits it = true) : (w.insert it).overflow = w.overflow := by
  rw [insert]
  split
  · rfl
  · split
    · rfl
    · next hnone =>
      have hfar := level?_eq_none hlevels hnone
      have hfits : it.expiry < w.now + size ^ levels := of_decide_eq_true hfits
      omega

theorem now_insert : (w.insert it).now = w.now := by
  rw [insert]
  split
  · rfl
  · split <;> rfl

theorem overflow_insertAll (its : List (TimingItem α)) (hlevels : 0 < levels) (hfits : ∀ x ∈ its, w.fits x = true) :
    (w.insertAll its).overflow = w.overflow := by
  induction its generalizing w with
  | nil => rfl
  | cons it its ih =>
    have hnow : ∀ x, (w.insert it).fits x = w.fits x := fun x => by rw [fits, fits, now_insert]
    refine (ih fun x hx => ?_).trans (overflow_insert w it hlevels (hfits it List.mem_cons_self))
    rw [hnow]
    exact hfits x (List.mem_cons_of_mem it hx)

namespace Placed

variable {done : Nat}

theorem promoteOverflow (h : Placed done w) (hsize : 1 < size) (hlevels : 0 < levels) :
    Placed done w.promoteOverflow ∧ items w.promoteOverflow = items w ∧ w.promoteOverflow.now = w.now ∧
      ∀ x ∈ w.promoteOverflow.overflow, w.now + size ^ levels ≤ x.expiry := by
  have hrest : Placed done { w with overflow := w.overflow.dropWhile w.fits } :=
    ⟨h.inside, h.digit, h.le, h.lt, h.cascaded, h.sorted.sublist (List.dropWhile_sublist _),
      fun x hx => h.far x ((List.dropWhile_sublist _).subset hx)⟩
  have hpos : 0 < size ^ levels := Nat.pow_pos (Nat.zero_lt_of_lt hsize)
  obtain ⟨hplaced, hitems, hnow⟩ := hrest.insertAll (w.overflow.takeWhile w.fits) hsize hlevels fun x hx => by
    have hfar := h.far x ((List.takeWhile_sublist _).subset hx)
    change w.now ≤ x.expiry
    omega
  refine ⟨hplaced, hitems.trans ?_, hnow, fun x hx => ?_⟩
  · rw [items, items, add_left_comm, Multiset.coe_add, List.takeWhile_append_dropWhile]
  · have hover := overflow_insertAll (w := { w with overflow := w.overflow.dropWhile w.fits })
      (w.overflow.takeWhile w.fits) hlevels fun y hy => List.mem_takeWhile_imp hy
    rw [TimingWheel.promoteOverflow, hover] at hx
    -- the first of the rest does not fit, and the rest is sorted
    cases hdrop : w.overflow.dropWhile w.fits with
    | nil =>
      rw [show ({ w with overflow := w.overflow.dropWhile w.fits } : TimingWheel size levels α).overflow = []
        from hdrop] at hx
      cases hx
    | cons y ys =>
      have hx : x ∈ w.overflow.dropWhile w.fits := hx
      have hhead : w.fits y = false := by
        have hnot := List.head_dropWhile_not (l := w.overflow) w.fits (by rw [hdrop]; exact List.cons_ne_nil _ _)
        simp only [hdrop, List.head_cons] at hnot
        exact hnot
      have hy : w.now + size ^ levels ≤ y.expiry := not_lt.mp (of_decide_eq_false hhead)
      have hsorted := hrest.sorted
      rw [show ({ w with overflow := w.overflow.dropWhile w.fits } : TimingWheel size levels α).overflow =
        y :: ys from hdrop]
        at hsorted
      rw [hdrop] at hx
      rcases List.mem_cons.mp hx with rfl | hys
      · exact hy
      · exact hy.trans (List.rel_of_pairwise_cons hsorted hys)

/-- One level of the chain: its bucket for now holds what this level's turn begins with, and all of it goes
further down. -/
theorem cascadeLevel (hsize : 1 < size) (hlevels : 0 < levels) (h : Placed lvl w) (hlvl : 1 ≤ lvl)
    (hlt : lvl < levels)
    (hdvd : size ^ lvl ∣ w.now) (hi : i = (lvl, TimingWheel.digit size lvl w.now)) :
    (∀ x ∈ w.buckets i, w.now ≤ x.expiry ∧ w.fits x = true) ∧ Placed (lvl + 1) ((w.clear i).insertAll (w.buckets i)) ∧
      items ((w.clear i).insertAll (w.buckets i)) = items w ∧ ((w.clear i).insertAll (w.buckets i)).now = w.now ∧
        ((w.clear i).insertAll (w.buckets i)).overflow = w.overflow := by
  subst hi
  let i := (lvl, TimingWheel.digit size lvl w.now)
  have hpos : 0 < size := Nat.zero_lt_of_lt hsize
  have hmem : i ∈ range levels ×ˢ range size := mem_product.mpr ⟨mem_range.mpr hlt, mem_range.mpr (digit_lt hpos)⟩
  have hclear : Placed (lvl + 1) (w.clear i) := by
    refine { h.clear hmem with cascaded := fun l slot hl hdone x hx heq => ?_ }
    rcases mem_setBucket hx with ⟨-, hnone⟩ | ⟨hne, hin⟩
    · cases hnone
    rcases Nat.lt_succ_iff_lt_or_eq.mp hdone with hlt | rfl
    · exact h.cascaded l slot hl hlt x hin heq
    · exact hne (Prod.ext rfl ((h.digit _ _ x hin).trans (digit_eq_of_floor heq)))
  have hdue : ∀ x ∈ w.buckets i, floor size lvl x.expiry = w.now := fun x hx =>
    floor_eq_of_digit hpos hdvd (h.le _ _ x hx) (h.lt _ _ x hx) (h.digit _ _ x hx).symm
  have hfits : ∀ x ∈ w.buckets i, w.fits x = true := fun x hx => by
    refine decide_eq_true ?_
    have hlt' := Nat.lt_div_mul_add (a := x.expiry) (Nat.pow_pos (n := lvl) hpos)
    have hfloor : x.expiry / size ^ lvl * size ^ lvl = w.now := hdue x hx
    have hpow := Nat.pow_le_pow_right hpos (show lvl ≤ levels by omega)
    change x.expiry < w.now + size ^ levels
    omega
  have hnow : ∀ x ∈ w.buckets i, w.now ≤ x.expiry := fun x hx => (h.le _ _ x hx).trans floor_le
  obtain ⟨hplaced, hitems, hsame⟩ := hclear.insertAll (w.buckets i) hsize hlevels hnow
  exact ⟨fun x hx => ⟨hnow x hx, hfits x hx⟩, hplaced, hitems.trans (items_clear hmem).symm, hsame,
    overflow_insertAll (w := w.clear i) (w.buckets i) hlevels hfits⟩

/-- The chain of cascades leaves nothing for now on the levels from 1. -/
theorem cascade (hsize : 1 < size) (hlevels : 0 < levels) {n lvl : Nat} (h : Placed lvl w) (hlvl : 1 ≤ lvl)
    (hn : lvl + n = levels)
    (hdvd : size ^ lvl ∣ w.now) :
    Placed levels (TimingWheel.cascade lvl n w) ∧ items (TimingWheel.cascade lvl n w) = items w ∧
      (TimingWheel.cascade lvl n w).now = w.now ∧ (TimingWheel.cascade lvl n w).overflow = w.overflow := by
  induction n generalizing lvl w with
  | zero =>
    rw [add_zero] at hn
    exact ⟨hn ▸ h, rfl, rfl, rfl⟩
  | succ n ih =>
    obtain ⟨-, hplaced, hsame, hnow, hover⟩ := h.cascadeLevel hsize hlevels hlvl (by omega) hdvd rfl
    rw [TimingWheel.cascade]
    split
    · next hdigit =>
      refine ⟨{ hplaced with cascaded := fun l slot hl hdone x hx heq => ?_ }, hsame, hnow, hover⟩
      rcases lt_or_ge l (lvl + 1) with hlt | hge
      · exact hplaced.cascaded l slot hl hlt x hx heq
      · have hdvd' : size ^ (lvl + 1) ∣ w.now := (hnow ▸ heq) ▸ pow_dvd_floor hge
        exact hdigit ((pow_succ_dvd hdvd).mp hdvd')
    · next hdigit =>
      obtain ⟨hdone, hitems', hnow', hover'⟩ := ih hplaced (Nat.le_add_left 1 lvl) (by omega)
        (hnow.symm ▸ (pow_succ_dvd hdvd).mpr (Classical.not_not.mp hdigit))
      exact ⟨hdone, hitems'.trans hsame, hnow'.trans hnow, hover'.trans hover⟩

end Placed

theorem mem_items {x : TimingItem α} : x ∈ items w ↔ (∃ i ∈ range levels ×ˢ range size, x ∈ w.buckets i) ∨
    x ∈ w.overflow := by
  rw [items, Multiset.mem_add, Multiset.mem_sum, Multiset.mem_coe]
  exact or_congr_left (exists_congr fun i => and_congr_right fun _ => Multiset.mem_coe)

/-- What a tick fires is what expires now; the rest stays, and expires later. -/
theorem tick_placed (h : Placed 1 w) (hsize : 1 < size) (hlevels : 0 < levels) :
    Placed 1 w.tick.2 ∧ items w = (w.tick.1 : Multiset (TimingItem α)) + items w.tick.2 ∧ w.tick.2.now = w.now + 1 ∧
      (∀ x ∈ w.tick.1, x.expiry = w.now) ∧ ∀ x ∈ items w.tick.2, w.now < x.expiry := by
  have hpos : 0 < size := Nat.zero_lt_of_lt hsize
  obtain ⟨hpromoted, hitems, hnow, hfar⟩ := h.promoteOverflow hsize hlevels
  have hone : size ^ 0 ∣ w.promoteOverflow.now := one_dvd _
  -- after the cascade no item above level 0 is for now
  obtain ⟨w', hw', hplaced, hitems', hnow', hover⟩ : ∃ w', (if digit size 0 w.promoteOverflow.now = 0
      then cascade 1 (levels - 1) w.promoteOverflow else w.promoteOverflow) = w' ∧ Placed levels w' ∧
      items w' = items w ∧ w'.now = w.now ∧ w'.overflow = w.promoteOverflow.overflow := by
    refine ⟨_, rfl, ?_⟩
    split
    · next hdigit =>
      obtain ⟨hdone, hsame, hnow', hover⟩ :=
          hpromoted.cascade (n := levels - 1) hsize hlevels (Nat.le_refl 1) (by omega)
        ((pow_succ_dvd hone).mpr hdigit)
      exact ⟨hdone, hsame.trans hitems, hnow'.trans hnow, hover⟩
    · next hdigit =>
      refine ⟨{ hpromoted with cascaded := fun l slot hl _ x hx heq => ?_ }, hitems, hnow, rfl⟩
      exact hdigit ((pow_succ_dvd hone).mp (heq ▸ pow_dvd_floor hl))
  have htick : w.tick = (w'.buckets (0, digit size 0 w'.now),
      { w'.clear (0, digit size 0 w'.now) with now := w'.now + 1 }) := by
    rw [tick, ← hw']
  have hmem : (0, digit size 0 w'.now) ∈ range levels ×ˢ range size :=
    mem_product.mpr ⟨mem_range.mpr hlevels, mem_range.mpr (digit_lt hpos)⟩
  have hsub : ∀ i, ∀ x ∈ (w'.clear (0, digit size 0 w'.now)).buckets i, x ∈ w'.buckets i ∧
      w.now < floor size i.1 x.expiry := by
    rintro ⟨lvl, slot⟩ x hx
    rcases mem_setBucket hx with ⟨-, hnone⟩ | ⟨hne, hin⟩
    · cases hnone
    refine ⟨hin, Nat.lt_of_le_of_ne (hnow' ▸ hplaced.le _ _ x hin) fun heq => ?_⟩
    rcases Nat.eq_zero_or_pos lvl with rfl | hlvl
    · refine hne (Prod.ext rfl ?_)
      rw [hplaced.digit _ _ x hin, digit_eq_of_floor heq.symm, hnow']
    · exact hplaced.cascaded lvl slot hlvl (mem_range.mp (mem_product.mp (hplaced.inside _ x hin)).1) x hin
        (heq.symm.trans hnow'.symm)
  rw [htick]
  refine ⟨⟨fun i x hx => hplaced.inside i x (hsub i x hx).1, fun l s x hx => hplaced.digit l s x (hsub _ x hx).1,
    fun l s x hx => ?_,
    fun l s x hx => ?_, fun l s hl hdone => absurd hdone (not_lt.mpr hl), hplaced.sorted, fun x hx => ?_⟩,
    hitems'.symm.trans (items_clear hmem), congrArg (· + 1) hnow', fun x hx => ?_, fun x hx => ?_⟩
  · change w'.now + 1 ≤ floor size l x.expiry
    rw [hnow']
    exact (hsub _ x hx).2
  · have hlt := hplaced.lt l s x (hsub _ x hx).1
    change floor size l x.expiry < w'.now + 1 + size ^ (l + 1)
    omega
  · have hx : x ∈ w'.overflow := hx
    have hle := hfar x (hover ▸ hx)
    change w'.now + 1 + size ^ levels ≤ x.expiry + 1
    omega
  · have hzero := floor_eq_of_digit hpos (one_dvd _) (hplaced.le _ _ x hx) (hplaced.lt _ _ x hx)
      (hplaced.digit _ _ x hx).symm
    rwa [floor_zero, hnow'] at hzero
  · rcases mem_items.mp hx with ⟨i, -, hin⟩ | hin
    · exact (hsub i x hin).2.trans_le floor_le
    · have hin : x ∈ w'.overflow := hin
      have hle := hfar x (hover ▸ hin)
      have hspan : 0 < size ^ levels := Nat.pow_pos hpos
      omega

theorem promoteOverflow_nil (h : w.overflow = []) : w.promoteOverflow = w := by
  rw [promoteOverflow, h]
  exact congrArg (fun l => { w with overflow := l }) h.symm

theorem overflow_tick (h : Placed 1 w) (hsize : 1 < size) (hlevels : 0 < levels) (hnil : w.overflow = []) :
    w.tick.2.overflow = [] := by
  rw [tick, promoteOverflow_nil hnil]
  change (if digit size 0 w.now = 0 then cascade 1 (levels - 1) w else w).overflow = []
  split
  · next hdigit =>
    obtain ⟨-, -, -, hover⟩ := h.cascade (n := levels - 1) hsize hlevels (Nat.le_refl 1) (by omega)
      ((pow_succ_dvd (one_dvd _)).mpr hdigit)
    exact hover.trans hnil
  · exact hnil

theorem Placed.le_expiry {x : TimingItem α} {done : Nat} (h : Placed done w) (hsize : 1 < size) (hx : x ∈ items w) :
    w.now ≤ x.expiry := by
  rcases mem_items.mp hx with ⟨i, -, hin⟩ | hin
  · exact (h.le i.1 i.2 x hin).trans floor_le
  · have hfar := h.far x hin
    have hspan : 0 < size ^ levels := Nat.pow_pos (Nat.zero_lt_of_lt hsize)
    omega

theorem Placed.start : Placed 1 ({} : TimingWheel size levels α) :=
  ⟨nofun, nofun, nofun, nofun,
    nofun, List.Pairwise.nil, nofun⟩

theorem items_start : items ({} : TimingWheel size levels α) = 0 :=
  (add_zero _).trans (Finset.sum_eq_zero fun _ _ => rfl)

end

attribute [irreducible] items

end TimingWheel

end Quark
