import Mathlib.Data.List.Find
import Quark.Lib.Machine
import Quark.Lib.TimingWheel

/-! The timing wheel of `timer_wheel.hpp` on 64-bit ticks, which may wrap, against the wheel on natural numbers. -/
open UInt64

open Machine

namespace Quark.TimerWheel

def kWheelBits : Nat := 6

def kLevels : Nat := 4

/-- What an entry says of its time, and which one it is. -/
structure TimerEntry where
  expiryTicks : UInt64
  id : Nat := 0
  deriving DecidableEq, Repr

end TimerWheel

structure TimerWheel where
  levels : Nat × Nat → List TimerWheel.TimerEntry := fun _ => []
  overflow : List TimerWheel.TimerEntry := []
  now : UInt64 := 0

namespace TimerWheel

def spanTicks : UInt64 := 1 <<< UInt64.ofNat (kWheelBits * kLevels)

def ahead (now : UInt64) (e : TimerEntry) : Int64 := (e.expiryTicks - now).toInt64

def slot (lvl : Nat) (t : UInt64) : Nat := ((t >>> UInt64.ofNat (kWheelBits * lvl)) &&& 63).toNat

def level? (delta : UInt64) : Option Nat :=
  (List.range kLevels).find? fun lvl => delta < 1 <<< UInt64.ofNat (kWheelBits * (lvl + 1))

section

variable (w : TimerWheel)

def setBucket (i : Nat × Nat) (es : List TimerEntry) : TimerWheel :=
  { w with levels := Function.update w.levels i es }

def pushFront (i : Nat × Nat) (e : TimerEntry) : TimerWheel := w.setBucket i (e :: w.levels i)

def insert (e : TimerEntry) : TimerWheel :=
  if ahead w.now e ≤ 0 then w.pushFront (0, slot 0 w.now) e
  else
    match level? (ahead w.now e).toUInt64 with
    | some lvl => w.pushFront (lvl, slot lvl e.expiryTicks) e
    | none => { w with overflow := w.overflow.orderedInsert (fun a b => a.expiryTicks ≤ b.expiryTicks) e }

def insertAll (es : List TimerEntry) : TimerWheel := es.foldl insert w

/-- At most `n` entries leave the heap, the first one first. -/
def promoteOverflow : Nat → TimerWheel → TimerWheel
  | 0, w => w
  | n + 1, w =>
    match w.overflow with
    | [] => w
    | top :: rest =>
      if spanTicks.toInt64 ≤ ahead w.now top then w else promoteOverflow n ({ w with overflow := rest }.insert top)

/-- The levels from `lvl` on, `n` of them at most. -/
def cascadeChain (lvl : Nat) : Nat → TimerWheel → TimerWheel
  | 0, w => w
  | n + 1, w =>
    let i := (lvl, slot lvl w.now)
    let w' := (w.setBucket i []).insertAll (w.levels i)
    if slot lvl w.now ≠ 0 then w' else cascadeChain (lvl + 1) n w'

def tick : List TimerEntry × TimerWheel :=
  let w := promoteOverflow w.overflow.length w
  let w := if slot 0 w.now = 0 then cascadeChain 1 (kLevels - 1) w else w
  let i := (0, slot 0 w.now)
  (w.levels i, { w.setBucket i [] with now := w.now + 1 })

end

/-- The wheel over a run. An entry is noted with the tick it is for: its expiry, or the time of its insertion
if that is later. -/
structure Run where
  wheel : TimerWheel := {}
  /-- how many ticks there were, which `now` counts modulo 2^64 -/
  ticks : Nat := 0
  walking : List TimerEntry := []
  inserted : List (TimerEntry × Nat) := []
  fired : List (TimerEntry × Nat) := []

/-- An insertion while a tick hands out its entries is one of a callback. -/
inductive Label
  | insert (e : TimerEntry)
  | tick
  | fire
  deriving DecidableEq, Repr

namespace Run

variable (s : Run)

def due (e : TimerEntry) : Nat := s.ticks + (ahead s.wheel.now e).toInt.toNat

def step (s : Run) : Label → Option Run
  | .insert e => some { s with wheel := s.wheel.insert e, inserted := s.inserted ++ [(e, s.due e)] }
  | .tick =>
    if s.walking = [] then some { s with wheel := s.wheel.tick.2, walking := s.wheel.tick.1, ticks := s.ticks + 1 }
      else none
  | .fire =>
    match s.walking with
    | [] => none
    | e :: es => some { s with walking := es, fired := s.fired ++ [(e, s.ticks - 1)] }

end Run

/-- Of two entries of the heap, the one that comes first is not later by a span or more. -/
def Ordered (now : UInt64) (a b : TimerEntry) : Prop :=
  a.expiryTicks ≤ b.expiryTicks → (ahead now a).toInt < (ahead now b).toInt + spanTicks.toNat

/-- Nothing in the heap is a span or more away from the new entry on the other side of the counter's wrap. -/
def Run.Clear (s : Run) : Label → Prop
  | .insert e => (spanTicks.toInt64 ≤ ahead s.wheel.now e) → ∀ x ∈ s.wheel.overflow, Ordered s.wheel.now e x ∧
      Ordered s.wheel.now x e
  | _ => True

instance (now : UInt64) (a b : TimerEntry) : Decidable (Ordered now a b) := by
  unfold Ordered
  infer_instance

instance (s : Run) (a : Label) : Decidable (s.Clear a) := by
  cases a <;> unfold Run.Clear <;> infer_instance

section

open TimingWheel (digit)

variable {w : TimerWheel} {B : TimingWheel 64 4 TimerEntry} {it : TimingItem TimerEntry}
  {its : List (TimingItem TimerEntry)}
  {e x y : TimerEntry} {now t lvl n : Nat} {s s' : Run} {a : Label}

theorem ahead_toInt (now : UInt64) (e : TimerEntry) : (ahead now e).toInt =
    if 2 * (e.expiryTicks - now).toNat < 2 ^ 64 then ((e.expiryTicks - now).toNat : Int)
    else ((e.expiryTicks - now).toNat : Int) - 2 ^ 64 :=
  BitVec.toInt_eq_toNat_cond _

theorem spanTicks_toNat : spanTicks.toNat = 64 ^ 4 := by decide

theorem spanTicks_toInt : spanTicks.toInt64.toInt = 64 ^ 4 := by decide

theorem ahead_ofNat (now : Nat) (hdated : e.expiryTicks = UInt64.ofNat t) (hle : now ≤ t) (hlt : t < now + 2 ^ 63) :
    (ahead (UInt64.ofNat now) e).toInt = t - now ∧ (e.expiryTicks - UInt64.ofNat now).toNat = t - now := by
  have hdiff : (e.expiryTicks - UInt64.ofNat now).toNat = t - now := by
    rw [hdated, UInt64.toNat_sub, UInt64.toNat_ofNat', UInt64.toNat_ofNat']
    omega
  refine ⟨?_, hdiff⟩
  rw [ahead_toInt, hdiff, if_pos (by omega)]
  omega

theorem dated_of_ahead (h : 0 ≤ (ahead (UInt64.ofNat now) e).toInt) :
    e.expiryTicks = UInt64.ofNat (now + (ahead (UInt64.ofNat now) e).toInt.toNat) ∧
      (ahead (UInt64.ofNat now) e).toInt < 2 ^ 63 := by
  have hbound := (e.expiryTicks - UInt64.ofNat now).toNat_lt
  rw [ahead_toInt] at h ⊢
  split at h
  · next hhalf =>
    rw [if_pos hhalf, Int.toNat_natCast, UInt64.ofNat_add, UInt64.ofNat_toNat, UInt64.add_comm, UInt64.sub_add_cancel]
    exact ⟨rfl, by omega⟩
  · omega

theorem slot_ofNat (hlvl : lvl < kLevels) (t : Nat) : slot lvl (UInt64.ofNat t) = digit 64 lvl t := by
  unfold kLevels at hlvl
  rw [slot, UInt64.toNat_and, UInt64.toNat_shiftRight, UInt64.toNat_ofNat', UInt64.toNat_ofNat',
    Nat.shiftRight_eq_div_pow, show (63 : UInt64).toNat = 2 ^ 6 - 1 from rfl, Nat.and_two_pow_sub_one_eq_mod, digit]
  obtain rfl | rfl | rfl | rfl : lvl = 0 ∨ lvl = 1 ∨ lvl = 2 ∨ lvl = 3 := by omega
  all_goals
    simp only [kWheelBits, Nat.reducePow, Nat.reduceMul, Nat.reduceMod]
    omega

theorem level?_toNat (delta : UInt64) : level? delta = TimingWheel.level? 64 4 delta.toNat := by
  rw [level?, TimingWheel.level?, kLevels]
  refine List.find?_congr fun lvl hlvl => ?_
  have hlvl := List.mem_range.mp hlvl
  obtain rfl | rfl | rfl | rfl : lvl = 0 ∨ lvl = 1 ∨ lvl = 2 ∨ lvl = 3 := by omega
  all_goals exact decide_eq_decide.mpr lt_iff_toNat_lt

/-- The buckets hold the same, an item for each entry; what is above the first level has the expiry of its entry. -/
structure View (B : TimingWheel 64 4 TimerEntry) (w : TimerWheel) : Prop where
  levels : ∀ i, w.levels i = (B.buckets i).map TimingItem.val
  now : w.now = UInt64.ofNat B.now
  dated : ∀ lvl slot, 1 ≤ lvl → ∀ it ∈ B.buckets (lvl, slot), it.val.expiryTicks = UInt64.ofNat it.expiry

namespace View

theorem setBucket (h : View B w) (i : Nat × Nat) (its : List (TimingItem TimerEntry))
    (hits : 1 ≤ i.1 → ∀ it ∈ its, it.val.expiryTicks = UInt64.ofNat it.expiry) :
    View (B.setBucket i its) (w.setBucket i (its.map TimingItem.val)) := by
  refine ⟨fun j => ?_, h.now, fun lvl slot hlvl it hin => ?_⟩
  · change Function.update w.levels i (its.map TimingItem.val) j =
      (Function.update B.buckets i its j).map TimingItem.val
    by_cases hj : j = i
    · rw [hj, Function.update_self, Function.update_self]
    · rw [Function.update_of_ne hj, Function.update_of_ne hj, h.levels]
  · obtain ⟨hi, hitem⟩ | ⟨-, hold⟩ := TimingWheel.mem_setBucket hin
    · exact hits (hi ▸ hlvl) it hitem
    · exact h.dated lvl slot hlvl it hold

theorem pushFront (h : View B w) (i : Nat × Nat) (hdated : 1 ≤ i.1 → it.val.expiryTicks = UInt64.ofNat it.expiry) :
    View (B.pushFront i it) (w.pushFront i it.val) := by
  rw [TimingWheel.pushFront, TimerWheel.pushFront, h.levels i]
  refine h.setBucket i _ fun hpos x hx => ?_
  obtain rfl | hx := List.mem_cons.mp hx
  · exact hdated hpos
  · exact h.dated i.1 i.2 hpos x hx

theorem insert_due (h : View B w) (it : TimingItem TimerEntry) (hdue : ahead w.now it.val ≤ 0)
    (hnow : it.expiry = B.now) : View (B.insert it) (w.insert it.val) ∧ (w.insert it.val).overflow = w.overflow := by
  rw [TimingWheel.insert, if_pos hnow.le, TimerWheel.insert, if_pos hdue, h.now, slot_ofNat (by decide)]
  exact ⟨h.pushFront _ fun hpos => absurd hpos (Nat.not_succ_le_zero 0), rfl⟩

theorem insert (h : View B w) (it : TimingItem TimerEntry) (hdated : it.val.expiryTicks = UInt64.ofNat it.expiry)
    (hnow : B.now ≤ it.expiry) (hspan : it.expiry < B.now + 64 ^ 4) : View (B.insert it) (w.insert it.val) ∧
    (w.insert it.val).overflow = w.overflow := by
  obtain ⟨hahead, hdiff⟩ := ahead_ofNat B.now hdated hnow (by omega)
  rw [← h.now] at hahead hdiff
  by_cases hdue : it.expiry = B.now
  · refine h.insert_due it (Int64.le_iff_toInt_le.mpr ?_) hdue
    rw [hahead, hdue, Int64.toInt_zero]
    omega
  · have hfuture : ¬ ahead w.now it.val ≤ 0 := by
      rw [Int64.le_iff_toInt_le, hahead, Int64.toInt_zero]
      omega
    rw [TimingWheel.insert, if_neg (by omega), TimerWheel.insert, if_neg hfuture, ahead, UInt64.toUInt64_toInt64,
      level?_toNat, hdiff]
    cases hlevel : TimingWheel.level? 64 4 (it.expiry - B.now) with
    | some lvl =>
      dsimp only
      rw [hdated, slot_ofNat (TimingWheel.level?_eq_some hlevel).1]
      exact ⟨h.pushFront _ fun _ => hdated, rfl⟩
    | none =>
      have hfar := TimingWheel.level?_eq_none (by decide) hlevel
      omega

theorem insertAll (h : View B w) (its : List (TimingItem TimerEntry))
    (hits : ∀ it ∈ its, it.val.expiryTicks = UInt64.ofNat it.expiry ∧ B.now ≤ it.expiry ∧
    B.fits it = true) : View (B.insertAll its) (w.insertAll (its.map TimingItem.val)) ∧
      (w.insertAll (its.map TimingItem.val)).overflow = w.overflow := by
  induction its generalizing B w with
  | nil => exact ⟨h, rfl⟩
  | cons it its ih =>
    obtain ⟨hdated, hnow, hfits⟩ := hits it List.mem_cons_self
    obtain ⟨hview, hover⟩ := h.insert it hdated hnow (of_decide_eq_true hfits)
    have hrest : ∀ x ∈ its, x.val.expiryTicks = UInt64.ofNat x.expiry ∧ (B.insert it).now ≤ x.expiry ∧
        (B.insert it).fits x = true := by
      intro x hx
      rw [TimingWheel.fits, TimingWheel.now_insert]
      exact hits x (List.mem_cons_of_mem it hx)
    obtain ⟨hview', hover'⟩ := ih hview hrest
    exact ⟨hview', hover'.trans hover⟩

theorem clear (h : View B w) (i : Nat × Nat) : View (B.clear i) (w.setBucket i []) :=
  h.setBucket i [] nofun

theorem cascadeChain (h : View B w) (hplaced : TimingWheel.Placed lvl B) (hlvl : 1 ≤ lvl) (hn : lvl + n = 4)
    (hdvd : 64 ^ lvl ∣ B.now) : View (TimingWheel.cascade lvl n B) (TimerWheel.cascadeChain lvl n w) ∧
      (TimerWheel.cascadeChain lvl n w).overflow = w.overflow := by
  induction n generalizing lvl B w with
  | zero => exact ⟨h, rfl⟩
  | succ n ih =>
    obtain ⟨hbucket, hplaced', -, hnow, -⟩ := hplaced.cascadeLevel (by decide) (by decide) hlvl (by omega) hdvd rfl
    have hslot : slot lvl w.now = digit 64 lvl B.now := by
      rw [h.now, slot_ofNat]
      unfold kLevels
      omega
    obtain ⟨hview, hover⟩ := (h.clear (lvl, digit 64 lvl B.now)).insertAll
      (B.buckets (lvl, digit 64 lvl B.now)) fun x hx =>
      ⟨h.dated lvl _ hlvl x hx, (hbucket x hx).1, (hbucket x hx).2⟩
    rw [TimingWheel.cascade, TimerWheel.cascadeChain, hslot, h.levels]
    split
    · exact ⟨hview, hover⟩
    · next hdigit =>
      have hnext : 64 ^ (lvl + 1) ∣
          ((B.clear (lvl, digit 64 lvl B.now)).insertAll (B.buckets (lvl, digit 64 lvl B.now))).now := by
        rw [hnow]
        exact (TimingWheel.pow_succ_dvd hdvd).mpr (Classical.not_not.mp hdigit)
      obtain ⟨hview', hover'⟩ := ih hview hplaced' (Nat.le_add_left 1 lvl) (by omega) hnext
      exact ⟨hview', hover'.trans hover⟩

theorem tick (h : View B (promoteOverflow w.overflow.length w)) (hplaced : TimingWheel.Placed 1 B)
    (hempty : B.overflow = []) : w.tick.1 = B.tick.1.map TimingItem.val ∧ View B.tick.2 w.tick.2 ∧
      w.tick.2.overflow = (promoteOverflow w.overflow.length w).overflow := by
  have hslot : ∀ {B : TimingWheel 64 4 TimerEntry} {w : TimerWheel}, View B w →
      slot 0 w.now = digit 64 0 B.now := fun h => by
    rw [h.now, slot_ofNat (by decide)]
  rw [TimerWheel.tick, TimingWheel.tick, TimingWheel.promoteOverflow_nil hempty, hslot h]
  obtain ⟨hview, hover⟩ : View (if digit 64 0 B.now = 0 then TimingWheel.cascade 1 (4 - 1) B else B)
      (if digit 64 0 B.now = 0 then TimerWheel.cascadeChain 1 (kLevels - 1) (promoteOverflow w.overflow.length w)
        else promoteOverflow w.overflow.length w) ∧
      (if digit 64 0 B.now = 0 then TimerWheel.cascadeChain 1 (kLevels - 1) (promoteOverflow w.overflow.length w)
        else promoteOverflow w.overflow.length w).overflow = (promoteOverflow w.overflow.length w).overflow := by
    split
    · next hdigit =>
      exact h.cascadeChain hplaced (Nat.le_refl 1) rfl ((TimingWheel.pow_succ_dvd (one_dvd _)).mpr hdigit)
    · exact ⟨h, rfl⟩
  rw [hslot hview]
  refine ⟨hview.levels _, ⟨(hview.clear _).levels, ?_, (hview.clear _).dated⟩, hover⟩
  rw [hview.now]
  exact (ofNat_add _ 1).symm

end View

/-- What the heap holds: nothing that is overdue, and nothing that hides an earlier entry for a span or more. -/
structure Heap (now : UInt64) (overflow : List TimerEntry) : Prop where
  near : ∀ x ∈ overflow, 0 ≤ (ahead now x).toInt
  sorted : overflow.Pairwise fun a b => a.expiryTicks ≤ b.expiryTicks
  ordered : ∀ x ∈ overflow, ∀ y ∈ overflow, Ordered now x y

theorem Heap.rest {now : UInt64} {es : List TimerEntry} (h : Heap now (x :: es)) : Heap now es :=
  ⟨fun y hy => h.near y (List.mem_cons_of_mem x hy), List.Pairwise.of_cons h.sorted,
    fun y hy z hz => h.ordered y (List.mem_cons_of_mem x hy) z (List.mem_cons_of_mem x hz)⟩

def pair (it : TimingItem TimerEntry) : TimerEntry × Nat := (it.val, it.expiry)

def far (now : Nat) (overflow : List TimerEntry) : List (TimerEntry × Nat) :=
  overflow.map fun x => (x, now + (ahead (UInt64.ofNat now) x).toInt.toNat)

/-- What leaves the heap goes into the buckets. What stays is not for now. -/
theorem promote_spec (h : View B w) (hplaced : TimingWheel.Placed 1 B) (hempty : B.overflow = [])
    (hheap : Heap w.now w.overflow)
    (hn : w.overflow.length = n) : ∃ B', View B' (promoteOverflow n w) ∧ TimingWheel.Placed 1 B' ∧ B'.overflow = [] ∧
    B'.now = B.now ∧
      Heap w.now (promoteOverflow n w).overflow ∧ (∀ x ∈ (promoteOverflow n w).overflow, 0 < (ahead w.now x).toInt) ∧
      B'.items.map pair + far B.now (promoteOverflow n w).overflow = B.items.map pair + far B.now w.overflow := by
  induction n generalizing B w with
  | zero =>
    have hnil := List.length_eq_zero_iff.mp hn
    refine ⟨B, h, hplaced, hempty, rfl, hheap, fun x hx => ?_, rfl⟩
    rw [promoteOverflow, hnil] at hx
    cases hx
  | succ n ih =>
    rw [promoteOverflow]
    cases hover : w.overflow with
    | nil =>
      rw [hover] at hn
      cases hn
    | cons top rest =>
      dsimp only
      split
      · next hfar =>
        rw [hover] at hheap
        rw [Int64.le_iff_toInt_le, spanTicks_toInt] at hfar
        rw [hover]
        refine ⟨B, h, hplaced, hempty, rfl, hheap, fun x hx => ?_, rfl⟩
        have hraw : top.expiryTicks ≤ x.expiryTicks := by
          obtain rfl | hx := List.mem_cons.mp hx
          · exact UInt64.le_refl _
          · exact List.rel_of_pairwise_cons hheap.sorted hx
        have hordered := hheap.ordered top List.mem_cons_self x hx hraw
        rw [spanTicks_toNat] at hordered
        omega
      · next hfits =>
        rw [Int64.le_iff_toInt_le, spanTicks_toInt, Int.not_le] at hfits
        rw [hover] at hheap hn
        have hnear := hheap.near top List.mem_cons_self
        rw [h.now] at hnear hfits
        obtain ⟨hdated, -⟩ := dated_of_ahead hnear
        let it : TimingItem TimerEntry := ⟨B.now + (ahead (UInt64.ofNat B.now) top).toInt.toNat, top⟩
        have hspan : it.expiry < B.now + 64 ^ 4 := by
          change B.now + (ahead (UInt64.ofNat B.now) top).toInt.toNat < _
          omega
        have hlower : View B { w with overflow := rest } := ⟨h.levels, h.now, h.dated⟩
        obtain ⟨hview, hsame⟩ := hlower.insert it hdated (Nat.le_add_right _ _) hspan
        obtain ⟨hplaced', hitems, hnow⟩ := hplaced.insert it (by decide) (by decide) (Nat.le_add_right _ _)
        have hover' := TimingWheel.overflow_insert B it (by decide) (decide_eq_true hspan)
        have hnow' : (TimerWheel.insert { w with overflow := rest } top).now = w.now := by
          rw [hview.now, hnow, h.now]
        obtain ⟨B', hview', hplaced'', hempty', hsamenow, hheap', hlater, hheld⟩ :=
          ih hview hplaced' (hover'.trans hempty)
          (by rw [hnow', hsame]; exact hheap.rest) (by rw [hsame]; exact Nat.succ_inj.mp hn)
        rw [hnow'] at hheap' hlater
        rw [hnow, hsame, hitems] at hheld
        refine ⟨B', hview', hplaced'', hempty', hsamenow.trans hnow, hheap', hlater, hheld.trans ?_⟩
        rw [Multiset.map_cons, far, far, List.map_cons, ← Multiset.cons_coe, Multiset.cons_add, Multiset.add_cons]
        rfl

theorem ahead_succ (h : 0 < (ahead (UInt64.ofNat now) x).toInt) :
    (ahead (UInt64.ofNat (now + 1)) x).toInt = (ahead (UInt64.ofNat now) x).toInt - 1 := by
  obtain ⟨hdated, hbound⟩ := dated_of_ahead h.le
  rw [(ahead_ofNat (now + 1) hdated (by omega) (by omega)).1]
  omega

theorem Heap.next {es : List TimerEntry} (h : Heap (UInt64.ofNat now) es)
    (hlater : ∀ x ∈ es, 0 < (ahead (UInt64.ofNat now) x).toInt) :
    Heap (UInt64.ofNat (now + 1)) es ∧ far (now + 1) es = far now es := by
  refine ⟨⟨fun x hx => ?_, h.sorted, fun x hx y hy hraw => ?_⟩, List.map_congr_left fun x hx => ?_⟩
  · have hpos := hlater x hx
    rw [ahead_succ hpos]
    omega
  · have hless := h.ordered x hx y hy hraw
    rw [ahead_succ (hlater x hx), ahead_succ (hlater y hy)]
    omega
  · have hpos := hlater x hx
    rw [ahead_succ hpos]
    refine Prod.ext rfl ?_
    change now + 1 + _ = now + _
    omega

instance : Std.Total fun a b : TimerEntry => a.expiryTicks ≤ b.expiryTicks := ⟨fun _ _ => UInt64.le_total _ _⟩

instance : IsTrans TimerEntry fun a b => a.expiryTicks ≤ b.expiryTicks := ⟨fun _ _ _ => UInt64.le_trans⟩

theorem insert_far (h : spanTicks.toInt64 ≤ ahead w.now e) :
    w.insert e = { w with overflow := w.overflow.orderedInsert (fun a b => a.expiryTicks ≤ b.expiryTicks) e } := by
  rw [Int64.le_iff_toInt_le, spanTicks_toInt] at h
  have hfuture : ¬ ahead w.now e ≤ 0 := by
    rw [Int64.le_iff_toInt_le, Int64.toInt_zero]
    omega
  have hbound := (e.expiryTicks - w.now).toNat_lt
  have hdelta : 64 ^ 4 ≤ (e.expiryTicks - w.now).toNat := by
    rw [ahead_toInt] at h
    split at h <;> omega
  rw [insert, if_neg hfuture, ahead, UInt64.toUInt64_toInt64, level?_toNat]
  cases hlevel : TimingWheel.level? 64 4 (e.expiryTicks - w.now).toNat with
  | none => rfl
  | some lvl =>
    obtain ⟨hlvl, hlt, -⟩ := TimingWheel.level?_eq_some hlevel
    have hpow := Nat.pow_le_pow_right (n := 64) (by decide) (show lvl + 1 ≤ 4 by omega)
    omega

namespace Run

def out (s : Run) : List (TimerEntry × Nat) := s.fired ++ s.walking.map fun e => (e, s.ticks - 1)

/-- The wheel on natural numbers stands behind the buckets. Every entry that was inserted is out, in a bucket
or in the heap. -/
structure Kept (s : Run) (B : TimingWheel 64 4 TimerEntry) : Prop where
  view : View B s.wheel
  placed : TimingWheel.Placed 1 B
  empty : B.overflow = []
  ticks : B.now = s.ticks
  heap : Heap s.wheel.now s.wheel.overflow
  held : (s.inserted : Multiset (TimerEntry × Nat)) = s.out + (B.items.map pair + far s.ticks s.wheel.overflow)
  past : ∀ p ∈ s.out, p.2 < s.ticks

namespace Kept

theorem start : Kept {} {} := by
  refine ⟨⟨fun _ => rfl, rfl, nofun⟩, .start, rfl, rfl,
    ⟨nofun, .nil, nofun⟩, ?_, nofun⟩
  rw [TimingWheel.items_start]
  rfl

theorem insert (h : Kept s B) (hclear : s.Clear (.insert e)) :
    ∃ B', Kept { s with wheel := s.wheel.insert e, inserted := s.inserted ++ [(e, s.due e)] } B' := by
  have hnow : s.wheel.now = UInt64.ofNat s.ticks := by rw [h.view.now, h.ticks]
  by_cases hfar : spanTicks.toInt64 ≤ ahead s.wheel.now e
  · have hclear := hclear hfar
    refine ⟨B, ?_⟩
    rw [insert_far hfar]
    refine ⟨⟨h.view.levels, h.view.now, h.view.dated⟩, h.placed, h.empty, h.ticks,
      ⟨fun x hx => ?_, ?_, fun x hx y hy => ?_⟩, ?_, h.past⟩
    · obtain rfl | hx := (List.mem_orderedInsert _).mp hx
      · rw [Int64.le_iff_toInt_le, spanTicks_toInt] at hfar
        exact le_trans (by decide) hfar
      · exact h.heap.near x hx
    · exact List.Pairwise.orderedInsert _ _ h.heap.sorted
    · obtain hxe | hx := (List.mem_orderedInsert _).mp hx
      · obtain hye | hy := (List.mem_orderedInsert _).mp hy
        · intro _
          rw [hxe, hye]
          exact Int.lt_add_of_pos_right _ (by decide)
        · rw [hxe]
          exact (hclear y hy).1
      · obtain hye | hy := (List.mem_orderedInsert _).mp hy
        · rw [hye]
          exact (hclear x hx).2
        · exact h.heap.ordered x hx y hy
    · have hperm := List.perm_orderedInsert (fun a b : TimerEntry => a.expiryTicks ≤ b.expiryTicks) e s.wheel.overflow
      have hfars : (far s.ticks (s.wheel.overflow.orderedInsert (fun a b => a.expiryTicks ≤ b.expiryTicks) e) :
          Multiset (TimerEntry × Nat)) = (e, s.due e) ::ₘ far s.ticks s.wheel.overflow := by
        rw [far, Multiset.coe_eq_coe.mpr (hperm.map _), due, hnow]
        rfl
      change ((s.inserted ++ [(e, s.due e)] : List (TimerEntry × Nat)) : Multiset (TimerEntry × Nat))
        = s.out + (_ + _)
      rw [hfars, ← Multiset.coe_add, h.held, Multiset.add_cons, Multiset.add_cons, Multiset.coe_singleton,
        ← Multiset.singleton_add, add_comm]
  · rw [Int64.le_iff_toInt_le, spanTicks_toInt, Int.not_le] at hfar
    let it : TimingItem TimerEntry := ⟨s.due e, e⟩
    have hle : B.now ≤ it.expiry := by
      rw [h.ticks]
      exact Nat.le_add_right _ _
    have hspan : it.expiry < B.now + 64 ^ 4 := by
      rw [h.ticks]
      change s.ticks + _ < _
      omega
    obtain ⟨hview, hover⟩ : View (B.insert it) (s.wheel.insert e) ∧
        (s.wheel.insert e).overflow = s.wheel.overflow := by
      by_cases hdue : ahead s.wheel.now e ≤ 0
      · refine h.view.insert_due it hdue ?_
        rw [Int64.le_iff_toInt_le, Int64.toInt_zero] at hdue
        rw [h.ticks]
        change s.ticks + _ = s.ticks
        omega
      · refine h.view.insert it ?_ hle hspan
        rw [Int64.le_iff_toInt_le, Int64.toInt_zero, Int.not_le, hnow] at hdue
        change e.expiryTicks = UInt64.ofNat (s.ticks + (ahead s.wheel.now e).toInt.toNat)
        rw [hnow]
        exact (dated_of_ahead hdue.le).1
    obtain ⟨hplaced, hitems, hsame⟩ := h.placed.insert it (by decide) (by decide) hle
    have hempty := TimingWheel.overflow_insert B it (by decide) (decide_eq_true hspan)
    have hsamenow : (s.wheel.insert e).now = s.wheel.now := by rw [hview.now, hsame, h.view.now]
    refine ⟨B.insert it, hview, hplaced, hempty.trans h.empty, hsame.trans h.ticks, ?_, ?_, h.past⟩
    · change Heap (s.wheel.insert e).now (s.wheel.insert e).overflow
      rw [hsamenow, hover]
      exact h.heap
    · change ((s.inserted ++ [(e, s.due e)] : List (TimerEntry × Nat)) : Multiset (TimerEntry × Nat)) =
        s.out + (_ + far s.ticks (s.wheel.insert e).overflow)
      rw [hover, hitems, Multiset.map_cons, ← Multiset.coe_add, h.held, Multiset.cons_add, Multiset.add_cons,
        Multiset.coe_singleton, ← Multiset.singleton_add, add_comm]
      rfl

theorem tick (h : Kept s B) (hwalking : s.walking = []) :
    ∃ B', Kept { s with wheel := s.wheel.tick.2, walking := s.wheel.tick.1, ticks := s.ticks + 1 } B' := by
  have hnow : s.wheel.now = UInt64.ofNat s.ticks := by rw [h.view.now, h.ticks]
  obtain ⟨B', hview, hplaced, hempty, hsame, hheap, hlater, hheld⟩ := promote_spec h.view h.placed h.empty h.heap rfl
  obtain ⟨hfires, hview', hover⟩ := hview.tick hplaced hempty
  obtain ⟨hplaced', hitems, hnext, hdue, hrest⟩ := TimingWheel.tick_placed hplaced (by decide) (by decide)
  rw [hnow] at hheap hlater
  obtain ⟨hheap', hfar⟩ := hheap.next hlater
  rw [h.ticks] at hheld hsame
  have hempty' := TimingWheel.overflow_tick hplaced (by decide) (by decide) hempty
  have hout : (s.fired ++ s.wheel.tick.1.map fun e => (e, s.ticks + 1 - 1)) = s.out ++ B'.tick.1.map pair := by
    rw [out, hwalking, hfires, List.map_map, List.map_nil, List.append_nil]
    refine congrArg (s.fired ++ ·) (List.map_congr_left fun x hx => ?_)
    exact Prod.ext rfl ((hdue x hx).trans hsame).symm
  refine ⟨B'.tick.2, hview', hplaced', hempty', hnext.trans (congrArg (· + 1) hsame), ?_, ?_, ?_⟩
  · change Heap s.wheel.tick.2.now s.wheel.tick.2.overflow
    rw [hview'.now, hnext, hsame, hover]
    exact hheap'
  · change (s.inserted : Multiset (TimerEntry × Nat)) =
      ↑(s.fired ++ s.wheel.tick.1.map fun e => (e, s.ticks + 1 - 1)) + (_ + far (s.ticks + 1) s.wheel.tick.2.overflow)
    rw [hout, hover, hfar, ← Multiset.coe_add, h.held, ← hheld, hitems, Multiset.map_add, Multiset.map_coe]
    simp only [add_assoc]
  · intro p hp
    change p ∈ s.fired ++ s.wheel.tick.1.map _ at hp
    rw [hout] at hp
    change p.2 < s.ticks + 1
    obtain hp | hp := List.mem_append.mp hp
    · exact Nat.lt_succ_of_lt (h.past p hp)
    · obtain ⟨x, hx, rfl⟩ := List.mem_map.mp hp
      change x.expiry < _
      rw [hdue x hx, hsame]
      exact Nat.lt_succ_self _

theorem step (h : Kept s B) (hclear : s.Clear a) (hstep : s.step a = some s') : ∃ B', Kept s' B' := by
  cases a with
  | insert e =>
    obtain rfl := Option.some.inj hstep
    exact h.insert hclear
  | tick =>
    rw [Run.step] at hstep
    split at hstep
    · next hwalking =>
      obtain rfl := Option.some.inj hstep
      exact h.tick hwalking
    · cases hstep
  | fire =>
    rw [Run.step] at hstep
    split at hstep
    · cases hstep
    · next e es hwalking =>
      obtain rfl := Option.some.inj hstep
      have hout : out { s with walking := es, fired := s.fired ++ [(e, s.ticks - 1)] } = s.out := by
        rw [out, out, hwalking, List.append_assoc]
        rfl
      refine ⟨B, h.view, h.placed, h.empty, h.ticks, h.heap, ?_, ?_⟩
      · rw [hout]
        exact h.held
      · rw [hout]
        exact h.past

end Kept

/-- Where no insertion puts two entries a span apart on both sides of the counter's wrap into the heap, what
was for a tick that is over has been handed out in that tick, once, and nothing else has. -/
theorem fires_on_time (h : Reach step Clear {} s) :
    (s.inserted.filter fun p => p.2 < s.ticks).Perm s.out := by
  obtain ⟨B, hkept⟩ : ∃ B, Kept s B :=
    h.invariant (I := fun s => ∃ B, Kept s B) ⟨_, Kept.start⟩ fun _ _ _ ⟨_, hinv⟩ hok hstep => hinv.step hok hstep
  rw [← Multiset.coe_eq_coe, ← Multiset.filter_coe, hkept.held, Multiset.filter_add, Multiset.filter_add]
  have hout : Multiset.filter (fun p : TimerEntry × Nat => p.2 < s.ticks) s.out = s.out :=
    Multiset.filter_eq_self.mpr fun p hp => hkept.past p hp
  have hitems : Multiset.filter (fun p : TimerEntry × Nat => p.2 < s.ticks) (B.items.map pair) = 0 := by
    refine Multiset.filter_eq_nil.mpr fun p hp => ?_
    obtain ⟨x, hx, rfl⟩ := Multiset.mem_map.mp hp
    have hle := hkept.placed.le_expiry (by decide) hx
    rw [hkept.ticks] at hle
    exact not_lt.mpr hle
  have hfar : Multiset.filter (fun p : TimerEntry × Nat => p.2 < s.ticks) (far s.ticks s.wheel.overflow) = 0 := by
    refine Multiset.filter_eq_nil.mpr fun p hp => ?_
    obtain ⟨x, hx, rfl⟩ := List.mem_map.mp hp
    exact not_lt.mpr (Nat.le_add_right _ _)
  rw [hout, hitems, hfar, add_zero, add_zero]

end Run

theorem step_insert_far {d : Nat} (h : spanTicks.toInt64 ≤ ahead s.wheel.now e) (hdue : s.due e = d) :
    s.step (.insert e) = some { s with
      wheel := { s.wheel with
        overflow := s.wheel.overflow.orderedInsert (fun a b => a.expiryTicks ≤ b.expiryTicks) e }
      inserted := s.inserted ++ [(e, d)] } := by
  rw [Run.step, insert_far h, hdue]

def idle (es : List TimerEntry) (now : UInt64) : TimerWheel := { overflow := es, now }

theorem setBucket_idle (es : List TimerEntry) (now : UInt64) (i : Nat × Nat) : (idle es now).setBucket i
    [] = idle es now :=
  congrArg (fun levels => ({ levels, overflow := es, now } : TimerWheel)) (Function.update_eq_self i fun _ => [])

theorem cascade_idle (es : List TimerEntry) (now : UInt64) (lvl n : Nat) : cascadeChain lvl n
    (idle es now) = idle es now := by
  induction n generalizing lvl with
  | zero => rfl
  | succ n ih =>
    rw [cascadeChain, setBucket_idle]
    change (if slot lvl now ≠ 0 then idle es now else cascadeChain (lvl + 1) n (idle es now)) = _
    rw [ih, ite_self]

theorem promote_blocked {top : TimerEntry} {rest : List TimerEntry} {now : UInt64}
    (h : spanTicks.toInt64 ≤ ahead now top) :
    promoteOverflow n (idle (top :: rest) now) = idle (top :: rest) now := by
  cases n with
  | zero => rfl
  | succ n => exact if_pos h

theorem run_idle (es : List TimerEntry) (hwheel : s.wheel = idle es (UInt64.ofNat s.ticks))
    (hwalking : s.walking = [])
    (hkeeps : ∀ t, s.ticks ≤ t → t < s.ticks + n →
      promoteOverflow es.length (idle es (UInt64.ofNat t)) = idle es (UInt64.ofNat t)) :
    Machine.run Run.step s (List.replicate n .tick) =
      some { s with wheel := idle es (UInt64.ofNat (s.ticks + n)), ticks := s.ticks + n } := by
  induction n generalizing s with
  | zero =>
    change some s = some { s with wheel := idle es (UInt64.ofNat s.ticks) }
    rw [← hwheel]
  | succ n ih =>
    have htick : s.wheel.tick = ([], idle es (UInt64.ofNat (s.ticks + 1))) := by
      have hstays : promoteOverflow (idle es (UInt64.ofNat s.ticks)).overflow.length
          (idle es (UInt64.ofNat s.ticks)) = _ :=
        hkeeps s.ticks le_rfl (by omega)
      rw [hwheel, tick, hstays, cascade_idle, ite_self, setBucket_idle, ofNat_add]
      rfl
    have hstep : s.step .tick = some
        { s with wheel := idle es (UInt64.ofNat (s.ticks + 1)), ticks := s.ticks + 1 } := by
      rw [Run.step, if_pos hwalking, htick, hwalking]
    have hrest := ih (s := { s with wheel := idle es (UInt64.ofNat (s.ticks + 1)), ticks := s.ticks + 1 }) rfl
      hwalking
      fun t hle hlt => hkeeps t (Nat.le_of_succ_le hle) (by dsimp only at hlt; omega)
    refine run_cons.mpr ⟨_, hstep, hrest.trans ?_⟩
    exact congrArg (fun t => some { s with wheel := idle es (UInt64.ofNat t), ticks := t })
      (Nat.succ_add_eq_add_succ s.ticks n)

end

section

variable {n : Nat}

/-- One entry for the next tick, and one that is overdue. -/
theorem fires_on_time_two : ∃ s : Run, s.fired = [(⟨0, 2⟩, 0), (⟨1, 1⟩, 1)] ∧
    (s.inserted.filter fun p => p.2 < s.ticks).Perm s.out := by
  obtain ⟨s, hrun, hfired⟩ := Option.map_eq_some_iff.mp (show (Machine.run (guarded Run.step Run.Clear) {}
    [.insert ⟨1, 1⟩, .insert ⟨0, 2⟩, .tick, .fire, .tick, .fire]).map Run.fired =
    some [(⟨0, 2⟩, 0), (⟨1, 1⟩, 1)] by decide +kernel)
  exact ⟨s, hfired, Run.fires_on_time (reach_of_run hrun)⟩

def lastTick : TimerEntry := ⟨18446744073709551615, 1⟩

def afterWrap : TimerEntry := ⟨16777216, 2⟩

/-- Both are inserted `n` ticks before the counter wraps. -/
def acrossWrap (n : Nat) : List Label :=
  List.replicate (2 ^ 64 - n) .tick ++ ([.insert lastTick, .insert afterWrap] ++ List.replicate n .tick)

/-- The later one comes first in the heap, and the earlier one stays behind it when its tick is over. -/
theorem run_acrossWrap (hlow : 2 ^ 24 < n) (hhigh : n ≤ 2 ^ 25) : ∃ s : Run, Machine.run Run.step {}
    (acrossWrap n) = some s ∧
    s.ticks = 2 ^ 64 ∧ s.out = [] ∧ (lastTick, 2 ^ 64 - 1) ∈ s.inserted := by
  unfold acrossWrap
  generalize ht : 2 ^ 64 - n = t
  have hlast := ahead_ofNat (e := lastTick) (t := 2 ^ 64 - 1) t (by decide) (by omega) (by omega)
  have hwrap : ∀ t', t ≤ t' → t' < t + n → (ahead (UInt64.ofNat t') afterWrap).toInt = (2 ^ 64 + 2 ^ 24 : Nat) - t' :=
    fun t' hle hlt => (ahead_ofNat (e := afterWrap) (t := 2 ^ 64 + 2 ^ 24) t' (by decide) (by omega) (by omega)).1
  have hbefore := run_idle (s := {}) (n := t) [] rfl rfl fun _ _ _ => rfl
  rw [zero_add] at hbefore
  let s : Run :=
    { wheel := idle [afterWrap, lastTick] (UInt64.ofNat t)
      ticks := t
      inserted := [(lastTick, 2 ^ 64 - 1), (afterWrap, 2 ^ 64 + 2 ^ 24)] }
  have hinsert : Machine.run Run.step { wheel := idle [] (UInt64.ofNat t), ticks := t } [.insert lastTick,
    .insert afterWrap] =
      some s := by
    have hfirst : spanTicks.toInt64 ≤ ahead (UInt64.ofNat t) lastTick := by
      rw [Int64.le_iff_toInt_le, spanTicks_toInt, hlast.1]
      omega
    have hsecond : spanTicks.toInt64 ≤ ahead (UInt64.ofNat t) afterWrap := by
      rw [Int64.le_iff_toInt_le, spanTicks_toInt, hwrap t le_rfl (by omega)]
      omega
    have hfirstDue : Run.due { wheel := idle [] (UInt64.ofNat t), ticks := t } lastTick = 2 ^ 64 - 1 := by
      change t + (ahead (UInt64.ofNat t) lastTick).toInt.toNat = _
      rw [hlast.1]
      omega
    have hsecondDue : Run.due
        { wheel := idle [lastTick] (UInt64.ofNat t), ticks := t, inserted := [(lastTick, 2 ^ 64 - 1)] } afterWrap =
        2 ^ 64 + 2 ^ 24 := by
      change t + (ahead (UInt64.ofNat t) afterWrap).toInt.toNat = _
      rw [hwrap t le_rfl (by omega)]
      omega
    exact run_cons.mpr ⟨_, step_insert_far hfirst hfirstDue,
      run_cons.mpr ⟨_, step_insert_far hsecond hsecondDue, rfl⟩⟩
  have hafter := run_idle (s := s) (n := n) [afterWrap, lastTick] rfl rfl fun t' hle hlt => by
    have hahead := hwrap t' hle hlt
    have hlt : t' < t + n := hlt
    refine promote_blocked ?_
    rw [Int64.le_iff_toInt_le, spanTicks_toInt, hahead]
    omega
  refine ⟨_, run_append.mpr ⟨_, hbefore, run_append.mpr ⟨s, hinsert, hafter⟩⟩, ?_, rfl, List.mem_cons_self⟩
  change t + n = 2 ^ 64
  omega

theorem last_tick_is_late : ∃ s : Run, Machine.run Run.step {} (acrossWrap (2 ^ 25)) = some s ∧
    s.ticks = 2 ^ 64 ∧ s.out = [] ∧
    (lastTick, 2 ^ 64 - 1) ∈ s.inserted :=
  run_acrossWrap (by decide) le_rfl

end

end TimerWheel

end Quark
