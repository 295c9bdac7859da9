import Mathlib.Data.List.Count
import Mathlib.Data.List.Forall2
import Mathlib.Data.Nat.Log
import Quark.Lib.LogLinear

/-! `histogram_spec.hpp`: the bucket of a value in closed form, the upper bounds of the buckets, and the block
of counters that records by them. -/
namespace Quark.Histogram

open List Option UInt64

def shiftLeft (x : UInt64) (s : UInt32) : Option UInt64 := if s < 64 then some (x <<< s.toUInt64) else none

def shiftRight (x : UInt64) (s : UInt32) : Option UInt64 := if s < 64 then some (x >>> s.toUInt64) else none

def countlZero (v : UInt64) : UInt32 := if v = 0 then 64 else 63 - UInt32.ofNat v.toNat.log2

def clamp (bucketCount b : UInt64) : UInt64 := if b < bucketCount then b else bucketCount - 1

section

variable (shift stepShift : UInt32) (bucketCount : UInt64)

def bucketIndexOf (v : UInt64) : Option UInt64 :=
  (shiftLeft 1 stepShift).bind fun sub =>
    let k0 := shift + stepShift
    (shiftLeft sub shift).bind fun headLimit =>
      if v < headLimit then (shiftRight v shift).map (clamp bucketCount)
      else
        let octave := 63 - countlZero v
        let octRel := octave - k0
        (shiftLeft 1 (octave - stepShift)).bind fun width =>
          (shiftLeft 1 octave).map fun top =>
            let subIndex := (v - top) / width
            clamp bucketCount (sub + octRel.toUInt64 * sub + subIndex)

/-- One turn of the loop of `make_boundaries`. -/
def boundary (sub i : UInt64) : Option UInt64 :=
  if i < sub then (shiftLeft (i + 1) shift).map (· - 1)
  else
    let rel := i - sub
    let octave := shift + stepShift + (rel / sub).toUInt32
    let subIndex := rel % sub
    (shiftLeft 1 (octave - stepShift)).bind fun width =>
      (shiftLeft 1 octave).map fun top =>
        let start := top + subIndex * width
        start + width - 1

def makeBoundaries : Option (List UInt64) :=
  (shiftLeft 1 stepShift).bind fun sub =>
    ((List.range bucketCount.toNat).mapM fun i => boundary shift stepShift sub (UInt64.ofNat i)).map fun b =>
      b.set (bucketCount.toNat - 1) (0 - 1)

end

/-- The brute-force oracle: the first label that bounds the value. -/
def scan (bounds : List UInt64) (v : UInt64) : Nat := bounds.findIdx (v ≤ ·)

structure HistogramSpec where
  bucketCount : UInt64
  shift : UInt32
  stepShift : UInt32

def HistogramSpec.boundaries (spec : HistogramSpec) : Option (List UInt64) :=
  makeBoundaries spec.shift spec.stepShift spec.bucketCount

def latencyNsSpec : HistogramSpec := ⟨48, 4, 4⟩

def mailboxDepthSpec : HistogramSpec := ⟨32, 0, 3⟩

structure HistogramBlock where
  buckets : List UInt64
  count : UInt64 := 0
  sum : UInt64 := 0
  min : UInt64 := 0 - 1
  max : UInt64 := 0
  deriving DecidableEq

namespace HistogramBlock

def new (spec : HistogramSpec) : HistogramBlock := { buckets := List.replicate spec.bucketCount.toNat 0 }

def record (spec : HistogramSpec) (h : HistogramBlock) (v : UInt64) : Option HistogramBlock :=
  (bucketIndexOf spec.shift spec.stepShift spec.bucketCount v).map fun b =>
    { buckets := h.buckets.modify b.toNat (· + 1)
      count := h.count + 1
      sum := h.sum + v
      min := if v < h.min then v else h.min
      max := if h.max < v then v else h.max }

end HistogramBlock

section

variable {x : UInt64} {s shift stepShift : UInt32} {bucketCount sub v : UInt64}

theorem toNat_shiftLeft (hs : s.toNat < 64) (hx : x.toNat * 2 ^ s.toNat < 2 ^ 64) :
    ∃ y, shiftLeft x s = some y ∧ y.toNat = x.toNat * 2 ^ s.toNat := by
  refine ⟨x <<< s.toUInt64, if_pos (UInt32.lt_iff_toNat_lt.mpr hs), ?_⟩
  rw [UInt64.toNat_shiftLeft, UInt32.toNat_toUInt64, Nat.mod_eq_of_lt hs, Nat.shiftLeft_eq, Nat.mod_eq_of_lt hx]

theorem toNat_shiftRight (hs : s.toNat < 64) : ∃ y, shiftRight x s = some y ∧ y.toNat = x.toNat / 2 ^ s.toNat := by
  refine ⟨x >>> s.toUInt64, if_pos (UInt32.lt_iff_toNat_lt.mpr hs), ?_⟩
  rw [UInt64.toNat_shiftRight, UInt32.toNat_toUInt64, Nat.mod_eq_of_lt hs, Nat.shiftRight_eq_div_pow]

theorem toNat_clamp {b : UInt64} (hcount : 1 ≤ bucketCount.toNat) :
    (clamp bucketCount b).toNat = min b.toNat (bucketCount.toNat - 1) := by
  unfold clamp
  split
  · next hlt =>
    have hlt := lt_iff_toNat_lt.mp hlt
    omega
  · next hge =>
    have hge := le_iff_toNat_le.mp (UInt64.not_lt.mp hge)
    have hone : 1 ≤ bucketCount := UInt64.le_iff_toNat_le.mpr (by rwa [UInt64.toNat_one])
    rw [UInt64.toNat_sub_of_le _ _ hone, UInt64.toNat_one]
    omega

theorem toNat_octave (hv : v ≠ 0) : (63 - countlZero v).toNat = v.toNat.log2 := by
  have hpos : v.toNat ≠ 0 := fun hzero => hv (UInt64.toNat_inj.mp hzero)
  have hlt : v.toNat.log2 < 64 := (Nat.log2_lt hpos).mpr v.toNat_lt
  have hlog : (UInt32.ofNat v.toNat.log2).toNat = v.toNat.log2 := UInt32.toNat_ofNat_of_lt (hlt.trans (by decide))
  have hle : UInt32.ofNat v.toNat.log2 ≤ 63 := UInt32.le_iff_toNat_le.mpr (by rw [hlog]; exact Nat.le_of_lt_succ hlt)
  have hcount : (63 - UInt32.ofNat v.toNat.log2).toNat = 63 - v.toNat.log2 := by
    rw [UInt32.toNat_sub_of_le _ _ hle, hlog]
    rfl
  rw [countlZero, if_neg hv, UInt32.toNat_sub_of_le, hcount]
  · change 63 - (63 - v.toNat.log2) = v.toNat.log2
    omega
  · rw [UInt32.le_iff_toNat_le, hcount]
    exact Nat.sub_le _ _

theorem shift_octave {octave : UInt32} {q : Nat} (hoctave : octave.toNat = shift.toNat + stepShift.toNat + q)
    (hlt : octave.toNat < 64) :
    (∃ w, shiftLeft 1 (octave - stepShift) = some w ∧ w.toNat = 2 ^ shift.toNat * 2 ^ q) ∧
      ∃ t, shiftLeft 1 octave = some t ∧ t.toNat = 2 ^ stepShift.toNat * (2 ^ shift.toNat * 2 ^ q) := by
  have hstep : (octave - stepShift).toNat = shift.toNat + q := by
    rw [UInt32.toNat_sub_of_le _ _ (UInt32.le_iff_toNat_le.mpr (by omega))]
    omega
  have hone {s : UInt32} (hs : s.toNat < 64) : ∃ y, shiftLeft 1 s = some y ∧ y.toNat = 2 ^ s.toNat := by
    obtain ⟨y, hy, hyval⟩ := toNat_shiftLeft (x := 1) hs (by
      rw [toNat_one, Nat.one_mul]
      exact Nat.pow_lt_pow_right (by decide) hs)
    exact ⟨y, hy, by rw [hyval, toNat_one, Nat.one_mul]⟩
  obtain ⟨w, hw, hwval⟩ := hone (s := octave - stepShift) (by omega)
  obtain ⟨t, ht, htval⟩ := hone hlt
  refine ⟨⟨w, hw, by rw [hwval, hstep, pow_add]⟩, t, ht, ?_⟩
  rw [htval, hoctave, pow_add, pow_add]
  ring

theorem exists_mapM {α β : Type} {f : α → Option β} {P : α → β → Prop} {l : List α}
    (h : ∀ a ∈ l, ∃ b, f a = some b ∧ P a b) : ∃ bs, l.mapM f = some bs ∧ List.Forall₂ P l bs := by
  induction l with
  | nil => exact ⟨[], rfl, .nil⟩
  | cons a l ih =>
    obtain ⟨b, hb, hP⟩ := h a mem_cons_self
    obtain ⟨bs, hbs, hall⟩ := ih fun a' ha' => h a' (mem_cons_of_mem a ha')
    exact ⟨b :: bs, by rw [mapM_cons, hb, hbs]; rfl, .cons hP hall⟩

theorem isLeast_scan {bounds : List UInt64} (h : scan bounds v < bounds.length) :
    IsLeast {i | ∃ bound ∈ bounds[i]?, v ≤ bound} (scan bounds v) := by
  refine ⟨⟨_, getElem?_eq_getElem h, of_decide_eq_true (findIdx_getElem (w := h))⟩, ?_⟩
  rintro i ⟨bound, hbound, hle⟩
  obtain ⟨hi, rfl⟩ := List.getElem?_eq_some_iff.mp hbound
  exact Nat.le_of_not_lt fun hlt => of_decide_eq_false (List.not_of_lt_findIdx hlt) hle

theorem scan_le_scan {bounds : List UInt64} {v' : UInt64} (hv : v ≤ v') (h : scan bounds v' < bounds.length) :
    scan bounds v ≤ scan bounds v' := by
  by_contra hlt
  have hbelow := of_decide_eq_false (not_of_lt_findIdx (Nat.lt_of_not_le hlt))
  have hat := of_decide_eq_true (findIdx_getElem (w := h))
  exact hbelow (UInt64.le_trans hv hat)

/-- The parameters for which the table of boundaries can be represented. -/
structure Representable (shift stepShift : UInt32) (bucketCount : UInt64) : Prop where
  count : 1 ≤ bucketCount.toNat
  head : shift.toNat + stepShift.toNat ≤ 63
  last : shift.toNat + stepShift.toNat + (bucketCount.toNat - 1) / 2 ^ stepShift.toNat ≤ 64

/-- The least value of bucket `i`. -/
def lowest (shift stepShift : UInt32) : Nat → Nat := LogLinear.edge (2 ^ stepShift.toNat) (2 ^ shift.toNat)

theorem lowest_strictMono : StrictMono (lowest shift stepShift) :=
  LogLinear.edge_strictMono (Nat.two_pow_pos _) (Nat.two_pow_pos _)

namespace Representable

theorem toNat_k0 (h : Representable shift stepShift bucketCount) :
    (shift + stepShift).toNat = shift.toNat + stepShift.toNat := by
  have hhead := h.head
  rw [UInt32.toNat_add, Nat.mod_eq_of_lt (by omega)]

theorem lowest_end (h : Representable shift stepShift bucketCount) :
    lowest shift stepShift (2 ^ stepShift.toNat * (65 - (shift.toNat + stepShift.toNat))) = 2 ^ 64 := by
  have hhead := h.head
  have hoctave := @LogLinear.edge_octave _ (2 ^ shift.toNat) (64 - (shift.toNat + stepShift.toNat)) _
    (Nat.two_pow_pos stepShift.toNat)
  obtain ⟨d, hd⟩ := Nat.exists_eq_add_of_le (show shift.toNat + stepShift.toNat ≤ 64 by omega)
  rw [lowest, show 65 - (shift.toNat + stepShift.toNat) = d + 1 by omega,
    show 2 ^ stepShift.toNat * (d + 1) = 2 ^ stepShift.toNat + d * 2 ^ stepShift.toNat + 0 by ring]
  rw [show 64 - (shift.toNat + stepShift.toNat) = d by omega] at hoctave
  rw [hoctave, hd, add_zero, pow_add, pow_add]
  ring

theorem count_le (h : Representable shift stepShift bucketCount) :
    bucketCount.toNat ≤ 2 ^ stepShift.toNat * (65 - (shift.toNat + stepShift.toNat)) := by
  have hlast := h.last
  have hcount := h.count
  have hlt : bucketCount.toNat - 1 < 2 ^ stepShift.toNat * (65 - (shift.toNat + stepShift.toNat)) := by
    rw [mul_comm, ← Nat.div_lt_iff_lt_mul (Nat.two_pow_pos _)]
    omega
  omega

theorem lowest_lt (h : Representable shift stepShift bucketCount) {i : Nat} (hi : i < bucketCount.toNat) :
    lowest shift stepShift i < 2 ^ 64 := by
  rw [← h.lowest_end]
  exact lowest_strictMono (hi.trans_le h.count_le)

theorem index_lt (h : Representable shift stepShift bucketCount) {i v : Nat} (hi : lowest shift stepShift i ≤ v)
    (hv : v < 2 ^ 64) : i < 2 ^ 64 := by
  have hhead := h.head
  rw [← h.lowest_end] at hv
  refine (lowest_strictMono.lt_iff_lt.mp (hi.trans_lt hv)).trans_le ?_
  calc 2 ^ stepShift.toNat * (65 - (shift.toNat + stepShift.toNat))
      ≤ 2 ^ (shift.toNat + stepShift.toNat) * 2 ^ (64 - (shift.toNat + stepShift.toNat)) := by
        refine Nat.mul_le_mul (Nat.pow_le_pow_right (by decide) (Nat.le_add_left ..)) ?_
        have hpow := Nat.lt_two_pow_self (n := 64 - (shift.toNat + stepShift.toNat))
        omega
    _ = 2 ^ 64 := by rw [← pow_add, Nat.add_sub_of_le (by omega)]

/-- Every turn of the loop has a value, and but for the last it is the greatest value of its bucket. -/
theorem boundary_eq (h : Representable shift stepShift bucketCount) (hsub : sub.toNat = 2 ^ stepShift.toNat) {i : Nat}
    (hi : i < bucketCount.toNat) :
    ∃ b, boundary shift stepShift sub (UInt64.ofNat i) = some b ∧
      (i + 1 < bucketCount.toNat → b.toNat + 1 = lowest shift stepShift (i + 1)) := by
  have hhead := h.head
  have hofNat : (UInt64.ofNat i).toNat = i := toNat_ofNat_of_lt' (hi.trans bucketCount.toNat_lt)
  have hpred {y : UInt64} (hy : 0 < y.toNat) : (y - 1).toNat + 1 = y.toNat := by
    rw [UInt64.toNat_sub_of_le _ _ (UInt64.le_iff_toNat_le.mpr (by rwa [UInt64.toNat_one])), UInt64.toNat_one,
      Nat.sub_add_cancel hy]
  unfold boundary
  split
  · next hlt =>
    rw [lt_iff_toNat_lt, hofNat, hsub] at hlt
    have hsucc : (UInt64.ofNat i + 1).toNat = i + 1 := by
      have hpow := Nat.pow_lt_pow_right (a := 2) (by decide) (show stepShift.toNat < 64 by omega)
      rw [UInt64.toNat_add, hofNat, UInt64.toNat_one, Nat.mod_eq_of_lt (by omega)]
    have hfit : (i + 1) * 2 ^ shift.toNat < 2 ^ 64 :=
      calc (i + 1) * 2 ^ shift.toNat ≤ 2 ^ stepShift.toNat * 2 ^ shift.toNat := Nat.mul_le_mul_right _ hlt
        _ = 2 ^ (stepShift.toNat + shift.toNat) := (pow_add ..).symm
        _ < 2 ^ 64 := Nat.pow_lt_pow_right (by decide) (by omega)
    obtain ⟨y, hy, hyval⟩ := toNat_shiftLeft (x := UInt64.ofNat i + 1) (s := shift) (by omega) (by rwa [hsucc])
    rw [hsucc] at hyval
    have hpos : 0 < y.toNat := hyval ▸ Nat.mul_pos (Nat.succ_pos i) (Nat.two_pow_pos _)
    refine ⟨y - 1, by rw [hy]; rfl, fun _ => ?_⟩
    rw [hpred hpos, hyval, lowest, LogLinear.edge_head (i := i + 1) hlt]
  · next hge =>
    rw [lt_iff_toNat_lt, hofNat, hsub, not_lt] at hge
    obtain ⟨q, r, hr, rfl⟩ := LogLinear.exists_octave (Nat.two_pow_pos _) hge
    have hq : shift.toNat + stepShift.toNat + q < 64 := by
      have hlast := h.last
      have hdiv : q + 1 ≤ (bucketCount.toNat - 1) / 2 ^ stepShift.toNat := by
        rw [Nat.le_div_iff_mul_le (Nat.two_pow_pos _), Nat.succ_mul]
        omega
      omega
    have hrel : (UInt64.ofNat (2 ^ stepShift.toNat + q * 2 ^ stepShift.toNat + r) - sub).toNat =
        q * 2 ^ stepShift.toNat + r := by
      rw [UInt64.toNat_sub_of_le _ _ (UInt64.le_iff_toNat_le.mpr (by rwa [hofNat, hsub])), hofNat, hsub]
      omega
    generalize UInt64.ofNat (2 ^ stepShift.toNat + q * 2 ^ stepShift.toNat + r) - sub = rel at hrel
    have hquot : (rel / sub).toNat = q := by
      rw [UInt64.toNat_div, hrel, hsub, mul_comm, Nat.mul_add_div (Nat.two_pow_pos _), Nat.div_eq_of_lt hr,
        add_zero]
    have hrest : (rel % sub).toNat = r := by
      rw [UInt64.toNat_mod, hrel, hsub, mul_comm, Nat.mul_add_mod, Nat.mod_eq_of_lt hr]
    have hoctave : (shift + stepShift + (rel / sub).toUInt32).toNat = shift.toNat + stepShift.toNat + q := by
      rw [UInt32.toNat_add, h.toNat_k0, UInt64.toNat_toUInt32, hquot, Nat.mod_eq_of_lt (by omega : q < 2 ^ 32),
        Nat.mod_eq_of_lt (by omega)]
    obtain ⟨⟨w, hw, hwval⟩, t, ht, htval⟩ := shift_octave hoctave (by omega)
    refine ⟨t + rel % sub * w + w - 1, by simp only [hw, ht, bind_some, map_some], fun hnext => ?_⟩
    have hfit := h.lowest_lt hnext
    rw [lowest, LogLinear.edge_succ (Nat.two_pow_pos _), LogLinear.edge_octave hr, LogLinear.width_octave hr, add_mul,
      ← htval, ← hwval] at hfit ⊢
    have hstart : (t + rel % sub * w + w).toNat = t.toNat + r * w.toNat + w.toNat := by
      rw [UInt64.toNat_add, UInt64.toNat_add, UInt64.toNat_mul, hrest,
        Nat.mod_eq_of_lt (by omega : r * w.toNat < 2 ^ 64),
        Nat.mod_eq_of_lt (by omega : t.toNat + r * w.toNat < 2 ^ 64), Nat.mod_eq_of_lt hfit]
    have hpos : 0 < w.toNat := hwval ▸ Nat.mul_pos (Nat.two_pow_pos _) (Nat.two_pow_pos _)
    rw [hpred (by omega), hstart]

theorem bucketIndexOf_eq (h : Representable shift stepShift bucketCount) (v : UInt64) :
    ∃ b j, bucketIndexOf shift stepShift bucketCount v = some b ∧ b.toNat = min j (bucketCount.toNat - 1) ∧
      lowest shift stepShift j ≤ v.toNat ∧ v.toNat < lowest shift stepShift (j + 1) := by
  have hhead := h.head
  have hpow {n : Nat} (hn : n < 64) : 2 ^ n < 2 ^ 64 := Nat.pow_lt_pow_right (by decide) hn
  obtain ⟨sub, hsub, hsubval⟩ := toNat_shiftLeft (x := 1) (s := stepShift) (by omega) (by
    rw [toNat_one, Nat.one_mul]
    exact hpow (by omega))
  rw [toNat_one, Nat.one_mul] at hsubval
  obtain ⟨limit, hlimit, hlimitval⟩ := toNat_shiftLeft (x := sub) (s := shift) (by omega) (by
    rw [hsubval, ← pow_add]
    exact hpow (by omega))
  rw [hsubval] at hlimitval
  rw [bucketIndexOf, hsub, bind_some, hlimit, bind_some]
  split
  · next hlt =>
    rw [lt_iff_toNat_lt, hlimitval] at hlt
    obtain ⟨y, hy, hyval⟩ := toNat_shiftRight (x := v) (s := shift) (by omega)
    obtain ⟨hle, hnext⟩ := LogLinear.bucket_linear (Nat.two_pow_pos _) hlt
    exact ⟨_, _, by rw [hy]; rfl, by rw [toNat_clamp h.count, hyval], hle, hnext⟩
  · next hge =>
    rw [lt_iff_toNat_lt, hlimitval, ← pow_add, not_lt] at hge
    have hne : v ≠ 0 := by
      rintro rfl
      exact absurd hge (Nat.not_le_of_lt (Nat.two_pow_pos _))
    have hpos : v.toNat ≠ 0 := fun hzero => hne (UInt64.toNat_inj.mp hzero)
    have hoctave := toNat_octave hne
    have hlog : v.toNat.log2 < 64 := (Nat.log2_lt hpos).mpr v.toNat_lt
    obtain ⟨q, hq⟩ := Nat.exists_eq_add_of_le ((Nat.le_log2 hpos).mpr hge)
    rw [add_comm stepShift.toNat] at hq
    generalize 63 - countlZero v = octave at hoctave
    obtain ⟨⟨w, hw, hwval⟩, t, ht, htval⟩ := shift_octave (hoctave.trans hq) (by omega)
    have htop : t.toNat = 2 ^ v.toNat.log2 := by
      rw [htval, hq, pow_add, pow_add]
      ring
    have hself := Nat.log2_self_le hpos
    have hdouble := Nat.lt_log2_self (n := v.toNat)
    rw [pow_succ, mul_comm _ 2, ← htop, htval] at hdouble
    rw [← htop, htval] at hself
    obtain ⟨hr, hle, hnext⟩ := LogLinear.bucket_octave (Nat.two_pow_pos _) hself hdouble
    rw [← htval, ← hwval] at hr hle hnext
    have hrel : (octave - (shift + stepShift)).toUInt64.toNat = q := by
      rw [UInt32.toNat_toUInt64, UInt32.toNat_sub_of_le _ _ (UInt32.le_iff_toNat_le.mpr (by rw [h.toNat_k0]; omega)),
        h.toNat_k0]
      omega
    have hsubIndex : ((v - t) / w).toNat = (v.toNat - t.toNat) / w.toNat := by
      rw [UInt64.toNat_div, UInt64.toNat_sub_of_le _ _ (UInt64.le_iff_toNat_le.mpr (htval ▸ hself))]
    have hfit := h.index_lt hle v.toNat_lt
    refine ⟨clamp bucketCount (sub + (octave - (shift + stepShift)).toUInt64 * sub + (v - t) / w), _,
      by simp only [hw, ht, bind_some, map_some], ?_, hle, hnext⟩
    rw [toNat_clamp h.count, UInt64.toNat_add, UInt64.toNat_add, UInt64.toNat_mul, hrel, hsubval, hsubIndex,
      Nat.mod_eq_of_lt (by omega : q * 2 ^ stepShift.toNat < 2 ^ 64),
      Nat.mod_eq_of_lt (by omega : 2 ^ stepShift.toNat + q * 2 ^ stepShift.toNat < 2 ^ 64), Nat.mod_eq_of_lt hfit]

theorem makeBoundaries_eq (h : Representable shift stepShift bucketCount) :
    ∃ bounds, makeBoundaries shift stepShift bucketCount = some bounds ∧ bounds.length = bucketCount.toNat ∧
      ∀ i (hi : i < bounds.length), if i + 1 < bucketCount.toNat
      then bounds[i].toNat + 1 = lowest shift stepShift (i + 1)
        else bounds[i].toNat = 2 ^ 64 - 1 := by
  have hhead := h.head
  obtain ⟨sub, hsub, hsubval⟩ := toNat_shiftLeft (x := 1) (s := stepShift) (by omega) (by
    rw [toNat_one, Nat.one_mul]
    exact Nat.pow_lt_pow_right (by decide) (by omega))
  rw [toNat_one, Nat.one_mul] at hsubval
  obtain ⟨bs, hbs, heach⟩ := exists_mapM (l := List.range bucketCount.toNat) fun i hi =>
    h.boundary_eq hsubval (mem_range.mp hi)
  obtain ⟨hlength, heach⟩ := forall₂_iff_get.mp heach
  rw [length_range] at hlength
  refine ⟨bs.set (bucketCount.toNat - 1) (0 - 1), by rw [makeBoundaries, hsub, bind_some, hbs]; rfl,
    by rw [length_set, hlength], fun i hi => ?_⟩
  rw [length_set] at hi
  split
  · next hlast =>
    have hbound := heach i (by rwa [length_range, hlength]) hi
    rw [List.get_eq_getElem, getElem_range] at hbound
    rw [getElem_set_ne (by omega)]
    exact hbound hlast
  · next hlast =>
    obtain rfl : i = bucketCount.toNat - 1 := by omega
    rw [getElem_set_self]
    rfl

/-- The closed form and the scan of the labels find the same bucket. -/
theorem bucketIndexOf_scan (h : Representable shift stepShift bucketCount) {bounds : List UInt64}
    (hbounds : makeBoundaries shift stepShift bucketCount = some bounds) (v : UInt64) :
    ∃ b, bucketIndexOf shift stepShift bucketCount v = some b ∧ scan bounds v = b.toNat := by
  obtain ⟨bs, hbs, hlength, heach⟩ := h.makeBoundaries_eq
  obtain rfl : bs = bounds := some.inj (hbs.symm.trans hbounds)
  have hcount := h.count
  obtain ⟨b, j, hb, hval, hle, hlt⟩ := h.bucketIndexOf_eq v
  have hblt : b.toNat < bs.length := by omega
  refine ⟨b, hb, (findIdx_eq hblt).mpr ⟨decide_eq_true ?_, fun i hi => decide_eq_false ?_⟩⟩
  · rw [le_iff_toNat_le]
    have hbound := heach b.toNat (by omega)
    split at hbound
    · obtain rfl : j = b.toNat := by omega
      omega
    · have hv := v.toNat_lt
      omega
  · have hbound := heach i (by omega)
    rw [if_pos (by omega)] at hbound
    have hmono : lowest shift stepShift (i + 1) ≤ lowest shift stepShift j := lowest_strictMono.monotone (by omega)
    rw [UInt64.not_le, lt_iff_toNat_lt]
    omega

theorem scan_lt (h : Representable shift stepShift bucketCount) {bounds : List UInt64}
    (hbounds : makeBoundaries shift stepShift bucketCount = some bounds) (v : UInt64) :
    scan bounds v < bounds.length := by
  obtain ⟨bs, hbs, hlength, heach⟩ := h.makeBoundaries_eq
  obtain rfl : bs = bounds := some.inj (hbs.symm.trans hbounds)
  have hcount := h.count
  have hlast := heach (bs.length - 1) (by omega)
  rw [if_neg (by omega)] at hlast
  refine findIdx_lt_length_of_exists ⟨_, getElem_mem (show bs.length - 1 < bs.length by omega), decide_eq_true ?_⟩
  rw [le_iff_toNat_le, hlast]
  exact Nat.le_sub_one_of_lt v.toNat_lt

theorem boundaries_pairwise (h : Representable shift stepShift bucketCount) {bounds : List UInt64}
    (hbounds : makeBoundaries shift stepShift bucketCount = some bounds) : bounds.Pairwise (· < ·) := by
  obtain ⟨bs, hbs, hlength, heach⟩ := h.makeBoundaries_eq
  obtain rfl : bs = bounds := some.inj (hbs.symm.trans hbounds)
  refine pairwise_iff_getElem.mpr fun i j hi hj hij => lt_iff_toNat_lt.mpr ?_
  have hbelow := heach i hi
  rw [if_pos (by omega)] at hbelow
  have habove := heach j hj
  split at habove
  · have hmono : lowest shift stepShift (i + 1) < lowest shift stepShift (j + 1) := lowest_strictMono (by omega)
    omega
  · have hlast := h.lowest_lt (i := i + 1) (by omega)
    omega

end Representable

end

theorem foldlM_record {spec : HistogramSpec} (h : Representable spec.shift spec.stepShift spec.bucketCount)
    {bounds : List UInt64} (hbounds : spec.boundaries = some bounds) (vs : List UInt64) (block : HistogramBlock) :
    ∃ block', vs.foldlM (HistogramBlock.record spec) block = some block' ∧
    block'.buckets.length = block.buckets.length ∧ ∀ i n, block.buckets[i]? = some n →
        block'.buckets[i]? = some (n + UInt64.ofNat (vs.countP fun v => scan bounds v = i)) := by
  induction vs generalizing block with
  | nil => exact ⟨block, rfl, rfl, fun i n hn => by simpa using hn⟩
  | cons v vs ih =>
    obtain ⟨b, hb, hscan⟩ := h.bucketIndexOf_scan hbounds v
    obtain ⟨block', hrun, hlength, heach⟩ := ih
      { buckets := block.buckets.modify b.toNat (· + 1)
        count := block.count + 1
        sum := block.sum + v
        min := if v < block.min then v else block.min
        max := if block.max < v then v else block.max }
    refine ⟨block', ?_, hlength.trans (length_modify ..), fun i n hn => ?_⟩
    · rw [foldlM_cons, HistogramBlock.record, hb]
      exact hrun
    · have hadded := heach i (if b.toNat = i then n + 1 else n) (by
        rw [getElem?_modify, hn]
        split <;> rfl)
      rw [hadded, countP_cons, hscan]
      by_cases heq : b.toNat = i
      · rw [if_pos heq, if_pos (decide_eq_true heq), ofNat_add, UInt64.add_assoc, UInt64.add_comm 1]
        rfl
      · rw [if_neg heq, if_neg (by simpa using heq), add_zero]

/-- The closed form agrees with the table of labels for every value, and what is recorded is counted under its
label. -/
theorem closed_form (spec : HistogramSpec) (h : Representable spec.shift spec.stepShift spec.bucketCount) :
    ∃ bounds, spec.boundaries = some bounds ∧ bounds.length = spec.bucketCount.toNat ∧ bounds.Pairwise (· < ·) ∧
      (∀ v, ∃ b, bucketIndexOf spec.shift spec.stepShift spec.bucketCount v = some b ∧
        scan bounds v = b.toNat ∧ IsLeast {i | ∃ bound ∈ bounds[i]?, v ≤ bound} b.toNat) ∧
      (∀ v v' b b', bucketIndexOf spec.shift spec.stepShift spec.bucketCount v = some b →
        bucketIndexOf spec.shift spec.stepShift spec.bucketCount v' = some b' → v ≤ v' → b ≤ b') ∧
      ∀ vs : List UInt64, ∃ block, vs.foldlM (HistogramBlock.record spec) (HistogramBlock.new spec) = some block ∧
        block.buckets.length = spec.bucketCount.toNat ∧
        ∀ i < spec.bucketCount.toNat,
          block.buckets[i]? = some (UInt64.ofNat (vs.countP fun v => scan bounds v = i)) := by
  obtain ⟨bounds, hbounds, hlength, -⟩ := h.makeBoundaries_eq
  refine ⟨bounds, hbounds, hlength, h.boundaries_pairwise hbounds,
    fun v => ?_, fun v v' b b' hb hb' hv => ?_, fun vs => ?_⟩
  · obtain ⟨b, hb, hscan⟩ := h.bucketIndexOf_scan hbounds v
    exact ⟨b, hb, hscan, hscan ▸ isLeast_scan (h.scan_lt hbounds v)⟩
  · obtain ⟨c, hc, hscan⟩ := h.bucketIndexOf_scan hbounds v
    obtain rfl : c = b := some.inj (hc.symm.trans hb)
    obtain ⟨c', hc', hscan'⟩ := h.bucketIndexOf_scan hbounds v'
    obtain rfl : c' = b' := some.inj (hc'.symm.trans hb')
    rw [le_iff_toNat_le, ← hscan, ← hscan']
    exact scan_le_scan hv (h.scan_lt hbounds v')
  · obtain ⟨block, hrun, hcount, heach⟩ := foldlM_record h hbounds vs (HistogramBlock.new spec)
    rw [HistogramBlock.new, length_replicate] at hcount
    refine ⟨block, hrun, hcount, fun i hi => ?_⟩
    have hadded := heach i 0 (by rw [HistogramBlock.new, getElem?_replicate, if_pos hi])
    rwa [UInt64.zero_add] at hadded

/-- Thirty-two buckets of depths: eight of one, then octaves of eight. -/
theorem closed_form_mailboxDepth :
    Representable 0 3 32 ∧ ∃ bounds, mailboxDepthSpec.boundaries = some bounds ∧ bounds.Pairwise (· < ·) := by
  have hspec : Representable mailboxDepthSpec.shift mailboxDepthSpec.stepShift mailboxDepthSpec.bucketCount :=
    ⟨by decide, by decide, by decide⟩
  obtain ⟨bounds, hbounds, -, hpairwise, -⟩ := closed_form mailboxDepthSpec hspec
  exact ⟨hspec, bounds, hbounds, hpairwise⟩

end Quark.Histogram
