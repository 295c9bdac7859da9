import Mathlib.Data.List.Sort
import Quark.Lib.Table
import Quark.Lib.XorWalk

/-! `KademliaTable`, `RelayOverlay` and `ClusterTopologyConfig` of `cluster_topology.hpp`. -/
namespace Quark.Topology

open List UInt64

abbrev NodeId := UInt64

def xorDistance (a b : NodeId) : UInt64 := a ^^^ b

/-- As far from `self_` as `y`, or nearer. -/
def Closer (self_ x y : NodeId) : Prop := (xorDistance self_ x).toNat ≤ (xorDistance self_ y).toNat

instance (self_ : NodeId) : DecidableRel (Closer self_) := fun _ _ => inferInstanceAs (Decidable (_ ≤ _))

instance (self_ : NodeId) : Std.Total (Closer self_) := ⟨fun _ _ => le_total _ _⟩

instance (self_ : NodeId) : IsTrans NodeId (Closer self_) := ⟨fun _ _ _ => le_trans⟩

structure KademliaTable where
  self_ : NodeId
  buckets : List (List NodeId)

namespace KademliaTable

/-- The highest bit in which `n` differs from `self_`. -/
def index (self_ n : NodeId) : Nat := (xorDistance self_ n).toNat.log2

def bucket (self_ : NodeId) (known : List NodeId) (k : UInt32) (i : Nat) : List NodeId :=
  let b := (known.filter fun n => n ≠ self_ ∧ index self_ n = i).insertionSort (Closer self_)
  if k ≠ 0 then b.take k.toNat else b

/-- Without a bound on the buckets, `k = 0` keeps all. -/
def build (self_ : NodeId) (known : List NodeId) (k : UInt32) : KademliaTable :=
  { self_, buckets := (List.range 64).map (bucket self_ known k) }

def better (target : NodeId) (best : Option NodeId) (n : NodeId) : Option NodeId :=
  match best with
  | none => some n
  | some b => if xorDistance n target < xorDistance b target then some n else some b

def nextHop (t : KademliaTable) (target : NodeId) : Option NodeId :=
  if target = t.self_ then some t.self_
  else match t.buckets.flatten.foldl (better target) none with
    | none => none
    | some best => if xorDistance best target < xorDistance t.self_ target then some best else none

end KademliaTable

structure RelayOverlay where
  roster : List NodeId
  tables : Table NodeId KademliaTable

namespace RelayOverlay

def emplace (tables : Table NodeId KademliaTable) (n : NodeId) (t : KademliaTable) : Table NodeId KademliaTable :=
  match tables.lookup n with
  | none => tables.insert n t
  | some _ => tables

def build (roster : List NodeId) (k : UInt32) : RelayOverlay :=
  let roster := roster.insertionSort fun a b => a.toNat ≤ b.toNat
  { roster
    tables := roster.foldl (fun tables n => emplace tables n (KademliaTable.build n roster k)) ∅ }

def nextHop (o : RelayOverlay) (cur target : NodeId) : Option NodeId :=
  match o.tables.lookup cur with
  | none => none
  | some t => t.nextHop target

def routeFrom (o : RelayOverlay) (dst : NodeId) : Nat → NodeId → List NodeId → List NodeId
  | 0, _, _ => []
  | n + 1, cur, path =>
    if cur = dst then path
    else match o.nextHop cur dst with
      | none => []
      | some nh =>
        if nh = cur then []
        else if nh = dst then path ++ [nh]
        else routeFrom o dst n nh (path ++ [nh])

/-- The hops after `src`, or none where the route fails. -/
def route (o : RelayOverlay) (src dst : NodeId) (maxHops : Nat) : List NodeId := o.routeFrom dst maxHops src []

end RelayOverlay

/-- The knobs that the relay reads. -/
structure ClusterTopologyConfig where
  maxNodes : UInt64 := 1
  relayCap : UInt32 := 0

def ClusterTopologyConfig.effectiveRelayCap (cfg : ClusterTopologyConfig) : Nat :=
  if cfg.relayCap ≠ 0 then cfg.relayCap.toNat
  else
    let n := if cfg.maxNodes < 2 then 2 else cfg.maxNodes
    (n - 1).toNat.log2 + 1

theorem effectiveRelayCap_default (maxNodes : UInt64) :
    ({ maxNodes } : ClusterTopologyConfig).effectiveRelayCap = Nat.clog 2 (max maxNodes.toNat 2) := by
  have hclog : ∀ n, 2 ≤ n → (n - 1).log2 + 1 = Nat.clog 2 n := by
    intro n hn
    have hne : n - 1 ≠ 0 := by omega
    refine le_antisymm ?_ (Nat.clog_le_of_le_pow ?_)
    · refine (Nat.lt_clog_iff_pow_lt (by decide)).mpr ?_
      have hlow : 2 ^ (n - 1).log2 ≤ n - 1 := Nat.log2_self_le hne
      omega
    · have hhigh : n - 1 < 2 ^ ((n - 1).log2 + 1) := Nat.lt_log2_self
      omega
  unfold ClusterTopologyConfig.effectiveRelayCap
  simp only [ne_eq, not_true_eq_false, if_false]
  split
  · next hsmall =>
    have hle : maxNodes.toNat ≤ 2 := (lt_iff_toNat_lt.mp hsmall).le
    rw [Nat.max_eq_right hle]
    exact hclog 2 (Nat.le_refl 2)
  · next hlarge =>
    have hge : 2 ≤ maxNodes.toNat := not_lt.mp fun hlt => hlarge (UInt64.lt_iff_toNat_lt.mpr hlt)
    rw [Nat.max_eq_left hge, UInt64.toNat_sub_of_le _ _ (UInt64.le_iff_toNat_le.mpr (by
      change 1 ≤ maxNodes.toNat
      omega))]
    exact hclog _ hge

/-- How far `n` is from `dst`. -/
def dist (dst n : NodeId) : ℕ := (xorDistance n dst).toNat

section

variable {dst cur n m x y : NodeId} {roster l : List NodeId} {k : UInt32} {i : Nat}

theorem dist_xor (dst a b : NodeId) : (xorDistance a b).toNat = dist dst a ^^^ dist dst b := by
  simp only [dist, xorDistance, UInt64.toNat_xor]
  rw [Nat.xor_assoc, Nat.xor_comm b.toNat, Nat.xor_xor_cancel_left]

theorem dist_self (dst : NodeId) : dist dst dst = 0 := by
  rw [dist, xorDistance, UInt64.xor_self]
  rfl

theorem dist_inj : dist dst n = dist dst m ↔ n = m := by
  refine ⟨fun h => ?_, fun h => by rw [h]⟩
  simp only [dist, xorDistance, UInt64.toNat_xor] at h
  exact UInt64.toNat_inj.mp (Nat.xor_left_injective h)

theorem dist_eq_zero : dist dst n = 0 ↔ n = dst := by
  rw [← dist_self dst]
  exact dist_inj

theorem dist_comm (a b : NodeId) : dist a b = dist b a := by
  rw [dist, dist, xorDistance, xorDistance, UInt64.xor_comm]

theorem dist_lt (dst n : NodeId) : dist dst n < 2 ^ 64 := toNat_lt _

/-- The members that are nearer to `dst` in the highest bit in which `n` is wrong. -/
def beyond (roster : List NodeId) (dst n : NodeId) : Finset NodeId :=
  roster.toFinset.filter fun m => dist dst m < 2 ^ (dist dst n).log2

/-- `n` relays to `m`: of the `k` members beyond that are nearest to `n` it is nearest to `dst`. -/
structure Relay (roster : List NodeId) (k : ℕ) (dst n m : NodeId) : Prop where
  mem : m ∈ beyond roster dst n
  near : ((beyond roster dst n).filter fun x => dist n x < dist n m).card < k
  nearest : ∀ x ∈ beyond roster dst n, ((beyond roster dst n).filter fun y => dist n y < dist n x).card < k →
    dist dst m ≤ dist dst x

theorem Relay.unique (h : Relay roster k.toNat dst n m) (h' : Relay roster k.toNat dst n x) : m = x :=
  dist_inj.mp (le_antisymm (h.nearest x h'.mem h'.near) (h'.nearest m h.mem h.near))

namespace KademliaTable

def full (self_ : NodeId) (known : List NodeId) (i : Nat) : List NodeId :=
  (known.filter fun n => n ≠ self_ ∧ index self_ n = i).insertionSort (Closer self_)

theorem bucket_eq (hk : k ≠ 0) : bucket cur roster k i = (full cur roster i).take k.toNat := if_pos hk

theorem mem_full : x ∈ full cur roster i ↔ x ∈ roster ∧ x ≠ cur ∧ index cur x = i := by
  simp [full]

theorem mem_full_beyond (hne : cur ≠ dst) : x ∈ full cur roster (index cur dst) ↔ x ∈ beyond roster dst cur := by
  have hd : dist dst cur ≠ 0 := fun hzero => hne (dist_eq_zero.mp hzero)
  have hindex : ∀ y, index cur y = (dist dst y ^^^ dist dst cur).log2 := fun y => by
    rw [index, dist_xor dst, Nat.xor_comm]
  have hzero : (dist dst dst ^^^ dist dst cur).log2 = (dist dst cur).log2 := by rw [dist_self, Nat.zero_xor]
  rw [mem_full, hindex, hindex, hzero, beyond, Finset.mem_filter, List.mem_toFinset, ← XorWalk.log2_xor hd]
  exact and_congr_right fun _ => and_congr_left fun _ => not_congr dist_inj.symm

theorem full_nodup (h : roster.Nodup) : (full cur roster i).Nodup :=
  (perm_insertionSort _ _).nodup_iff.mpr (h.filter _)

theorem mem_take (hnodup : l.Nodup) (hsorted : l.Pairwise (Closer cur)) {k : ℕ} :
    x ∈ l.take k ↔ x ∈ l ∧ (l.toFinset.filter fun y => dist cur y < dist cur x).card < k := by
  have hcloser : ∀ {a b}, Closer cur a b ↔ dist cur a ≤ dist cur b := by
    intro a b
    rw [dist_comm cur a, dist_comm cur b]
    exact Iff.rfl
  rw [← take_append_drop k l] at hnodup hsorted
  have hparts : ∀ y ∈ l.take k, ∀ z ∈ l.drop k, dist cur y < dist cur z := by
    intro y hy z hz
    have hle := hcloser.mp ((pairwise_append.mp hsorted).2.2 y hy z hz)
    refine Nat.lt_of_le_of_ne hle fun heq => ?_
    exact (nodup_append.mp hnodup).2.2 y hy z hz (dist_inj.mp heq)
  have htake : (l.take k).Nodup := (nodup_append.mp hnodup).1
  constructor
  · intro hx
    refine ⟨mem_of_mem_take hx, ?_⟩
    have hsub : (l.toFinset.filter fun y => dist cur y < dist cur x) ⊂ (l.take k).toFinset := by
      refine (Finset.ssubset_iff_of_subset fun y hy => ?_).mpr ⟨x, mem_toFinset.mpr hx, by simp⟩
      obtain ⟨hin, hless⟩ := Finset.mem_filter.mp hy
      rw [List.mem_toFinset, ← take_append_drop k l] at hin
      refine mem_toFinset.mpr ((mem_append.mp hin).resolve_right fun hdrop => ?_)
      have hmore := hparts x hx y hdrop
      omega
    refine (Finset.card_lt_card hsub).trans_le ?_
    rw [toFinset_card_of_nodup htake, length_take]
    exact min_le_left _ _
  · rintro ⟨hin, hfew⟩
    rw [← take_append_drop k l] at hin
    refine (mem_append.mp hin).resolve_right fun hdrop => ?_
    have hsub : (l.take k).toFinset ⊆ l.toFinset.filter fun y => dist cur y < dist cur x := by
      intro y hy
      have hy := mem_toFinset.mp hy
      exact Finset.mem_filter.mpr ⟨mem_toFinset.mpr (mem_of_mem_take hy), hparts y hy x hdrop⟩
    have hcard := Finset.card_le_card hsub
    have hlong : k < l.length := by
      have hpos := length_pos_of_mem hdrop
      rw [length_drop] at hpos
      omega
    rw [toFinset_card_of_nodup htake, length_take, Nat.min_eq_left hlong.le] at hcard
    omega

theorem better_spec (l : List NodeId) {best : NodeId} {b : Option NodeId}
    (h : l.foldl (better dst) b = some best) : (best ∈ l ∨ b = some best) ∧
      (∀ x ∈ l, dist dst best ≤ dist dst x) ∧ ∀ x, b = some x → dist dst best ≤ dist dst x := by
  induction l generalizing b with
  | nil => exact ⟨.inr h, by simp, fun x hx => by cases h.symm.trans hx; exact le_rfl⟩
  | cons n l ih =>
    obtain ⟨hin, hleast, hbest⟩ := ih h
    have hnext : ∃ y, better dst b n = some y ∧ (y = n ∨ b = some y) ∧ dist dst y ≤ dist dst n ∧
        ∀ x, b = some x → dist dst y ≤ dist dst x := by
      cases b with
      | none => exact ⟨n, rfl, .inl rfl, le_rfl, nofun⟩
      | some b =>
        rw [better]
        split
        · next hless =>
          refine ⟨n, rfl, .inl rfl, le_rfl, fun x hx => ?_⟩
          cases hx
          exact (lt_iff_toNat_lt.mp hless).le
        · next hmore =>
          refine ⟨b, rfl, .inr rfl, not_lt.mp fun hlt => hmore (lt_iff_toNat_lt.mpr hlt), fun x hx => ?_⟩
          cases hx
          exact le_rfl
    obtain ⟨y, hy, hfrom, hyn, hyb⟩ := hnext
    have hbesty := hbest y hy
    refine ⟨?_, fun x hx => ?_, fun x hx => hbesty.trans (hyb x hx)⟩
    · obtain hin | heq := hin
      · exact .inl (mem_cons_of_mem _ hin)
      · cases hy.symm.trans heq
        exact hfrom.imp_left fun heq => by rw [heq]; exact mem_cons_self
    · rcases mem_cons.mp hx with rfl | hx
      · exact hbesty.trans hyn
      · exact hleast x hx

theorem better_isSome (n : NodeId) (l : List NodeId) (b : Option NodeId) :
    ((n :: l).foldl (better dst) b).isSome = true := by
  induction l generalizing n b with
  | nil =>
    rw [foldl_cons, foldl_nil]
    unfold better
    split
    · rfl
    · split <;> rfl
  | cons m l ih =>
    rw [foldl_cons]
    exact ih m _

theorem mem_buckets (hk : k ≠ 0) (h : x ∈ (build cur roster k).buckets.flatten) :
    x ∈ roster ∧ x ≠ cur ∧ x ∈ bucket cur roster k (index cur x) := by
  obtain ⟨b, hb, hx⟩ := mem_flatten.mp h
  obtain ⟨i, -, rfl⟩ := mem_map.mp hb
  have hfull : x ∈ full cur roster i := by
    rw [bucket_eq hk] at hx
    exact mem_of_mem_take hx
  obtain ⟨hin, hne, rfl⟩ := mem_full.mp hfull
  exact ⟨hin, hne, hx⟩

theorem bucket_mem (h : x ∈ bucket cur roster k i) (hi : i < 64) : x ∈ (build cur roster k).buckets.flatten :=
  mem_flatten.mpr ⟨_, mem_map.mpr ⟨i, mem_range.mpr hi, rfl⟩, h⟩

theorem index_lt : index cur dst < 64 := by
  by_cases hzero : (xorDistance cur dst).toNat = 0
  · rw [index, hzero, Nat.log2_zero]
    decide
  · exact (Nat.log2_lt hzero).mpr (toNat_lt _)

/-- With a bucket for every bit the next hop comes from the bucket that the target falls into. -/
theorem nextHop_build (hk : k ≠ 0) (hdst : dst ∈ roster) (hne : cur ≠ dst) :
    ∃ m, (build cur roster k).nextHop dst = some m ∧ m ∈ bucket cur roster k (index cur dst) ∧
      ∀ x ∈ bucket cur roster k (index cur dst), dist dst m ≤ dist dst x := by
  have hd : dist dst cur ≠ 0 := fun hzero => hne (dist_eq_zero.mp hzero)
  have hbucket : ∀ x, x ∈ bucket cur roster k (index cur dst) → x ∈ beyond roster dst cur := by
    intro x hx
    rw [bucket_eq hk] at hx
    exact (mem_full_beyond hne).mp (mem_of_mem_take hx)
  have hpos : ∃ y, y ∈ bucket cur roster k (index cur dst) := by
    have hin : dst ∈ full cur roster (index cur dst) := mem_full.mpr ⟨hdst, Ne.symm hne, rfl⟩
    rw [bucket_eq hk]
    refine exists_mem_of_length_pos ?_
    rw [length_take]
    have hlen := length_pos_of_mem hin
    have hkpos : k.toNat ≠ 0 := fun hzero => hk (UInt32.toNat_inj.mp hzero)
    omega
  obtain ⟨y, hy⟩ := hpos
  have hflat := bucket_mem hy index_lt
  obtain ⟨n, l, hl⟩ := exists_cons_of_ne_nil (ne_nil_of_mem hflat)
  obtain ⟨m, hm⟩ := Option.isSome_iff_exists.mp (@better_isSome dst n l none)
  rw [← hl] at hm
  obtain ⟨hin, hleast, -⟩ := better_spec _ hm
  have hin := hin.resolve_right (by simp)
  have hclose : dist dst m < 2 ^ (dist dst cur).log2 :=
    (hleast y hflat).trans_lt (Finset.mem_filter.mp (hbucket y hy)).2
  obtain ⟨hmr, hmc, hmb⟩ := mem_buckets hk hin
  have hsame : index cur m = index cur dst := by
    have hbeyond : m ∈ beyond roster dst cur := Finset.mem_filter.mpr ⟨mem_toFinset.mpr hmr, hclose⟩
    exact (mem_full.mp ((mem_full_beyond hne).mpr hbeyond)).2.2
  rw [hsame] at hmb
  refine ⟨m, ?_, hmb, fun x hx => hleast x (bucket_mem hx index_lt)⟩
  unfold nextHop
  have hother : dst ≠ (build cur roster k).self_ := Ne.symm hne
  rw [if_neg hother, hm]
  exact if_pos (lt_iff_toNat_lt.mpr (hclose.trans_le (Nat.log2_self_le hd)))

theorem nextHop_relay (hnodup : roster.Nodup) (hk : k ≠ 0) (hdst : dst ∈ roster) (hne : cur ≠ dst) :
    ∃ m, (build cur roster k).nextHop dst = some m ∧ Relay roster k.toNat dst cur m ∧
      XorWalk.Hop (roster.toFinset.image (dist dst)) k.toNat (dist dst cur) (dist dst m) := by
  obtain ⟨m, hm, hin, hleast⟩ := nextHop_build hk hdst hne
  have hset : (full cur roster (index cur dst)).toFinset = beyond roster dst cur :=
    Finset.ext fun x => mem_toFinset.trans (mem_full_beyond hne)
  have hfirst : ∀ {x}, x ∈ bucket cur roster k (index cur dst) ↔ x ∈ beyond roster dst cur ∧
      ((beyond roster dst cur).filter fun y => dist cur y < dist cur x).card < k.toNat := by
    intro x
    rw [bucket_eq hk, mem_take (full_nodup hnodup) (pairwise_insertionSort _ _), mem_full_beyond hne, hset]
  obtain ⟨hbeyond, hnear⟩ := hfirst.mp hin
  refine ⟨m, hm, ⟨hbeyond, hnear, fun x hx hfew => hleast x (hfirst.mpr ⟨hx, hfew⟩)⟩,
    (Finset.mem_filter.mp hbeyond).2, ?_⟩
  by_cases hfew : ((beyond roster dst cur).filter fun y => dist cur y < dist cur dst).card < k.toNat
  · left
    have hbeyond : dst ∈ beyond roster dst cur := (mem_full_beyond hne).mp (mem_full.mpr ⟨hdst, Ne.symm hne, rfl⟩)
    have hle := hleast dst (hfirst.mpr ⟨hbeyond, hfew⟩)
    rw [dist_self] at hle
    exact Nat.le_zero.mp hle
  · right
    have hnodup' : (bucket cur roster k (index cur dst)).Nodup := by
      rw [bucket_eq hk]
      exact (full_nodup hnodup).sublist (take_sublist _ _)
    have hlength : (bucket cur roster k (index cur dst)).length = k.toNat := by
      have hle := Finset.card_le_card (Finset.filter_subset (fun y => dist cur y < dist cur dst)
        (beyond roster dst cur))
      rw [← hset, toFinset_card_of_nodup (full_nodup hnodup)] at hle
      rw [bucket_eq hk, length_take]
      rw [← hset] at hfew
      omega
    have hdsts : dst ∉ bucket cur roster k (index cur dst) := fun hmem => hfew (hfirst.mp hmem).2
    refine ⟨(bucket cur roster k (index cur dst)).toFinset.image (dist dst), ?_, ?_, fun d hd => ?_⟩
    · refine Finset.image_subset_image fun x hx => ?_
      exact (Finset.mem_filter.mp (hfirst.mp (mem_toFinset.mp hx)).1).1
    · rw [Finset.card_image_of_injective _ fun _ _ heq => dist_inj.mp heq, toFinset_card_of_nodup hnodup', hlength]
    · obtain ⟨x, hx, rfl⟩ := Finset.mem_image.mp hd
      have hx := mem_toFinset.mp hx
      refine ⟨(Finset.mem_filter.mp (hfirst.mp hx).1).2, hleast x hx, ?_⟩
      have hless : dist cur x < dist cur dst := by
        by_contra hmore
        refine hdsts (hfirst.mpr ⟨(mem_full_beyond hne).mp (mem_full.mpr ⟨hdst, Ne.symm hne, rfl⟩), ?_⟩)
        refine (Finset.card_le_card fun y hy => ?_).trans_lt (hfirst.mp hx).2
        obtain ⟨hy, hyd⟩ := Finset.mem_filter.mp hy
        exact Finset.mem_filter.mpr ⟨hy, by omega⟩
      rw [dist_comm cur dst] at hless
      rw [← dist_xor]
      exact hless

end KademliaTable

end

end Quark.Topology
