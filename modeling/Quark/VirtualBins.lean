import Quark.Placement

/-! `VirtualBins` and `VirtualBinsCache` of `cluster_topology.hpp`: a table of the owners of hash bins, and
the cache that builds it again when the digest of the roster moves. -/
namespace Quark.Placement

open List Option UInt64

def smear (x : UInt64) : UInt64 :=
  let x := x ||| (x >>> 1)
  let x := x ||| (x >>> 2)
  let x := x ||| (x >>> 4)
  let x := x ||| (x >>> 8)
  let x := x ||| (x >>> 16)
  x ||| (x >>> 32)

def nextPow2 (x : UInt64) : UInt64 := if x ≤ 1 then 1 else smear (x - 1) + 1

def binKey (bin : UInt64) : UInt64 := splitmix64 (bin ^^^ 0xD1B54A32D192ED03)

def rosterDigest (nodes : List NodeId) : UInt64 :=
  nodes.foldl (fun acc n => acc ^^^ splitmix64 (n + 0x9E3779B97F4A7C15)) 0

structure VirtualBins where
  table : List NodeId := []
  mask : UInt64 := 0
  digest : UInt64 := 0
  empty : Bool := true

namespace VirtualBins

def fill (nodes : List NodeId) (b : UInt64) : List NodeId :=
  if nodes = [] then List.replicate b.toNat 0
  else (List.range b.toNat).map fun bin => (placeHash (binKey (UInt64.ofNat bin)) nodes).getD 0

def rebuild (nodes : List NodeId) (bucketCount : UInt64) : VirtualBins where
  table := fill nodes (nextPow2 bucketCount)
  mask := nextPow2 bucketCount - 1
  digest := rosterDigest nodes
  empty := nodes.isEmpty

variable (t : VirtualBins)

def binOf (id : ActorId) : UInt64 := splitmix64 id.hash &&& t.mask

def ownerOf (id : ActorId) : Option NodeId := if t.empty then none else some (t.table.getD (t.binOf id).toNat 0)

def ownerOfBin (bin : UInt64) : NodeId := t.table.getD (bin &&& t.mask).toNat 0

end VirtualBins

structure VirtualBinsCache where
  bucketCount : UInt64
  snapshot : Option VirtualBins := none
  epoch : UInt64 := 0

namespace VirtualBinsCache

def new (bucketCount : UInt64) : VirtualBinsCache := { bucketCount := nextPow2 bucketCount }

def rebuildFor (c : VirtualBinsCache) (view : List NodeId) : Bool × VirtualBinsCache :=
  if c.snapshot.any fun t => t.digest == rosterDigest view then (false, c)
  else (true, { c with snapshot := some (VirtualBins.rebuild view c.bucketCount), epoch := c.epoch + 1 })

end VirtualBinsCache

section Bins

variable {nodes nodes' larger : List NodeId} {n : NodeId} {bucketCount : UInt64} {x : UInt64}

theorem toNat_and_lt {b : UInt64} (hb : b ≠ 0) (x : UInt64) : (x &&& (b - 1)).toNat < b.toNat := by
  have hpos : 0 < b.toNat := pos_of_ne_zero fun h => hb (UInt64.toNat_inj.mp h)
  have hpred : (b - 1).toNat = b.toNat - 1 := UInt64.toNat_sub_of_le _ _ (UInt64.le_iff_toNat_le.mpr hpos)
  rw [UInt64.toNat_and, hpred]
  exact lt_of_le_of_lt Nat.and_le_right (Nat.sub_lt hpos Nat.one_pos)

theorem smear_lt {k : Nat} (hx : x.toNat < 2 ^ k) : (smear x).toNat < 2 ^ k := by
  have hround : ∀ {y : UInt64} (i : UInt64), y.toNat < 2 ^ k → (y ||| (y >>> i)).toNat < 2 ^ k := by
    intro y i hy
    rw [UInt64.toNat_or, UInt64.toNat_shiftRight]
    exact Nat.or_lt_two_pow hy (lt_of_le_of_lt (Nat.shiftRight_le ..) hy)
  exact hround 32 (hround 16 (hround 8 (hround 4 (hround 2 (hround 1 hx)))))

theorem smear_or (x y : UInt64) : smear (x ||| y) = smear x ||| smear y := by
  have hround : ∀ x y i : UInt64, (x ||| y) ||| ((x ||| y) >>> i) = (x ||| (x >>> i)) ||| (y ||| (y >>> i)) := by
    intro x y i
    rw [UInt64.shiftRight_or]
    ac_rfl
  simp only [smear, hround]

theorem smear_top (hx : 0x8000000000000000 ≤ x) : smear x = 0xFFFFFFFFFFFFFFFF := by
  have hle : 2 ^ 63 ≤ x.toNat := le_iff_toNat_le.mp hx
  have hlow : (x - 0x8000000000000000).toNat < 2 ^ 63 := by
    rw [UInt64.toNat_sub_of_le _ _ hx]
    have hlt := x.toNat_lt
    have hbit : (0x8000000000000000 : UInt64).toNat = 2 ^ 63 := rfl
    omega
  have hsplit : x = 0x8000000000000000 ||| (x - 0x8000000000000000) := by
    apply UInt64.toNat_inj.mp
    rw [UInt64.toNat_or]
    change x.toNat = 2 ^ 63 ||| _
    have hor := Nat.two_pow_add_eq_or_of_lt hlow 1
    rw [Nat.mul_one] at hor
    rw [← hor, UInt64.toNat_sub_of_le _ _ hx]
    exact (Nat.add_sub_cancel' hle).symm
  rw [hsplit, smear_or, show smear 0x8000000000000000 = 0xFFFFFFFFFFFFFFFF from by decide]
  exact UInt64.neg_one_or

theorem nextPow2_bounds (hx : x ≤ 0x8000000000000000) : 1 ≤ (nextPow2 x).toNat ∧ (nextPow2 x).toNat ≤ 2 ^ 63 := by
  unfold nextPow2
  split
  · decide
  · next hbig =>
    have hle : x.toNat ≤ 2 ^ 63 := le_iff_toNat_le.mp hx
    have hone : 1 ≤ x.toNat := le_of_lt (lt_iff_toNat_lt.mp (UInt64.not_le.mp hbig))
    have hpred : (x - 1).toNat < 2 ^ 63 := by
      rw [UInt64.toNat_sub_of_le _ _ (show (1 : UInt64) ≤ x from UInt64.le_iff_toNat_le.mpr hone)]
      exact (Nat.sub_lt hone Nat.one_pos).trans_le hle
    have hsmeared := smear_lt hpred
    rw [UInt64.toNat_add, show (1 : UInt64).toNat = 1 from rfl, Nat.mod_eq_of_lt (by omega)]
    omega

theorem nextPow2_ne_zero (hx : x ≤ 0x8000000000000000) : nextPow2 x ≠ 0 := by
  intro hzero
  have hone := (nextPow2_bounds hx).1
  rw [hzero] at hone
  exact absurd hone (by decide)

theorem nextPow2_le : nextPow2 x ≤ 0x8000000000000000 := by
  by_cases hx : x ≤ 0x8000000000000000
  · exact le_iff_toNat_le.mpr (nextPow2_bounds hx).2
  · have hbig := UInt64.not_le.mp hx
    have hone : ¬ x ≤ 1 := fun hle => hx (UInt64.le_trans hle (by decide))
    have htop : 0x8000000000000000 ≤ x - 1 := by
      have hlt : 2 ^ 63 < x.toNat := lt_iff_toNat_lt.mp hbig
      rw [le_iff_toNat_le, UInt64.toNat_sub_of_le _ _ (UInt64.le_of_lt (UInt64.not_le.mp hone))]
      change 2 ^ 63 ≤ x.toNat - 1
      omega
    rw [nextPow2, if_neg hone, smear_top htop]
    decide

theorem getD_fill {b : UInt64} {bin : Nat} (hbin : bin < b.toNat) :
    (VirtualBins.fill nodes b).getD bin 0 = (placeHash (binKey (UInt64.ofNat bin)) nodes).getD 0 := by
  unfold VirtualBins.fill
  split
  · next hnone =>
    rw [hnone, getD_eq_getElem?_getD, getElem?_replicate_of_lt hbin]
    rfl
  · rw [getD_eq_getElem?_getD, getElem?_map, getElem?_range hbin]
    rfl

theorem getD_fill_ge {b : UInt64} {bin : Nat} (hbin : b.toNat ≤ bin) : (VirtualBins.fill nodes b).getD bin 0 = 0 := by
  have hlength : (VirtualBins.fill nodes b).length = b.toNat := by
    unfold VirtualBins.fill
    split <;> simp
  rw [getD_eq_getElem?_getD, getElem?_eq_none (hlength.trans_le hbin)]
  rfl

theorem fill_congr (h : ∀ m, m ∈ nodes' ↔ m ∈ nodes) (b : UInt64) :
    VirtualBins.fill nodes' b = VirtualBins.fill nodes b := by
  have hempty : nodes' = [] ↔ nodes = [] := by simp only [eq_nil_iff_forall_not_mem, h]
  unfold VirtualBins.fill
  simp only [hempty, placeHash_congr h]

theorem getD_fill_insert (h : ∀ m, m ∈ larger ↔ m = n ∨ m ∈ nodes) (b : UInt64) (bin : Nat) :
    (VirtualBins.fill larger b).getD bin 0 = n ∨
      (VirtualBins.fill larger b).getD bin 0 = (VirtualBins.fill nodes b).getD bin 0 := by
  by_cases hbin : bin < b.toNat
  · rw [getD_fill hbin, getD_fill hbin]
    obtain hn | hsame := placeHash_insert (binKey (UInt64.ofNat bin)) h
    · exact .inl (by rw [hn]; rfl)
    · exact .inr (by rw [hsame])
  · rw [getD_fill_ge (Nat.le_of_not_lt hbin), getD_fill_ge (Nat.le_of_not_lt hbin)]
    exact .inr rfl

/-- Rendezvous placement and the tables of it: the order and the repetition of nodes do not count, weights are never
equal, and one more node takes over keys and bins, or leaves them as they were. -/
theorem placement_minimal (hsame : ∀ m, m ∈ nodes' ↔ m ∈ nodes) (hlarger : ∀ m, m ∈ larger ↔ m = n ∨ m ∈ nodes)
    (keyHash bucketCount : UInt64) :
    placeHash keyHash nodes' = placeHash keyHash nodes ∧
    (∀ a b, rendezvousWeight a keyHash = rendezvousWeight b keyHash → a = b) ∧
    (placeHash keyHash larger ≠ placeHash keyHash nodes → placeHash keyHash larger = some n) ∧
    ∀ bin, (VirtualBins.rebuild nodes' bucketCount).ownerOfBin bin =
    (VirtualBins.rebuild nodes bucketCount).ownerOfBin bin ∧
      ((VirtualBins.rebuild larger bucketCount).ownerOfBin bin ≠
      (VirtualBins.rebuild nodes bucketCount).ownerOfBin bin →
        (VirtualBins.rebuild larger bucketCount).ownerOfBin bin = n) := by
  refine ⟨placeHash_congr hsame, fun a b h => rendezvousWeight_injective keyHash h, fun hmoved => ?_, fun bin =>
    ⟨?_, fun hmoved => ?_⟩⟩
  · exact (placeHash_insert keyHash hlarger).resolve_right hmoved
  · exact congrArg (fun t : List NodeId => t.getD _ 0) (fill_congr hsame _)
  · exact (getD_fill_insert hlarger _ _).resolve_right hmoved

theorem placement_minimal_three : placeHash 6 [3, 1, 3] = placeHash 6 [1, 3] ∧ placeHash 6 [1, 3] = some 3 ∧
    placeHash 6 [1, 2, 3] = some 2 :=
  have hsame : ∀ m : NodeId, m ∈ [3, 1, 3] ↔ m ∈ [1, 3] := by simp [or_comm]
  have hlarger : ∀ m : NodeId, m ∈ [1, 2, 3] ↔ m = 2 ∨ m ∈ [1, 3] := by
    simp only [mem_cons, not_mem_nil, or_false]
    exact fun m => or_left_comm
  have h := placement_minimal hsame hlarger 6 16
  ⟨h.1, by decide, h.2.2.1 (by decide)⟩

end Bins

section Cache

/-- A cache, the roster that its table was built for, and the view that it was called with last. -/
structure Published where
  cache : VirtualBinsCache
  roster : List NodeId := []
  view : Option (List NodeId) := none

namespace Published

def start (bucketCount : UInt64) : Published where
  cache := .new bucketCount

def step (p : Published) (view : List NodeId) : Option Published :=
  let (published, cache) := p.cache.rebuildFor view
  some { cache, roster := if published then view else p.roster, view := some view }

/-- Another roster than that of the table has another digest. -/
def TellsApart (p : Published) (view : List NodeId) : Prop :=
  p.cache.snapshot.isSome = true → rosterDigest p.roster = rosterDigest view → p.roster ⊆ view ∧ view ⊆ p.roster

instance (p : Published) (view : List NodeId) : Decidable (p.TellsApart view) :=
  inferInstanceAs (Decidable (_ → _ → _ ∧ _))

end Published

def VirtualBins.Answers (t : VirtualBins) (view : List NodeId) : Prop :=
  ∀ id, t.ownerOf id = placeHash (binKey (t.binOf id)) view ∧ (t.ownerOf id = none ↔ view = [])

variable {bucketCount : UInt64} {p p' : Published} {view nodes : List NodeId}

theorem answers_rebuild (hbuckets : nextPow2 bucketCount ≠ 0) (nodes : List NodeId) :
    (VirtualBins.rebuild nodes bucketCount).Answers nodes := by
  intro id
  have howner : (VirtualBins.rebuild nodes bucketCount).ownerOf id =
      placeHash (binKey ((VirtualBins.rebuild nodes bucketCount).binOf id)) nodes := by
    cases hplaced : placeHash (binKey ((VirtualBins.rebuild nodes bucketCount).binOf id)) nodes with
    | none =>
      rw [placeHash_eq_none.mp hplaced]
      rfl
    | some n =>
      have hsome : nodes ≠ [] := fun hnil => by rw [placeHash_eq_none.mpr hnil] at hplaced; cases hplaced
      have hbin : ((VirtualBins.rebuild nodes bucketCount).binOf id).toNat < (nextPow2 bucketCount).toNat :=
        toNat_and_lt hbuckets _
      have hfilled : (VirtualBins.fill nodes (nextPow2 bucketCount)).getD
          ((VirtualBins.rebuild nodes bucketCount).binOf id).toNat 0 = n := by
        rw [getD_fill hbin, UInt64.ofNat_toNat, hplaced]
        rfl
      rw [VirtualBins.ownerOf, if_neg (by simpa [VirtualBins.rebuild] using hsome)]
      exact congrArg some hfilled
  rw [howner]
  exact ⟨rfl, placeHash_eq_none⟩

theorem VirtualBins.Answers.congr {t : VirtualBins} (h : t.Answers nodes) (hsame : ∀ m, m ∈ view ↔ m ∈ nodes) :
    t.Answers view := by
  intro id
  rw [placeHash_congr hsame]
  refine ⟨(h id).1, (h id).2.trans ?_⟩
  simp only [eq_nil_iff_forall_not_mem, hsame]

/-- The table is the one of the roster, and answers for the last view. -/
structure Published.Faithful (bucketCount : UInt64) (p : Published) : Prop where
  buckets : p.cache.bucketCount = nextPow2 bucketCount
  built : ∀ t, p.cache.snapshot = some t → t.digest = rosterDigest p.roster ∧ t.Answers p.roster
  answers : ∀ view, p.view = some view → ∃ t, p.cache.snapshot = some t ∧ t.Answers view

theorem Published.Faithful.step (hrounded : nextPow2 (nextPow2 bucketCount) ≠ 0) (hp : p.Faithful bucketCount)
    (hok : p.TellsApart view) (h : p.step view = some p') : p'.Faithful bucketCount := by
  unfold Published.step at h
  simp only [some.injEq] at h
  subst h
  unfold VirtualBinsCache.rebuildFor
  split
  · next hkept =>
    obtain ⟨t, ht, hdigest⟩ := (any_eq_true _ _).mp hkept
    obtain ⟨hroster, hanswers⟩ := hp.built t ht
    obtain ⟨hsub, hsub'⟩ := hok (by rw [ht]; rfl) (hroster.symm.trans (eq_of_beq hdigest))
    refine ⟨hp.buckets, hp.built, fun view' hview => ?_⟩
    cases hview
    exact ⟨t, ht, hanswers.congr fun m => ⟨fun hm => hsub' hm, fun hm => hsub hm⟩⟩
  · have hnew : (VirtualBins.rebuild view p.cache.bucketCount).Answers view := by
      rw [hp.buckets]
      exact answers_rebuild hrounded view
    refine ⟨hp.buckets, fun t ht => ?_, fun view' hview => ?_⟩
    · cases ht
      exact ⟨rfl, hnew⟩
    · cases hview
      exact ⟨_, rfl, hnew⟩

/-- As long as no other roster has the digest of the published table, the table answers for every view it is
called with. -/
theorem table_answers
    (h : Machine.Reach Published.step Published.TellsApart (Published.start bucketCount) p)
    (hview : p.view = some view) : ∃ t, p.cache.snapshot = some t ∧ t.Answers view := by
  have hrounded : nextPow2 (nextPow2 bucketCount) ≠ 0 := nextPow2_ne_zero nextPow2_le
  have hfaithful : p.Faithful bucketCount :=
    h.invariant ⟨rfl, nofun, nofun⟩ fun p view p' hp hok hstep => hp.step hrounded hok hstep
  exact hfaithful.answers view hview

theorem table_answers_three : ∃ p t, Machine.run (Machine.guarded Published.step Published.TellsApart)
      (Published.start 16) [[1, 2], [1, 2], [1, 2, 3]] = some p ∧ p.cache.snapshot = some t ∧ p.cache.epoch = 2 ∧
    t.Answers [1, 2, 3] := by
  obtain ⟨p, hp, hfacts⟩ := map_eq_some_iff.mp (show (Machine.run
    (Machine.guarded Published.step Published.TellsApart) (Published.start 16) [[1, 2], [1, 2], [1, 2, 3]]).map
      (fun p => (p.view, p.cache.epoch)) = some (some [1, 2, 3], 2) by decide +kernel)
  obtain ⟨hview, hepoch⟩ := Prod.mk.inj hfacts
  obtain ⟨t, ht, hanswers⟩ := table_answers (Machine.reach_of_run hp) hview
  exact ⟨p, t, hp, ht, hepoch, hanswers⟩

/-- Two nodes leave and a third comes that has the digest of the two: the table keeps an owner that has left. -/
theorem left_node_keeps_bins : ∃ p t, ∃ id : ActorId, Machine.run Published.step (Published.start 16)
      [[0x57856fb1c1e1f540, 0x59fecc4e6a7ecda8], [0x43f88c02dd43d157]] = some p ∧
    p.cache.snapshot = some t ∧ t.ownerOf id = some 0x57856fb1c1e1f540 ∧
    placeHash (binKey (t.binOf id)) [0x43f88c02dd43d157] = some 0x43f88c02dd43d157 := by
  obtain ⟨p, hp, hfacts⟩ := map_eq_some_iff.mp (show (Machine.run Published.step (Published.start 16)
    [[0x57856fb1c1e1f540, 0x59fecc4e6a7ecda8], [0x43f88c02dd43d157]]).map (fun p => p.cache.snapshot.map fun t =>
      (t.ownerOf ⟨⟨1⟩, 1⟩, placeHash (binKey (t.binOf ⟨⟨1⟩, 1⟩)) [0x43f88c02dd43d157])) =
        some (some (some 0x57856fb1c1e1f540, some 0x43f88c02dd43d157)) by decide +kernel)
  obtain ⟨t, ht, hfacts⟩ := map_eq_some_iff.mp hfacts
  obtain ⟨howner, hplaced⟩ := Prod.mk.inj hfacts
  exact ⟨p, t, ⟨⟨1⟩, 1⟩, hp, ht, howner, hplaced⟩

end Cache

end Quark.Placement
