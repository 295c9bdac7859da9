import Quark.ControlCodec

/-! What `send_control` puts into a frame: the digest, and what the wired `RevocationRegistry` and
`CapabilityRegistry` hand out. The 16-bit counts and the decoder's ceiling hold it all only under two bounds on the
configuration. -/
namespace Quark.Swim

open List Bytes Reader

/-- The budgets that only the hooks see. -/
structure GossipConfig extends Config where
  maxCapabilityGossipBytes : Nat := 4096
  maxSignedRevocationGossip : Nat := 8

abbrev Fingerprint := { fp : List UInt8 // fp.length = 32 }

theorem fingerprint_length (n : UInt8) : (List.replicate 32 n).length = 32 := length_replicate

/-- What `RevocationRegistry` gossips from; `order` has the records of `signed_` in wire form. -/
structure RevocationRegistry where
  verifier : Bool := false
  authorityOnly : Bool := false
  local_ : List Fingerprint := []
  gossiped : List Fingerprint := []
  order : List (List UInt8) := []
  sampleCursor : Nat := 0

namespace RevocationRegistry

variable (reg : RevocationRegistry)

def sample (max : Nat) : List Fingerprint :=
  if reg.verifier || reg.authorityOnly then [] else (reg.local_ ++ reg.gossiped).take max

def sampleSigned (max : Nat) : List (List UInt8) × RevocationRegistry :=
  let n := min max reg.order.length
  if n = 0 then ([], reg)
  else
    let start := reg.sampleCursor % reg.order.length
    ((List.range n).map fun i => reg.order.getD ((start + i) % reg.order.length) [],
      { reg with sampleCursor := (start + n) % reg.order.length })

end RevocationRegistry

/-- What the host wired into the gossip hooks. -/
structure Hooks where
  revocations : Option RevocationRegistry := none
  signedRevocations : Option RevocationRegistry := none
  capabilities : Option CapabilityRegistry := none
  residentTotal : Option UInt64 := none

/-- What the hooks hand out for one frame of the node `s`. -/
def Hooks.env (hooks : Hooks) (cfg : GossipConfig) (s : SwimMembership) (env : Env) : Env :=
  { env with
    revocations := match hooks.revocations with
      | none => []
      | some reg => (reg.sample cfg.maxGossipUpdates).map Subtype.val
    signedRevocations := match hooks.signedRevocations with
      | none => []
      | some reg => (reg.sampleSigned (min cfg.maxSignedRevocationGossip kMaxSignedRevocationsPerFrame)).1
    capabilities := match hooks.capabilities with
      | none => []
      | some reg => (reg.pull s.self_ s.selfIncarnation cfg.maxCapabilityGossipBytes).1
    residentTotal := hooks.residentTotal }

section

variable {cfg : Config} {s : SwimMembership} {to_ : NodeId} {cap fixed : Nat}
variable {acc : SwimMembership × List MemberUpdate}

theorem digestPush_length {id : NodeId} {m : Member} :
    (SwimMembership.digestPush acc id m).2.length = acc.2.length + 1 := by
  simp [SwimMembership.digestPush]

theorem digestPass_length {suspects : Bool} (h : acc.2.length ≤ cap) {n : Nat} (hn : n ≤ cap) :
    (SwimMembership.digestPass to_ suspects n acc).2.length ≤ cap := by
  unfold SwimMembership.digestPass
  split
  · exact h
  · refine List.foldlRecOn (motive := fun acc : SwimMembership × List MemberUpdate => acc.2.length ≤ cap) _ _ h
      fun acc' hacc e _ => ?_
    split
    · exact hacc
    · next hskip =>
      rw [digestPush_length]
      have hroom : ¬ n ≤ acc'.2.length := fun hfull => hskip (.inl hfull)
      omega

theorem digestRotate_length (h : acc.2.length ≤ cap) :
    (SwimMembership.digestRotate to_ cap fixed acc).2.length ≤ cap := by
  unfold SwimMembership.digestRotate
  refine List.foldlRecOn (motive := fun acc : SwimMembership × List MemberUpdate => acc.2.length ≤ cap) _ _ h
    fun acc' hacc e _ => ?_
  dsimp only
  split
  · exact hacc
  · next hskip =>
    have hroom : ¬ cap ≤ acc'.2.length := fun hfull => hskip (.inl hfull)
    split
    · exact hacc
    · split
      · rw [length_append, length_singleton]
        omega
      · exact hacc

theorem digestHead_length (hcap : cfg.maxGossipUpdates ≠ 0) :
    (s.digestHead cfg to_).2.length ≤ cfg.maxGossipUpdates := by
  unfold SwimMembership.digestHead
  dsimp only
  split
  · split
    · rw [digestPush_length]
      exact Nat.one_le_iff_ne_zero.mpr hcap
    · exact Nat.zero_le _
  · split
    · next hroom =>
      rw [digestPush_length]
      exact hroom
    · rw [digestPush_length]
      exact Nat.one_le_iff_ne_zero.mpr hcap

theorem digestTail_length (h : acc.2.length ≤ cfg.maxGossipUpdates) :
    (SwimMembership.digestTail cfg to_ acc).2.length ≤ cfg.maxGossipUpdates := by
  unfold SwimMembership.digestTail
  dsimp only
  generalize min (acc.1.members.size - acc.2.length) _ = reserved
  split
  · exact digestPass_length (digestPass_length h (Nat.sub_le _ _)) (Nat.sub_le _ _)
  · exact digestRotate_length (digestPass_length (digestPass_length h (Nat.sub_le _ _)) (Nat.sub_le _ _))

theorem fillDigest_length : (s.fillDigest cfg to_).2.length ≤ cfg.maxGossipUpdates := by
  unfold SwimMembership.fillDigest
  split
  · exact Nat.zero_le _
  · next hcap => exact digestTail_length (digestHead_length hcap)

end

section

variable {reg : CapabilityRegistry} {budget : Nat} {es : List (Sigma fun _ : NodeId => CapabilityRegistry.Entry)}

theorem pack_total : ((CapabilityRegistry.pack budget es).map fun e => e.blob.length).sum ≤ budget := by
  induction es generalizing budget with
  | nil => exact Nat.zero_le _
  | cons e es ih =>
    rw [CapabilityRegistry.pack]
    split
    · exact ih
    · next hfits =>
      rw [map_cons, sum_cons]
      have hrest := @ih (budget - e.2.blob.length)
      rw [CapabilityRegistry.digest_blob]
      omega

theorem pack_counts : 6 * (CapabilityRegistry.pack budget es).length ≤
    ((CapabilityRegistry.pack budget es).map fun e => e.blob.length).sum := by
  induction es generalizing budget with
  | nil => exact le_rfl
  | cons e es ih =>
    rw [CapabilityRegistry.pack]
    split
    · exact ih
    · rw [map_cons, sum_cons, length_cons]
      have hrest := @ih (budget - e.2.blob.length)
      have hcounts := decode_counts e.2.decodes
      rw [CapabilityRegistry.digest_blob]
      omega

theorem blob_le_total {es : List CapabilityDigestEntry} {e : CapabilityDigestEntry} (h : e ∈ es) :
    e.blob.length ≤ (es.map fun e => e.blob.length).sum :=
  le_sum_of_mem (mem_map_of_mem h)

end

section

variable {cfg : GossipConfig} {s : SwimMembership} {hooks : Hooks} {env : Env} {to_ : NodeId} {m : ControlMsg}
variable {sent : NodeId × ControlMsg}

theorem send_sent (h : sent ∈ (s.send cfg.toConfig (hooks.env cfg s env) to_ m).sent) :
    sent.2.kind = m.kind ∧ sent.2.congestionRemaining = m.congestionRemaining ∧
      sent.2.updates = (s.fillDigest cfg.toConfig to_).2 ∧
      (sent.2.revocations = [] ∨ sent.2.revocations = (hooks.env cfg s env).revocations) ∧
      sent.2.capabilities = (hooks.env cfg s env).capabilities ∧ sent.2.pressure.length ≤ 1 := by
  unfold SwimMembership.send at h
  split at h
  · cases h
  · rw [mem_singleton.mp h]
    refine ⟨rfl, rfl, rfl, ?_, rfl, ?_⟩
    · dsimp only
      split
      · exact .inl rfl
      · exact .inr rfl
    · cases (hooks.env cfg s env).residentTotal <;> simp

theorem pulled_revocations : (hooks.env cfg s env).revocations.length ≤ cfg.maxGossipUpdates ∧
    ∀ fp ∈ (hooks.env cfg s env).revocations, fp.length = 32 := by
  unfold Hooks.env
  dsimp only
  split
  · exact ⟨Nat.zero_le _, by simp⟩
  · next reg _ =>
    refine ⟨?_, fun fp hfp => ?_⟩
    · rw [length_map, RevocationRegistry.sample]
      split
      · exact Nat.zero_le _
      · rw [length_take]
        exact Nat.min_le_left _ _
    · obtain ⟨fp', -, rfl⟩ := mem_map.mp hfp
      exact fp'.2

theorem pulled_capabilities :
    ((hooks.env cfg s env).capabilities.map fun e => e.blob.length).sum ≤ cfg.maxCapabilityGossipBytes ∧
      6 * (hooks.env cfg s env).capabilities.length ≤
        ((hooks.env cfg s env).capabilities.map fun e => e.blob.length).sum := by
  unfold Hooks.env
  dsimp only
  split
  · exact ⟨Nat.zero_le _, Nat.le_refl _⟩
  · exact ⟨pack_total, pack_counts⟩

theorem typed_sent (htyped : m.Typed) (h : sent ∈ (s.send cfg.toConfig (hooks.env cfg s env) to_ m).sent) :
    sent.2.Typed := by
  obtain ⟨hkind, hcongestion, -, hrevocations, -, -⟩ := send_sent h
  refine ⟨by rw [hkind]; exact htyped.kind, fun fp hfp => ?_, by rw [hcongestion]; exact htyped.congestion⟩
  obtain hnone | hpulled := hrevocations
  · rw [hnone] at hfp
    cases hfp
  · rw [hpulled] at hfp
    exact pulled_revocations.2 fp hfp

theorem fits_sent (hgossip : cfg.maxGossipUpdates < 2 ^ 16) (hbytes : cfg.maxCapabilityGossipBytes < 2 ^ 16)
    (h : sent ∈ (s.send cfg.toConfig (hooks.env cfg s env) to_ m).sent) : sent.2.Fits := by
  obtain ⟨-, -, hupdates, hrevocations, hcapabilities, hpressure⟩ := send_sent h
  have htotal : (sent.2.capabilities.map fun e => e.blob.length).sum ≤ cfg.maxCapabilityGossipBytes := by
    rw [hcapabilities]
    exact pulled_capabilities.1
  have hcounts : 6 * sent.2.capabilities.length ≤ (sent.2.capabilities.map fun e => e.blob.length).sum := by
    rw [hcapabilities]
    exact pulled_capabilities.2
  refine ⟨?_, ?_, by omega, fun e he => ?_, ?_, by omega⟩
  · rw [hupdates]
    exact lt_of_le_of_lt fillDigest_length hgossip
  · obtain hnone | hpulled := hrevocations
    · rw [hnone]
      decide
    · rw [hpulled]
      exact lt_of_le_of_lt pulled_revocations.1 hgossip
  · have hblob := blob_le_total he
    omega
  · exact (htotal.trans hbytes.le).trans le_rfl

end

section

variable {cfg : Config} {s : SwimMembership} {to_ : NodeId} {cap fixed : Nat}

def longFlag (n : Nat) : NodeCapabilities := { flags := [List.replicate n 0x78] }

theorem longFlag_length (n : Nat) : (encodeNodeCapabilities (longFlag n)).length = n + 8 := by
  simp only [encodeNodeCapabilities, longFlag, putCapStr, putCount, flatMap_cons, flatMap_nil,
    length_append, length_nil, length_replicate, putU16_length]
  omega

theorem rotate_grows {ids : List NodeId} {acc : SwimMembership × List MemberUpdate} (hnodup : ids.Nodup)
    (hfixed : fixed ≤ acc.2.length) (hother : ∀ id ∈ ids, id ≠ to_ ∧ id ≠ acc.1.self_)
    (hnew : ∀ id ∈ ids, (acc.2.drop fixed).any (fun u => u.node == id) = false)
    (hverified : ∀ id ∈ ids, ∃ m, acc.1.members.lookup id = some m ∧ m.verified = true) :
    min cap (acc.2.length + ids.length) ≤ (ids.foldl (rotateStep to_ cap fixed) acc).2.length := by
  induction ids generalizing acc with
  | nil => exact min_le_right _ _
  | cons id ids ih =>
    obtain ⟨hid, hnodup⟩ := nodup_cons.mp hnodup
    obtain ⟨m, hm, hmv⟩ := hverified id mem_cons_self
    obtain ⟨hto, hself⟩ := hother id mem_cons_self
    rw [foldl_cons, rotateStep]
    by_cases hfull : cap ≤ acc.2.length
    · rw [if_pos (.inl hfull)]
      refine le_trans ?_ (ih hnodup hfixed (fun i hi => hother i (mem_cons_of_mem _ hi))
        (fun i hi => hnew i (mem_cons_of_mem _ hi)) fun i hi => hverified i (mem_cons_of_mem _ hi))
      omega
    · have hskip : ¬ (cap ≤ acc.2.length ∨ id = to_ ∨ id = acc.1.self_ ∨
          (acc.2.drop fixed).any (fun u => u.node == id) = true) := by
        rw [hnew id mem_cons_self]
        simp [hfull, hto, hself]
      rw [if_neg hskip, hm]
      dsimp only
      rw [if_pos hmv]
      refine le_trans ?_ (ih hnodup ?_ ?_ ?_ ?_)
      · rw [length_append, length_singleton, length_cons]
        omega
      · rw [length_append]
        omega
      · exact fun i hi => hother i (mem_cons_of_mem _ hi)
      · intro i hi
        rw [drop_append_of_le_length hfixed, any_append, hnew i (mem_cons_of_mem _ hi)]
        simp only [any_cons, any_nil, Bool.or_false, Bool.false_or, beq_eq_false_iff_ne]
        exact fun heq => hid (by rw [heq]; exact hi)
      · exact fun i hi => hverified i (mem_cons_of_mem _ hi)

def crowdIds (n : Nat) : List NodeId := (List.range n).map fun i => UInt64.ofNat (i + 2)

theorem mem_crowdIds {n : Nat} {id : NodeId} (hn : n ≤ 2 ^ 32) (h : id ∈ crowdIds n) : id ≠ 1 ∧ ¬ id ≤ 0 := by
  obtain ⟨i, hi, rfl⟩ := mem_map.mp h
  have hlt := mem_range.mp hi
  have hval : (UInt64.ofNat (i + 2)).toNat = i + 2 := UInt64.toNat_ofNat_of_lt' (show _ < 2 ^ 64 by omega)
  refine ⟨fun heq => ?_, fun hle => ?_⟩
  · rw [heq] at hval
    exact absurd hval (by simp)
  · rw [UInt64.le_iff_toNat_le, hval] at hle
    exact absurd hle (by simp)

theorem crowdIds_nodup {n : Nat} (hn : n ≤ 2 ^ 32) : (crowdIds n).Nodup := by
  refine List.Nodup.map_on (fun i hi j hj heq => ?_) nodup_range
  have hi := mem_range.mp hi
  have hj := mem_range.mp hj
  have hval := congrArg UInt64.toNat heq
  rw [UInt64.toNat_ofNat_of_lt' (show _ < 2 ^ 64 by omega),
    UInt64.toNat_ofNat_of_lt' (show _ < 2 ^ 64 by omega)] at hval
  omega

def verifiedEntries (ids : List NodeId) : List Entry := ids.map fun id => ⟨id, { verified := true }⟩

theorem verifiedEntries_keys (ids : List NodeId) : (verifiedEntries ids).keys = ids := by
  simp [verifiedEntries, List.keys, Function.comp_def]

/-- Node 1 and `n` verified members. -/
def crowd (n : Nat) (hn : n ≤ 2 ^ 32) : SwimMembership where
  self_ := 1
  members := AList.insert 1 { verified := true } ⟨verifiedEntries (crowdIds n), by
    rw [List.NodupKeys, verifiedEntries_keys]
    exact crowdIds_nodup hn⟩
  sortedIds := 1 :: crowdIds n
  idsDirty := false

theorem crowd_rotated {n : Nat} {hn : n ≤ 2 ^ 32} : (crowd n hn).rotated = 1 :: crowdIds n := by
  have hstart : (1 :: crowdIds n).filter (fun id => decide (id ≤ 0)) = [] := by
    refine filter_eq_nil_iff.mpr fun id hid => ?_
    rcases mem_cons.mp hid with rfl | hid
    · decide
    · simpa using (mem_crowdIds hn hid).2
  change List.drop ((1 :: crowdIds n).filter fun id => decide (id ≤ 0)).length (1 :: crowdIds n) ++
    List.take ((1 :: crowdIds n).filter fun id => decide (id ≤ 0)).length (1 :: crowdIds n) = 1 :: crowdIds n
  rw [hstart]
  exact append_nil _

theorem crowd_lookup {n : Nat} {hn : n ≤ 2 ^ 32} {id : NodeId} (hid : id ∈ crowdIds n) :
    (crowd n hn).members.lookup id = some { verified := true } := by
  refine (AList.lookup_insert_ne (mem_crowdIds hn hid).1).trans ?_
  exact Table.mem_entries_iff.mp (mem_map_of_mem hid)

/-- To a node that it does not know, a node with a large table sends all its budget allows. -/
theorem crowd_digest {n : Nat} (hn : n ≤ 2 ^ 32) (hpos : 0 < n) (hcap : n < cfg.maxGossipUpdates) :
    n < ((crowd n hn).fillDigest cfg 1).2.length := by
  have hown : (crowd n hn).members.lookup 1 = some { verified := true } := AList.lookup_insert _
  have hhead : (crowd n hn).digestHead cfg 1 = (crowd n hn, [⟨1, 0, 0⟩]) := by
    have hself : (if (1 : NodeId) = (crowd n hn).self_ then none else (crowd n hn).members.lookup 1) =
        none := if_pos rfl
    unfold SwimMembership.digestHead
    dsimp only
    rw [hself]
    dsimp only
    rw [if_pos (show ([] : List MemberUpdate).length < _ by rw [length_nil]; omega)]
    change SwimMembership.digestPush (crowd n hn, []) 1 (((crowd n hn).members.lookup 1).getD {}) = _
    rw [hown]
    rfl
  have hpass : ∀ suspects k, SwimMembership.digestPass 1 suspects k (crowd n hn, [⟨1, 0, 0⟩]) =
      (crowd n hn, [⟨1, 0, 0⟩]) := fun _ _ => if_pos rfl
  have hfirst : rotateStep 1 cfg.maxGossipUpdates 1 (crowd n hn, [⟨1, 0, 0⟩]) 1 = (crowd n hn, [⟨1, 0, 0⟩]) :=
    if_pos (.inr (.inl rfl))
  have hgrows := @rotate_grows 1 cfg.maxGossipUpdates 1 (crowdIds n) (crowd n hn, [⟨1, 0, 0⟩]) (crowdIds_nodup hn)
    (Nat.le_refl 1) (fun id hid => ⟨(mem_crowdIds hn hid).1, (mem_crowdIds hn hid).1⟩) (fun _ _ => rfl)
    fun id hid => ⟨{ verified := true }, @crowd_lookup n hn id hid, rfl⟩
  have hcount : (crowdIds n).length = n := by rw [crowdIds, length_map, length_range]
  have hfresh : (crowd n hn).refreshSortedIds = crowd n hn := rfl
  rw [SwimMembership.fillDigest, if_neg (by omega), hhead, SwimMembership.digestTail]
  dsimp only
  rw [hpass, hpass]
  dsimp only
  rw [length_singleton, if_neg (show ¬ cfg.maxGossipUpdates ≤ 1 by omega), hfresh, digestRotate_eq, crowd_rotated,
    foldl_cons, hfirst]
  rw [length_singleton, hcount] at hgrows
  omega

end

section

variable {cfg : GossipConfig} {s : SwimMembership} {hooks : Hooks} {to_ : NodeId}

theorem send_online (honline : s.online = true) :
    ∃ sent ∈ (s.send cfg.toConfig (hooks.env cfg s {}) to_ { kind := .gossip }).sent,
    sent.2.updates = (s.fillDigest cfg.toConfig to_).2 ∧ sent.2.capabilities = (hooks.env cfg s {}).capabilities := by
  unfold SwimMembership.send
  rw [if_neg (by simp [honline, Hooks.env])]
  exact ⟨_, mem_singleton.mpr rfl, rfl, rfl⟩

/-- With a larger budget than 16 bits a digest outgrows its count. -/
theorem crowd_overflows (hgossip : 2 ^ 16 ≤ cfg.maxGossipUpdates) : ∃ (s : SwimMembership) (hooks : Hooks)
    (to_ : NodeId), ∃ sent ∈ (s.send cfg.toConfig (hooks.env cfg s {}) to_ { kind := .gossip }).sent,
    ¬ sent.2.Fits := by
  have hn : 65535 ≤ 2 ^ 32 := by decide
  obtain ⟨sent, hsent, hupdates, -⟩ := @send_online cfg (crowd 65535 hn) {} 1 rfl
  refine ⟨_, _, _, sent, hsent, fun hfits => ?_⟩
  have hlong := @crowd_digest cfg.toConfig 65535 hn (by decide) (by omega)
  have hshort := hfits.updates
  rw [hupdates] at hshort
  omega

def advertising (caps : NodeCapabilities) : Hooks where
  capabilities := some (({} : CapabilityRegistry).publishLocal caps)

/-- With a larger budget than 16 bits a blob outgrows its length. -/
theorem longFlag_overflows (hbytes : 2 ^ 16 ≤ cfg.maxCapabilityGossipBytes) : ∃ sent ∈
    (({ self_ := 1 } : SwimMembership).send cfg.toConfig ((advertising (longFlag 65528)).env cfg { self_ := 1 } {}) 2
      { kind := .gossip }).sent, ¬ sent.2.Fits := by
  have hlength : (encodeNodeCapabilities (longFlag 65528)).length = 65536 := longFlag_length 65528
  generalize longFlag 65528 = caps at hlength ⊢
  obtain ⟨sent, hsent, -, hcapabilities⟩ := @send_online cfg { self_ := 1 } (advertising caps) 2 rfl
  refine ⟨sent, hsent, fun hfits => ?_⟩
  have hclaimed : ∃ e : CapabilityRegistry.Entry, e.blob = encodeNodeCapabilities caps ∧
      ((({} : CapabilityRegistry).publishLocal caps).claimLocal 1 1).table.entries = [⟨1, e⟩] := by
    have hsmall : (encodeNodeCapabilities caps).length ≤ kMaxDecodedCapabilityBytes := hlength.le
    refine ⟨⟨1, 1, encodeNodeCapabilities caps, caps, decode_encode hsmall⟩, rfl, ?_⟩
    simp only [CapabilityRegistry.publishLocal, CapabilityRegistry.claimLocal]
    rw [dif_pos hsmall]
    rfl
  obtain ⟨e, hblob, hentries⟩ := hclaimed
  have hpacked : CapabilityRegistry.pack cfg.maxCapabilityGossipBytes
      ((({} : CapabilityRegistry).publishLocal caps).claimLocal 1 1).table.entries = [e.digest 1] := by
    rw [hentries, CapabilityRegistry.pack, if_neg (by rw [hblob, hlength]; omega)]
    rfl
  have hlong := hfits.blobs (e.digest 1) (by
    rw [hcapabilities]
    change _ ∈ CapabilityRegistry.pack cfg.maxCapabilityGossipBytes
      ((({} : CapabilityRegistry).publishLocal caps).claimLocal 1 1).table.entries
    rw [hpacked]
    exact mem_singleton_self _)
  rw [CapabilityRegistry.digest_blob, hblob, hlength] at hlong
  exact absurd hlong (by decide)

theorem typed_gossip : ({ kind := .gossip } : ControlMsg).Typed := ⟨rfl, by simp, by decide⟩

/-- Whatever the tables hold, every control frame is read back by its receiver: just if neither the digest nor the
capabilities may outgrow 16 bits. One frame is read back just if it fits. -/
theorem control_round_trip (cfg : GossipConfig) :
    ((∀ (s : SwimMembership) (hooks : Hooks) (env : Env) (to_ : NodeId) (m : ControlMsg), m.Typed →
      ∀ sent ∈ (s.send cfg.toConfig (hooks.env cfg s env) to_ m).sent, sent.2.RoundTrips) ↔
      cfg.maxGossipUpdates < 2 ^ 16 ∧ cfg.maxCapabilityGossipBytes < 2 ^ 16) ∧
    ∀ (s : SwimMembership) (hooks : Hooks) (env : Env) (to_ : NodeId) (m : ControlMsg), m.Typed →
      ∀ sent ∈ (s.send cfg.toConfig (hooks.env cfg s env) to_ m).sent, (sent.2.RoundTrips ↔ sent.2.Fits) := by
  refine ⟨⟨fun hall => ⟨?_, ?_⟩, fun ⟨hgossip, hbytes⟩ s hooks env to_ m htyped sent hsent => ?_⟩,
    fun s hooks env to_ m htyped sent hsent => roundTrips_iff_fits (typed_sent htyped hsent)⟩
  · by_contra hover
    obtain ⟨s, hooks, to_, sent, hsent, hfits⟩ := @crowd_overflows cfg (not_lt.mp hover)
    have hback := hall s hooks {} to_ _ typed_gossip sent hsent
    exact hfits ((roundTrips_iff_fits (typed_sent typed_gossip hsent)).mp hback)
  · by_contra hover
    obtain ⟨sent, hsent, hfits⟩ := @longFlag_overflows cfg (not_lt.mp hover)
    have hback := hall _ _ {} _ _ typed_gossip sent hsent
    exact hfits ((roundTrips_iff_fits (typed_sent typed_gossip hsent)).mp hback)
  · exact (roundTrips_iff_fits (typed_sent htyped hsent)).mpr (fits_sent hgossip hbytes hsent)

theorem control_round_trip_default : ∃ sent ∈ (({ self_ := 1 } : SwimMembership).send {}
      (({} : Hooks).env {} { self_ := 1 } {}) 2 { kind := .gossip }).sent, sent.2.RoundTrips := by
  obtain ⟨sent, hsent, -⟩ := @send_online {} { self_ := 1 } {} 2 rfl
  exact ⟨sent, hsent, (control_round_trip {}).1.mpr ⟨by decide, by decide⟩ _ _ _ _ _ typed_gossip sent hsent⟩

/-- With room for 65536 bytes a flag of 65528 bytes is not read back. -/
theorem long_flag_lost : ∃ sent ∈ (({ self_ := 1 } : SwimMembership).send {}
      ((advertising (longFlag 65528)).env { maxCapabilityGossipBytes := 65536 } { self_ := 1 } {}) 2
        { kind := .gossip }).sent, ¬ sent.2.RoundTrips := by
  obtain ⟨sent, hsent, hfits⟩ := @longFlag_overflows { maxCapabilityGossipBytes := 65536 } le_rfl
  exact ⟨sent, hsent, fun hback => hfits ((roundTrips_iff_fits (typed_sent typed_gossip hsent)).mp hback)⟩

end

end Quark.Swim
