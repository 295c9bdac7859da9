import Quark.CapabilityFreshness

/-! What the capability frames of a node carry: its own entry, and those of the others. Which way the hash
table is walked is open. -/
namespace Quark.Swim

open List Option CapabilityRegistry

namespace CapabilityRegistry

/-- A way to walk the table. -/
structure Walk where
  order : Table NodeId Entry → List (Sigma fun _ : NodeId => Entry)
  perm : ∀ t, (order t).Perm t.entries

/-- `pull`, where the table is walked this way. -/
def pullBy (w : Walk) (reg : CapabilityRegistry) (self_ : NodeId) (selfIncarnation : UInt64) (maxBytes : Nat) :
    List CapabilityDigestEntry × CapabilityRegistry :=
  let reg := reg.claimLocal self_ selfIncarnation
  (pack maxBytes (w.order reg.table), reg)

theorem pull_eq (reg : CapabilityRegistry) (self_ : NodeId) (selfIncarnation : UInt64) (maxBytes : Nat) :
    reg.pull self_ selfIncarnation maxBytes = reg.pullBy ⟨AList.entries,
    fun _ => .refl _⟩ self_ selfIncarnation maxBytes := rfl

/-- Consecutive frames, with the incarnation that each one finds. -/
def pulls (w : Walk) (self_ : NodeId) (maxBytes : Nat) : CapabilityRegistry → List UInt64 →
    List (List CapabilityDigestEntry)
  | _, [] => []
  | reg, inc :: incs =>
    let r := reg.pullBy w self_ inc maxBytes
    r.1 :: pulls w self_ maxBytes r.2 incs

def blobBytes (t : Table NodeId Entry) : Nat := (t.entries.map fun e => e.2.blob.length).sum

/-- Every frame carries what the node advertises, and enough frames carry every entry. -/
structure Disseminates (w : Walk) (self_ : NodeId) (maxBytes : Nat) (caps : NodeCapabilities)
    (reg : CapabilityRegistry) : Prop where
  own : ∀ incs, ∀ out ∈ pulls w self_ maxBytes reg incs, ∃ d ∈ out, d.node = self_ ∧
    d.blob = encodeNodeCapabilities caps
  covers : ∃ n, ∀ inc incs, n ≤ incs.length → ∀ node e, (reg.claimLocal self_ inc).table.lookup node = some e →
    ∃ out ∈ pulls w self_ maxBytes reg (inc :: incs), e.digest node ∈ out

end CapabilityRegistry

/-- A registry, and what its node published last. -/
structure Advertised where
  registry : CapabilityRegistry := {}
  published : Option NodeCapabilities := none

inductive RegistryCall
  | publishLocal (caps : NodeCapabilities)
  | merge (incoming : List CapabilityDigestEntry)
  | evictDead (node : NodeId)
  | pull (selfIncarnation : UInt64)

def Advertised.step (self_ : NodeId) (s : Advertised) : RegistryCall → Option Advertised
  | .publishLocal caps => some { registry := s.registry.publishLocal caps, published := some caps }
  | .merge incoming =>
    if incoming.all fun e => e.node != self_ then some { s with registry := s.registry.merge incoming } else none
  | .evictDead node => if node = self_ then none else some { s with registry := s.registry.evictDead node }
  | .pull selfIncarnation => some { s with registry := s.registry.claimLocal self_ selfIncarnation }

section

variable {w : Walk} {reg : CapabilityRegistry} {self_ : NodeId} {maxBytes : Nat} {caps : NodeCapabilities}
  {s s' : Advertised} {a : RegistryCall} {es : List (Sigma fun _ : NodeId => Entry)} {inc : UInt64}
  {incs : List UInt64}

namespace CapabilityRegistry

theorem pack_all (h : (es.map fun e => e.2.blob.length).sum ≤ maxBytes) : pack maxBytes es = es.map fun e =>
    e.2.digest e.1 := by
  induction es generalizing maxBytes with
  | nil => rfl
  | cons e es ih =>
    rw [map_cons, sum_cons] at h
    rw [pack, if_neg (by omega), map_cons, ih (by omega)]

theorem pack_sublist (maxBytes : Nat) (es : List (Sigma fun _ : NodeId => Entry)) :
    (pack maxBytes es).Sublist (es.map fun e => e.2.digest e.1) := by
  induction es generalizing maxBytes with
  | nil => exact .slnil
  | cons e es ih =>
    rw [pack, map_cons]
    split
    · exact (ih maxBytes).cons _
    · exact (ih _).cons_cons _

theorem pack_bytes (maxBytes : Nat) (es : List (Sigma fun _ : NodeId => Entry)) :
    ((pack maxBytes es).map fun d => d.blob.length).sum ≤ maxBytes := by
  induction es generalizing maxBytes with
  | nil => exact Nat.zero_le _
  | cons e es ih =>
    rw [pack]
    split
    · exact ih maxBytes
    · next hfits =>
      have hrest := ih (maxBytes - e.2.blob.length)
      rw [map_cons, sum_cons, digest_blob]
      omega

theorem bytes_le_of_packed (hnodup : (es.map Sigma.fst).Nodup) (h : ∀ e ∈ es, e.2.digest e.1 ∈ pack maxBytes es) :
    (es.map fun e => e.2.blob.length).sum ≤ maxBytes := by
  have hdistinct : (es.map fun e => e.2.digest e.1).Nodup := by
    refine List.Nodup.of_map CapabilityDigestEntry.node ?_
    rwa [List.map_map]
  have hsub : es.map (fun e => e.2.digest e.1) ⊆ pack maxBytes es := by
    intro d hd
    obtain ⟨e, he, rfl⟩ := mem_map.mp hd
    exact h e he
  have hpacked := (pack_sublist maxBytes es).eq_of_length_le (hdistinct.subperm hsub).length_le
  have hbytes := pack_bytes maxBytes es
  rw [hpacked, List.map_map] at hbytes
  exact hbytes

theorem claimLocal_pending (reg : CapabilityRegistry) (self_ : NodeId) (inc : UInt64) :
    (reg.claimLocal self_ inc).pending = none := by
  unfold claimLocal
  split
  · assumption
  · split <;> rfl

theorem claimLocal_idle (h : reg.pending = none) : reg.claimLocal self_ inc = reg := by
  rw [claimLocal, h]

theorem pulls_eq : pulls w self_ maxBytes reg (inc :: incs) =
    List.replicate (incs.length + 1) (pack maxBytes (w.order (reg.claimLocal self_ inc).table)) := by
  induction incs generalizing reg inc with
  | nil => rfl
  | cons inc' incs ih =>
    rw [pulls, pullBy]
    dsimp only
    rw [ih, claimLocal_idle (claimLocal_pending reg self_ inc), length_cons, ← replicate_succ]

theorem bytes_order (w : Walk) (t : Table NodeId Entry) :
    ((w.order t).map fun e => e.2.blob.length).sum = blobBytes t :=
  ((w.perm t).map _).sum_eq

/-- Enough frames carry every entry just when one frame can hold them all. -/
theorem covers_iff : (∃ n, ∀ inc incs, n ≤ incs.length →
    ∀ node e, (reg.claimLocal self_ inc).table.lookup node = some e →
      ∃ out ∈ pulls w self_ maxBytes reg (inc :: incs), e.digest node ∈ out) ↔
    ∀ inc, blobBytes (reg.claimLocal self_ inc).table ≤ maxBytes := by
  constructor
  · rintro ⟨n, hcovers⟩ inc
    rw [← bytes_order w]
    refine bytes_le_of_packed ?_ fun e he => ?_
    · exact (((w.perm _).map _).nodup_iff).mpr (reg.claimLocal self_ inc).table.keys_nodup
    · obtain ⟨out, hout, hin⟩ := hcovers inc (List.replicate n inc) (by rw [length_replicate]) e.1 e.2
        (Table.mem_entries_iff.mp ((w.perm _).mem_iff.mp he))
      rw [pulls_eq] at hout
      rwa [eq_of_mem_replicate hout] at hin
  · intro hfits
    refine ⟨0, fun inc incs _ node e he => ⟨pack maxBytes (w.order (reg.claimLocal self_ inc).table), ?_, ?_⟩⟩
    · rw [pulls_eq]
      exact mem_replicate.mpr ⟨Nat.succ_ne_zero _, rfl⟩
    · rw [pack_all ((bytes_order w _).trans_le (hfits inc))]
      exact mem_map.mpr ⟨⟨node, e⟩, (w.perm _).mem_iff.mpr (Table.mem_entries_iff.mpr he), rfl⟩

end CapabilityRegistry

namespace Advertised

/-- The node's own entry is what it published last, unless that is still pending or too large. -/
structure Own (self_ : NodeId) (s : Advertised) : Prop where
  pending : ∀ caps, s.registry.pending = some caps → s.published = some caps
  small : ∀ e, s.registry.table.lookup self_ = some e → e.blob.length ≤ kMaxDecodedCapabilityBytes
  claimed : s.registry.pending = none → ∀ caps, s.published = some caps →
    (encodeNodeCapabilities caps).length ≤ kMaxDecodedCapabilityBytes →
      ∃ e, s.registry.table.lookup self_ = some e ∧ e.blob = encodeNodeCapabilities caps

namespace Own

theorem claim (h : Own self_ s) (inc : UInt64) : Own self_
    { s with registry := s.registry.claimLocal self_ inc } := by
  cases hpending : s.registry.pending with
  | none =>
    rw [claimLocal_idle hpending]
    exact h
  | some caps =>
    have hpublished := h.pending caps hpending
    unfold claimLocal
    rw [hpending]
    dsimp only
    split
    · next hsmall =>
      refine ⟨(by simp), fun e he => ?_, fun _ c hc _ => ⟨_, AList.lookup_insert _, ?_⟩⟩
      · cases (AList.lookup_insert _).symm.trans he
        exact hsmall
      · cases hpublished.symm.trans hc
        rfl
    · next hlarge =>
      refine ⟨(by simp), h.small, fun _ c hc hsmall => ?_⟩
      cases hpublished.symm.trans hc
      exact absurd hsmall hlarge

theorem step (h : Own self_ s) (hstep : s.step self_ a = some s') : Own self_ s' := by
  cases a with
  | publishLocal caps =>
    obtain rfl := some.inj hstep
    exact ⟨fun c hc => hc, h.small, nofun⟩
  | merge incoming =>
    rw [Advertised.step] at hstep
    split at hstep
    · next hothers =>
      obtain rfl := some.inj hstep
      have hlookup : (s.registry.merge incoming).table.lookup self_ = s.registry.table.lookup self_ :=
        merge_other self_ fun e he => bne_iff_ne.mp (all_eq_true.mp hothers e he)
      refine ⟨fun caps hcaps => h.pending caps (merge_pending.symm.trans hcaps), ?_, fun hpending => ?_⟩
      · rw [hlookup]
        exact h.small
      · rw [hlookup]
        exact h.claimed (merge_pending.symm.trans hpending)
    · cases hstep
  | evictDead node =>
    rw [Advertised.step] at hstep
    split at hstep
    · cases hstep
    · next hother =>
      obtain rfl := some.inj hstep
      have hlookup : (s.registry.evictDead node).table.lookup self_ = s.registry.table.lookup self_ :=
        AList.lookup_erase_ne (Ne.symm hother)
      refine ⟨h.pending, ?_, fun hpending => ?_⟩
      · rw [hlookup]
        exact h.small
      · rw [hlookup]
        exact h.claimed hpending
  | pull selfIncarnation =>
    obtain rfl := some.inj hstep
    exact h.claim selfIncarnation

end Own

/-- After a publish, every frame has the node's own entry and enough frames have every entry, just when the
capabilities are small enough for a frame and the whole table fits the budget. -/
theorem disseminates_iff {maxEntries : Nat} (h : Machine.Reachable (step self_) { registry := { maxEntries } } s)
    (hpublished : s.published = some caps) (w : Walk) (maxBytes : Nat) :
    Disseminates w self_ maxBytes caps s.registry ↔
      (encodeNodeCapabilities caps).length ≤ kMaxDecodedCapabilityBytes ∧
        ∀ inc, blobBytes (s.registry.claimLocal self_ inc).table ≤ maxBytes := by
  have hown : Own self_ s := by
    refine h.invariant ⟨nofun, nofun, nofun⟩ fun _ _ _ hinv hstep => ?_
    exact hinv.step hstep
  constructor
  · intro hall
    refine ⟨?_, covers_iff.mp hall.covers⟩
    obtain ⟨d, hd, hnode, hblob⟩ := hall.own [0] _ mem_cons_self
    obtain ⟨e, he, rfl⟩ := mem_map.mp ((pack_sublist maxBytes _).subset hd)
    have hlookup := Table.mem_entries_iff.mp ((w.perm _).mem_iff.mp he)
    rw [show e.1 = self_ from hnode] at hlookup
    have hsmall := (hown.claim 0).small e.2 hlookup
    rwa [← hblob]
  · rintro ⟨hsmall, hfits⟩
    refine ⟨fun incs out hout => ?_, covers_iff.mpr hfits⟩
    cases incs with
    | nil => cases hout
    | cons inc incs =>
      rw [pulls_eq] at hout
      rw [eq_of_mem_replicate hout]
      obtain ⟨e, he, hblob⟩ := (hown.claim inc).claimed (claimLocal_pending _ _ _) caps hpublished hsmall
      rw [pack_all ((bytes_order w _).trans_le (hfits inc))]
      exact ⟨e.digest self_, mem_map.mpr ⟨⟨self_, e⟩, (w.perm _).mem_iff.mpr (Table.mem_entries_iff.mpr he),
        rfl⟩, rfl, hblob⟩

end Advertised

end

section

def backwards : Walk := ⟨fun t => t.entries.reverse, fun t => reverse_perm t.entries⟩

def twoPublish : List RegistryCall := [.merge [⟨2, 1, 1, encodeNodeCapabilities {}⟩], .publishLocal {}]

/-- A frame that has room for both. -/
theorem disseminates_iff_two : ∃ s, Machine.run (Advertised.step 1)
    { registry := { maxEntries := 4096 } } twoPublish = some s ∧
    Disseminates backwards 1 12 {} s.registry := by
  obtain ⟨s, hrun, hpublished, hfits⟩ : ∃ s,
      Machine.run (Advertised.step 1) { registry := { maxEntries := 4096 } } twoPublish = some s ∧
      s.published = some {} ∧
        ∀ inc, blobBytes (s.registry.claimLocal 1 inc).table ≤ 12 :=
    ⟨_, rfl, rfl, fun _ => Nat.le_refl 12⟩
  exact ⟨s, hrun, (Advertised.disseminates_iff (Machine.reachable_of_run hrun) hpublished backwards 12).mpr
    ⟨by decide, hfits⟩⟩

/-- In frames that have room for each of them, but not for both, the node's own entry never goes out. -/
theorem own_entry_starves : ∃ s, Machine.run (Advertised.step 1) {} twoPublish = some s ∧
    ∀ inc incs, (∀ node e, (s.registry.claimLocal 1 inc).table.lookup node = some e → e.blob.length ≤ 6) ∧
      ∀ out ∈ s.registry.pulls backwards 1 6 (inc :: incs), out.map CapabilityDigestEntry.node = [2] := by
  obtain ⟨s, hrun, hfits, hpack⟩ : ∃ s, Machine.run (Advertised.step 1) {} twoPublish = some s ∧
      (∀ inc, ((s.registry.claimLocal 1 inc).table.entries.all fun c => c.2.blob.length ≤ 6) = true) ∧
      ∀ inc, (pack 6 (backwards.order (s.registry.claimLocal 1 inc).table)).map CapabilityDigestEntry.node = [2] :=
    ⟨_, rfl, fun _ => rfl, fun _ => rfl⟩
  refine ⟨s, hrun, fun inc incs => ⟨fun node e he => ?_, fun out hout => ?_⟩⟩
  · exact of_decide_eq_true (all_eq_true.mp (hfits inc) ⟨node, e⟩ (Table.mem_entries_iff.mpr he))
  · rw [pulls_eq] at hout
    rw [eq_of_mem_replicate hout]
    exact hpack inc

end

end Quark.Swim
