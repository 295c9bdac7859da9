import Quark.Lib.Narrow
import Quark.VirtualBins

/-! `placement_policies.hpp`: the modifiers of a placement narrow the nodes, then its strategy chooses. -/
namespace Quark.Placement

open List

structure NodeCapabilities where
  flags : List String := []
  labels : List (String × String) := []
  scalars : List (String × Float) := []

namespace NodeCapabilities

variable (c : NodeCapabilities)

def hasFlag (name : String) : Bool := c.flags.any (· == name)

def label (key : String) : String := (c.labels.lookup key).getD ""

def scalar (name : String) (fallback : Float) : Float := (c.scalars.lookup name).getD fallback

def weight : Float := if 0.0 < c.scalar "weight" 1.0 then c.scalar "weight" 1.0 else 1e-9

end NodeCapabilities

abbrev CapabilityPredicate := NodeCapabilities → Bool

def HasFlag (name : String) : CapabilityPredicate := fun c => c.hasFlag name

def HasLabel (key val : String) : CapabilityPredicate := fun c => c.label key == val

/-- The caps are a map: a node has the first entry under its id. -/
structure CapabilityView where
  nodes : List NodeId
  caps : List (NodeId × NodeCapabilities) := []

def CapabilityView.capabilitiesOf (v : CapabilityView) (n : NodeId) : NodeCapabilities := (v.caps.lookup n).getD {}

def CapabilityView.weightOf (v : CapabilityView) (n : NodeId) : Float := (v.capabilitiesOf n).weight

inductive Modifier
  | require (caps : List CapabilityPredicate)
  | prefer (caps : List CapabilityPredicate)
  | weighted
  | localFirst
  | affinity (target : TypeKey)
  | antiAffinity (target : TypeKey)

inductive Strategy
  | hashById
  | explicit
  | custom (fn : ActorId → CapabilityView → Result NodeId)

structure ActorType where
  type : TypeKey
  strategy : Strategy := .hashById
  modifiers : List Modifier := []

def eligible (caps : List CapabilityPredicate) (c : NodeCapabilities) : Bool := caps.all fun p => p c

/-- Where the modifiers of `B` take the actor of type `A` to be: by its identity alone. -/
def targetNode (target : TypeKey) (id : ActorId) (v : CapabilityView) : Option NodeId :=
  placeHash (ActorId.mk target id.key).hash v.nodes

def applyRequire (v : CapabilityView) (elig : List NodeId) : Modifier → List NodeId
  | .require caps => elig.filter fun n => eligible caps (v.capabilitiesOf n)
  | _ => elig

def applyPrefer (v : CapabilityView) (pref : List NodeId) : Modifier → List NodeId
  | .prefer caps => pref.filter fun n => eligible caps (v.capabilitiesOf n)
  | _ => pref

def applyAffinity (id : ActorId) (v : CapabilityView) (elig : List NodeId) : Modifier → List NodeId
  | .affinity target =>
    match targetNode target id v with
    | some node => if node ∈ elig then [node] else elig
    | none => elig
  | _ => elig

def applyAntiAffinity (id : ActorId) (v : CapabilityView) (elig : List NodeId) : Modifier → List NodeId
  | .antiAffinity target =>
    match targetNode target id v with
    | some node => elig.filter fun n => n ≠ node
    | none => elig
  | _ => elig

/-- All filters of one kind come before those of the next, wherever they stand in the declaration. -/
def survivors (ms : List Modifier) (id : ActorId) (v : CapabilityView) : List NodeId :=
  ms.foldl (applyAntiAffinity id v) (ms.foldl (applyAffinity id v) (ms.foldl (applyRequire v) v.nodes))

def Modifier.isPrefer : Modifier → Bool
  | .prefer _ => true
  | _ => false

def Modifier.isWeighted : Modifier → Bool
  | .weighted => true
  | _ => false

def Modifier.isLocalFirst : Modifier → Bool
  | .localFirst => true
  | _ => false

def preferred (ms : List Modifier) (v : CapabilityView) (elig : List NodeId) : List NodeId :=
  if ms.any Modifier.isPrefer ∧ ms.foldl (applyPrefer v) elig ≠ [] then ms.foldl (applyPrefer v) elig else elig

section
variable {S : Type} [LT S] [DecidableLT S] [BEq S] (score : NodeId → UInt64 → Float → S)

def placeWeighted (keyHash : UInt64) (cand : List NodeId) (v : CapabilityView) : Option NodeId :=
  winner (fun n => score n keyHash (v.weightOf n)) cand

def choose (ms : List Modifier) (id : ActorId) (cand : List NodeId) (v : CapabilityView) : Option NodeId :=
  if ms.any Modifier.isWeighted then placeWeighted score id.hash cand v else placeHash id.hash cand

def resolveEligible (ms : List Modifier) (id : ActorId) (v : CapabilityView) (caller : NodeId) (elig : List NodeId) :
    Result NodeId :=
  if elig = [] then fail .notFound "no eligible node satisfies the placement constraints (Require/Affinity)"
  else if ms.any Modifier.isLocalFirst ∧ caller ≠ 0 ∧ caller ∈ elig then .ok caller
  else
    match choose score ms id (preferred ms v elig) v with
    | some w => .ok w
    | none => fail .unavailable "no winner among eligible nodes"

/-- The bin table serves only a placement without modifiers. -/
def resolveHashById (ms : List Modifier) (id : ActorId) (v : CapabilityView) (caller : NodeId)
    (bins : Option VirtualBins) : Result NodeId :=
  match ms, bins with
  | [], some bins =>
    match bins.ownerOf id with
    | some o => .ok o
    | none => fail .unavailable "empty cluster"
  | ms, _ =>
    if v.nodes = [] then fail .unavailable "empty membership — no node to place onto"
    else resolveEligible score ms id v caller (survivors ms id v)

def placeActor (A : ActorType) (id : ActorId) (v : CapabilityView) (caller : NodeId) (bins : Option VirtualBins)
    (explicitTarget : Option NodeId) : Result NodeId :=
  match A.strategy with
  | .explicit =>
    match explicitTarget with
    | some n => .ok n
    | none => fail .notFound "Placement<Explicit>: no explicit target node supplied"
  | .custom fn => fn id v
  | .hashById => resolveHashById score A.modifiers id v caller bins

end

variable {v : CapabilityView} {id : ActorId} {ms : List Modifier} {elig : List NodeId} {n : NodeId}

theorem applyRequire_subset (elig : List NodeId) (m : Modifier) : applyRequire v elig m ⊆ elig := by
  cases m with
  | require caps => exact filter_subset_self _
  | _ => exact List.Subset.refl elig

theorem applyPrefer_subset (elig : List NodeId) (m : Modifier) : applyPrefer v elig m ⊆ elig := by
  cases m with
  | prefer caps => exact filter_subset_self _
  | _ => exact List.Subset.refl elig

theorem applyAffinity_subset (elig : List NodeId) (m : Modifier) : applyAffinity id v elig m ⊆ elig := by
  cases m with
  | affinity target =>
    dsimp only [applyAffinity]
    cases targetNode target id v with
    | none => exact List.Subset.refl elig
    | some node =>
      dsimp only
      split_ifs with hnode
      · exact cons_subset.mpr ⟨hnode, nil_subset _⟩
      · exact List.Subset.refl elig
  | _ => exact List.Subset.refl elig

theorem applyAntiAffinity_subset (elig : List NodeId) (m : Modifier) : applyAntiAffinity id v elig m ⊆ elig := by
  cases m with
  | antiAffinity target =>
    dsimp only [applyAntiAffinity]
    cases targetNode target id v with
    | none => exact List.Subset.refl elig
    | some node => exact filter_subset_self _
  | _ => exact List.Subset.refl elig

/-- A node that passes all filters of a kind is let through by each modifier of the declaration. -/
def Passes (v : CapabilityView) (caps : List CapabilityPredicate) (n : NodeId) : Prop :=
  eligible caps (v.capabilitiesOf n) = true

theorem applyRequire_keeps (h : ∀ caps, Modifier.require caps ∈ ms → Passes v caps n) {m : Modifier} (hm : m ∈ ms)
    (elig : List NodeId) (hn : n ∈ elig) : n ∈ applyRequire v elig m := by
  cases m with
  | require caps => exact mem_filter.mpr ⟨hn, h caps hm⟩
  | _ => exact hn

theorem applyPrefer_keeps (h : ∀ caps, Modifier.prefer caps ∈ ms → Passes v caps n) {m : Modifier} (hm : m ∈ ms)
    (elig : List NodeId) (hn : n ∈ elig) : n ∈ applyPrefer v elig m := by
  cases m with
  | prefer caps => exact mem_filter.mpr ⟨hn, h caps hm⟩
  | _ => exact hn

theorem applyAffinity_target {target : TypeKey} (ht : targetNode target id v = some n) (hn : n ∈ elig) :
    applyAffinity id v elig (.affinity target) = [n] := by
  simp only [applyAffinity, ht, if_pos hn]

theorem applyAntiAffinity_target {target : TypeKey} (ht : targetNode target id v = some n) (elig : List NodeId) :
    n ∉ applyAntiAffinity id v elig (.antiAffinity target) := by
  simp only [applyAntiAffinity, ht]
  exact fun h => of_decide_eq_true (mem_filter.mp h).2 rfl

theorem survivors_subset : survivors ms id v ⊆ v.nodes :=
  List.Subset.trans (Narrow.narrow_subset applyAntiAffinity_subset ms _)
    (List.Subset.trans (Narrow.narrow_subset applyAffinity_subset ms _)
    (Narrow.narrow_subset applyRequire_subset ms _))

theorem survivors_antiAffinity {target : TypeKey} (hm : .antiAffinity target ∈ ms)
    (ht : targetNode target id v = some n) :
    n ∉ survivors ms id v :=
  Narrow.narrow_drops applyAntiAffinity_subset hm (applyAntiAffinity_target ht) _

theorem survivors_affinity {target : TypeKey} (hm : .affinity target ∈ ms)
    (honly : ∀ t, .affinity t ∈ ms → t = target) (hanti : ∀ t, .antiAffinity t ∉ ms)
    (hreq : ∀ caps, .require caps ∈ ms → Passes v caps n) (ht : targetNode target id v = some n) :
    survivors ms id v = [n] := by
  have hreqd : n ∈ ms.foldl (applyRequire v) v.nodes :=
    Narrow.narrow_keeps (fun _ hm elig hn => applyRequire_keeps hreq hm elig hn) (placeHash_mem ht)
  have hkeep : ∀ m ∈ ms, ∀ elig, n ∈ elig → n ∈ applyAffinity id v elig m := by
    intro m hm elig hn
    cases m with
    | affinity t =>
      rw [honly t hm, applyAffinity_target ht hn]
      exact mem_singleton.mpr rfl
    | _ => exact hn
  have hstay : ∀ m ∈ ms, applyAffinity id v [n] m = [n] := by
    intro m hm
    cases m with
    | affinity t => rw [honly t hm, applyAffinity_target ht (mem_singleton.mpr rfl)]
    | _ => rfl
  have hdrop : ∀ m ∈ ms, applyAntiAffinity id v [n] m = [n] := by
    intro m hm
    cases m with
    | antiAffinity t => exact absurd hm (hanti t)
    | _ => rfl
  rw [survivors, Narrow.narrow_pins hm (fun elig hn => applyAffinity_target ht hn) hkeep hstay hreqd]
  exact Narrow.narrow_stays hdrop

theorem survivors_keeps (haff : ∀ t, .affinity t ∉ ms) (hanti : ∀ t, .antiAffinity t ∉ ms)
    (hreq : ∀ caps, .require caps ∈ ms → Passes v caps n) (hn : n ∈ v.nodes) : n ∈ survivors ms id v := by
  have hreqd : n ∈ ms.foldl (applyRequire v) v.nodes :=
    Narrow.narrow_keeps (fun _ hm elig hn => applyRequire_keeps hreq hm elig hn) hn
  have hkeepAff : ∀ m ∈ ms, ∀ elig, n ∈ elig → n ∈ applyAffinity id v elig m := by
    intro m hm elig hn
    cases m with
    | affinity t => exact absurd hm (haff t)
    | _ => exact hn
  have hkeepAnti : ∀ m ∈ ms, ∀ elig, n ∈ elig → n ∈ applyAntiAffinity id v elig m := by
    intro m hm elig hn
    cases m with
    | antiAffinity t => exact absurd hm (hanti t)
    | _ => exact hn
  exact Narrow.narrow_keeps hkeepAnti (Narrow.narrow_keeps hkeepAff hreqd)

theorem preferred_subset : preferred ms v elig ⊆ elig := by
  unfold preferred
  split_ifs
  · exact Narrow.narrow_subset applyPrefer_subset ms elig
  · exact List.Subset.refl elig

theorem preferred_ne_nil (h : elig ≠ []) : preferred ms v elig ≠ [] := by
  unfold preferred
  split_ifs with hpref
  · exact hpref.2
  · exact h

theorem preferred_keeps (hpref : ∀ caps, .prefer caps ∈ ms → Passes v caps n) (hn : n ∈ elig) :
    n ∈ preferred ms v elig := by
  unfold preferred
  split_ifs
  · exact Narrow.narrow_keeps (fun _ hm elig hn => applyPrefer_keeps hpref hm elig hn) hn
  · exact hn

section
variable {S : Type} [LT S] [DecidableLT S] [BEq S] {score : NodeId → UInt64 → Float → S} {cand : List NodeId}
  {caller : NodeId}

theorem choose_mem (h : choose score ms id cand v = some n) : n ∈ cand := by
  unfold choose at h
  split_ifs at h
  · exact winner_mem h
  · exact placeHash_mem h

theorem choose_eq_none : choose score ms id cand v = none ↔ cand = [] := by
  unfold choose
  split_ifs
  · exact winner_eq_none
  · exact placeHash_eq_none

theorem resolveEligible_mem (h : resolveEligible score ms id v caller elig = .ok n) : n ∈ elig := by
  unfold resolveEligible at h
  split_ifs at h with hnone hlocal
  · cases h
  · cases h
    exact hlocal.2.2
  · cases hw : choose score ms id (preferred ms v elig) v with
    | none =>
      rw [hw] at h
      cases h
    | some w =>
      rw [hw] at h
      cases h
      exact preferred_subset (choose_mem hw)

theorem resolveEligible_total (ms : List Modifier) (id : ActorId) (v : CapabilityView) (caller : NodeId)
    (h : elig ≠ []) : ∃ n, resolveEligible score ms id v caller elig = .ok n := by
  unfold resolveEligible
  rw [if_neg h]
  split_ifs
  · exact ⟨caller, rfl⟩
  · cases hw : choose score ms id (preferred ms v elig) v with
    | none => exact absurd (choose_eq_none.mp hw) (preferred_ne_nil h)
    | some w => exact ⟨w, rfl⟩

theorem resolveEligible_single : resolveEligible score ms id v caller [n] = .ok n := by
  obtain ⟨m, hm⟩ : ∃ m, resolveEligible score ms id v caller [n] = .ok m :=
    resolveEligible_total ms id v caller (cons_ne_nil n [])
  rw [hm, mem_singleton.mp (resolveEligible_mem hm)]

/-- The winner among all nodes wins among those left, if it is one of them. -/
theorem resolveEligible_base (hweighted : .weighted ∉ ms) (hlocal : .localFirst ∉ ms)
    (hpref : ∀ caps, .prefer caps ∈ ms → Passes v caps n) (helig : elig ⊆ v.nodes) (hn : n ∈ elig)
    (hbase : placeHash id.hash v.nodes = some n) : resolveEligible score ms id v caller elig = .ok n := by
  have hnw : ms.any Modifier.isWeighted = false := any_eq_false.mpr fun m hm => by
    cases m with
    | weighted => exact absurd hm hweighted
    | _ => exact Bool.false_ne_true
  have hnl : ms.any Modifier.isLocalFirst = false := any_eq_false.mpr fun m hm => by
    cases m with
    | localFirst => exact absurd hm hlocal
    | _ => exact Bool.false_ne_true
  have hwin : placeHash id.hash (preferred ms v elig) = some n :=
    placeHash_subset (preferred_keeps hpref hn) (List.Subset.trans preferred_subset helig) hbase
  rw [resolveEligible, if_neg (ne_nil_of_mem hn), if_neg fun h => by simp [hnl] at h, choose, hnw,
    if_neg Bool.false_ne_true, hwin]

end

def ActorType.at (A : ActorType) (key : UInt64) : ActorId := ⟨A.type, key⟩

def baseNode (A : ActorType) (key : UInt64) (v : CapabilityView) : Option NodeId := placeHash (A.at key).hash v.nodes

theorem targetNode_at (A B : ActorType) (key : UInt64) (v : CapabilityView) :
    targetNode A.type (B.at key) v = baseNode A key v := rfl

/-- Affinity to `a`, and to or against no other actor; the node passes the required predicates. -/
structure ActorType.Follows (B : ActorType) (a : TypeKey) (v : CapabilityView) (n : NodeId) : Prop where
  declared : .affinity a ∈ B.modifiers
  only : ∀ t, .affinity t ∈ B.modifiers → t = a
  noAnti : ∀ t, .antiAffinity t ∉ B.modifiers
  required : ∀ caps, .require caps ∈ B.modifiers → Passes v caps n

/-- No modifier can move the actor away from the node. -/
structure ActorType.Stays (A : ActorType) (v : CapabilityView) (n : NodeId) : Prop where
  unweighted : .weighted ∉ A.modifiers
  noLocal : .localFirst ∉ A.modifiers
  noAffinity : ∀ t, .affinity t ∉ A.modifiers
  noAnti : ∀ t, .antiAffinity t ∉ A.modifiers
  required : ∀ caps, .require caps ∈ A.modifiers → Passes v caps n
  preferred : ∀ caps, .prefer caps ∈ A.modifiers → Passes v caps n

section
variable {S : Type} [LT S] [DecidableLT S] [BEq S] {score : NodeId → UInt64 → Float → S}
  {A B : ActorType} {key : UInt64}
  {caller : NodeId} {bins : Option VirtualBins} {explicitTarget : Option NodeId}

theorem placeActor_modified (hB : B.strategy = .hashById) (hnodes : v.nodes ≠ []) (hmods : B.modifiers ≠ []) :
    placeActor score B id v caller bins explicitTarget =
      resolveEligible score B.modifiers id v caller (survivors B.modifiers id v) := by
  have hresolve : placeActor score B id v caller bins explicitTarget =
      resolveHashById score B.modifiers id v caller bins := by
    simp only [placeActor, hB]
  rw [hresolve]
  cases hms : B.modifiers with
  | nil => exact absurd hms hmods
  | cons m ms => simp only [resolveHashById, if_neg hnodes]

/-- An actor follows, or keeps away from, the node that another one has by its identity: the node of the other one as
long as no modifier moves it from there. -/
theorem placed_by_base_node (score : NodeId → UInt64 → Float → S) (v : CapabilityView) (key : UInt64)
    (A B : ActorType)
    (hA : A.strategy = .hashById) (hB : B.strategy = .hashById) (caller : NodeId) (bins : Option VirtualBins)
    (explicitTarget : Option NodeId) :
    (.antiAffinity A.type ∈ B.modifiers → ∀ n,
      placeActor score B (B.at key) v caller bins explicitTarget = .ok n → baseNode A key v ≠ some n) ∧
    ∀ n, baseNode A key v = some n →
      (B.Follows A.type v n → placeActor score B (B.at key) v caller bins explicitTarget = .ok n) ∧
      (A.Stays v n → placeActor score A (A.at key) v caller none explicitTarget = .ok n) := by
  refine ⟨fun hanti n hn hbase => ?_, fun n hbase => ⟨fun hB' => ?_, fun hA' => ?_⟩⟩
  · have hnodes : v.nodes ≠ [] := ne_nil_of_mem (placeHash_mem hbase)
    rw [placeActor_modified hB hnodes (ne_nil_of_mem hanti)] at hn
    exact survivors_antiAffinity hanti ((targetNode_at A B key v).trans hbase) (resolveEligible_mem hn)
  · have hnodes : v.nodes ≠ [] := ne_nil_of_mem (placeHash_mem hbase)
    rw [placeActor_modified hB hnodes (ne_nil_of_mem hB'.declared),
      survivors_affinity hB'.declared hB'.only hB'.noAnti hB'.required ((targetNode_at A B key v).trans hbase)]
    exact resolveEligible_single
  · have hnodes : v.nodes ≠ [] := ne_nil_of_mem (placeHash_mem hbase)
    have hresolve : placeActor score A (A.at key) v caller none explicitTarget =
        resolveEligible score A.modifiers (A.at key) v caller (survivors A.modifiers (A.at key) v) := by
      simp only [placeActor, hA]
      cases A.modifiers with
      | nil => simp only [resolveHashById, if_neg hnodes]
      | cons m ms => simp only [resolveHashById, if_neg hnodes]
    rw [hresolve]
    exact resolveEligible_base hA'.unweighted hA'.noLocal hA'.preferred survivors_subset
      (survivors_keeps hA'.noAffinity hA'.noAnti hA'.required (placeHash_mem hbase)) hbase

end

def twoNodes : CapabilityView := { nodes := [1, 2], caps := [(2, { flags := ["gpu"] })] }

def flagged : ActorType := { type := ⟨0⟩, modifiers := [.require [HasFlag "gpu"]] }

def plain : ActorType := { type := ⟨1⟩ }

theorem placed_by_base_node_two :
    placeActor (fun _ _ _ => 0) { type := ⟨2⟩, modifiers := [.weighted, .affinity ⟨1⟩] }
    ⟨⟨2⟩, 0⟩ twoNodes 0 none none = .ok 2 ∧
    placeActor (fun _ _ _ => 0) plain ⟨⟨1⟩, 0⟩ twoNodes 0 none none = .ok 2 := by
  have h := (placed_by_base_node (fun _ _ _ => (0 : Nat)) twoNodes 0 plain
    { type := ⟨2⟩, modifiers := [.weighted, .affinity ⟨1⟩] } rfl rfl 0 none none).2 2 (by decide)
  refine ⟨h.1 ⟨?_, ?_, ?_, ?_⟩, h.2 ⟨?_, ?_, ?_, ?_, ?_, ?_⟩⟩ <;> simp [plain]

/-- An actor that its own modifiers move is found on the node of one that keeps away from it, and not where one that
follows it is. -/
theorem moved_target_missed :
    placeActor (fun _ _ _ => 0) flagged ⟨⟨0⟩, 0⟩ twoNodes 0 none none = .ok 2 ∧
    placeActor (fun _ _ _ => 0) { type := ⟨1⟩, modifiers := [.antiAffinity ⟨0⟩] }
    ⟨⟨1⟩, 0⟩ twoNodes 0 none none = .ok 2 ∧
    placeActor (fun _ _ _ => 0) { type := ⟨1⟩, modifiers := [.affinity ⟨0⟩] }
    ⟨⟨1⟩, 0⟩ twoNodes 0 none none = .ok 1 := by
  refine ⟨?_, ?_, ?_⟩ <;> decide

end Quark.Placement
