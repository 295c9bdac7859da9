import Quark.Lib.Reader
import Quark.Swim

/-! `CapabilityRegistry` of `capability_registry.hpp`: what the nodes advertise, and what goes into and comes out of a
control frame. Strings are bytes, doubles their bits. -/
namespace Quark.Swim

open List Bytes Reader

structure NodeCapabilities where
  flags : List (List UInt8) := []
  labels : List (List UInt8 × List UInt8) := []
  scalars : List (List UInt8 × UInt64) := []
  deriving DecidableEq, Repr

def putCapStr (s : List UInt8) : List UInt8 := putCount s.length ++ s

def encodeNodeCapabilities (caps : NodeCapabilities) : List UInt8 :=
  putCount caps.flags.length ++ caps.flags.flatMap putCapStr ++
    (putCount caps.labels.length ++ caps.labels.flatMap fun l => putCapStr l.1 ++ putCapStr l.2) ++
    (putCount caps.scalars.length ++ caps.scalars.flatMap fun s => putCapStr s.1 ++ putU64 s.2)

def readCapStr : Reader (List UInt8) := do bytes (← u16).toNat

def readLabel : Reader (List UInt8 × List UInt8) := do
  let k ← readCapStr
  let v ← readCapStr
  return (k, v)

def readScalar : Reader (List UInt8 × UInt64) := do
  let name ← readCapStr
  let bits ← u64
  return (name, bits)

def readNodeCapabilities : Reader NodeCapabilities := do
  let flags ← counted readCapStr
  let labels ← counted readLabel
  let scalars ← counted readScalar
  return { flags, labels, scalars }

/-- What stands after the scalars is ignored. -/
def decodeNodeCapabilities (blob : List UInt8) : Option NodeCapabilities :=
  (readNodeCapabilities.run blob).map Prod.fst

def kMaxDecodedCapabilityBytes : Nat := 65536

/-- An entry of the table; `caps` is what its blob says. -/
structure CapabilityRegistry.Entry where
  incarnation : UInt64
  localSeq : UInt32
  blob : List UInt8
  caps : NodeCapabilities
  decodes : decodeNodeCapabilities blob = some caps

def CapabilityRegistry.Entry.digest (e : CapabilityRegistry.Entry) (node : NodeId) : CapabilityDigestEntry :=
  ⟨node, e.incarnation, e.localSeq, e.blob⟩

@[simp] theorem CapabilityRegistry.digest_blob (e : CapabilityRegistry.Entry) (node : NodeId) :
    (e.digest node).blob = e.blob := rfl

structure CapabilityRegistry where
  maxEntries : Nat := 4096
  table : Table NodeId CapabilityRegistry.Entry := ∅
  localSeq : UInt32 := 0
  pending : Option NodeCapabilities := none

theorem reads_capStr {str : List UInt8} (h : str.length < 2 ^ 16) : Reads readCapStr (putCapStr str) str := by
  obtain ⟨hcount, hlen⟩ := reads_count h
  refine hcount.bind ?_
  rw [hlen]
  exact reads_bytes str

theorem putCapStr_length (str : List UInt8) : (putCapStr str).length = 2 + str.length := by
  rw [putCapStr, length_append, putCount, putU16_length]

theorem decode_encode {caps : NodeCapabilities}
    (h : (encodeNodeCapabilities caps).length ≤ kMaxDecodedCapabilityBytes) :
    decodeNodeCapabilities (encodeNodeCapabilities caps) = some caps := by
  simp only [encodeNodeCapabilities, length_append, putCount, putU16_length] at h
  unfold kMaxDecodedCapabilityBytes at h
  have hflags : Reads (counted readCapStr) (putCount caps.flags.length ++ caps.flags.flatMap putCapStr)
      caps.flags := by
    refine reads_counted_of_length (by omega) (fun f => ?_) fun f hf => reads_capStr ?_
    · rw [putCapStr_length]
      omega
    · rw [putCapStr_length] at hf
      omega
  have hlabels : Reads (counted readLabel)
      (putCount caps.labels.length ++ caps.labels.flatMap fun l => putCapStr l.1 ++ putCapStr l.2) caps.labels := by
    refine reads_counted_of_length (by omega) (fun l => ?_) fun l hl => ?_
    · rw [length_append, putCapStr_length]
      omega
    · rw [length_append, putCapStr_length, putCapStr_length] at hl
      exact (reads_capStr (by omega)).bind (reads_capStr (by omega)).map
  have hscalars : Reads (counted readScalar)
      (putCount caps.scalars.length ++ caps.scalars.flatMap fun x => putCapStr x.1 ++ putU64 x.2) caps.scalars := by
    refine reads_counted_of_length (by omega) (fun x => ?_) fun x hx => ?_
    · rw [length_append, putCapStr_length]
      omega
    · rw [length_append, putCapStr_length] at hx
      exact (reads_capStr (by omega)).bind (reads_u64 _).map
  have hreads : Reads readNodeCapabilities (encodeNodeCapabilities caps) caps := by
    rw [encodeNodeCapabilities, append_assoc]
    exact hflags.bind (hlabels.bind hscalars.map)
  rw [decodeNodeCapabilities, hreads.run]
  rfl

theorem takes_capStr : Takes readCapStr 0 :=
    (takes_u16.bind fun n => (takes_bytes n.toNat).mono (Nat.zero_le _)).mono (Nat.zero_le _)

theorem takes_label : Takes readLabel 0 :=
  takes_capStr.bind fun _ => takes_capStr.bind fun _ => takes_pure _

theorem takes_scalar : Takes readScalar 0 :=
  (takes_capStr.bind fun _ => takes_u64.bind fun _ => takes_pure _).mono (Nat.zero_le _)

theorem takes_nodeCapabilities : Takes readNodeCapabilities 6 :=
  (takes_counted takes_capStr).bind fun _ => (takes_counted takes_label).bind fun _ =>
    (takes_counted takes_scalar).bind fun _ => takes_pure _

theorem decode_counts {blob : List UInt8} {caps : NodeCapabilities} (h : decodeNodeCapabilities blob = some caps) :
    6 ≤ blob.length := by
  obtain ⟨⟨v, rest⟩, hrun, -⟩ := Option.map_eq_some_iff.mp h
  have hle := takes_nodeCapabilities blob v rest hrun
  omega

namespace CapabilityRegistry

variable (reg : CapabilityRegistry)

def publishLocal (caps : NodeCapabilities) : CapabilityRegistry := { reg with pending := some caps }

def claimLocal (self_ : NodeId) (selfIncarnation : UInt64) : CapabilityRegistry :=
  match reg.pending with
  | none => reg
  | some caps =>
    if h : (encodeNodeCapabilities caps).length ≤ kMaxDecodedCapabilityBytes then
      { reg with
        pending := none
        localSeq := reg.localSeq + 1
        table := reg.table.insert self_
          ⟨selfIncarnation, reg.localSeq + 1, encodeNodeCapabilities caps, caps, decode_encode h⟩ }
    else { reg with pending := none }

def pack : Nat → List (Sigma fun _ : NodeId => Entry) → List CapabilityDigestEntry
  | _, [] => []
  | budget, e :: es =>
    if budget < e.2.blob.length then pack budget es
    else e.2.digest e.1 :: pack (budget - e.2.blob.length) es

def pull (self_ : NodeId) (selfIncarnation : UInt64) (maxBytes : Nat) :
    List CapabilityDigestEntry × CapabilityRegistry :=
  let reg := reg.claimLocal self_ selfIncarnation
  (pack maxBytes reg.table.entries, reg)

def supersedes (cur e : CapabilityDigestEntry) : Bool :=
  if e.incarnation ≠ cur.incarnation then cur.incarnation < e.incarnation
  else if e.localSeq ≠ cur.localSeq then cur.localSeq < e.localSeq
  else cur.blob < e.blob

def store (e : CapabilityDigestEntry) : CapabilityRegistry :=
  match h : decodeNodeCapabilities e.blob with
  | none => reg
  | some caps =>
    { reg with table := reg.table.insert e.node ⟨e.incarnation, e.localSeq, e.blob, caps, h⟩ }

def mergeOne (e : CapabilityDigestEntry) : CapabilityRegistry :=
  match reg.table.lookup e.node with
  | none => if reg.maxEntries ≤ reg.table.size then reg else reg.store e
  | some cur => if supersedes (cur.digest e.node) e then reg.store e else reg

def merge (incoming : List CapabilityDigestEntry) : CapabilityRegistry := incoming.foldl mergeOne reg

def evictDead (node : NodeId) : CapabilityRegistry := { reg with table := reg.table.erase node }

end CapabilityRegistry

end Quark.Swim
