import Quark.CapabilityRegistry
import Quark.SwimNode

/-! The control frames of `cluster.hpp`: `encode_control` and `decode_control`, what `send_control` puts into a frame,
and when the receiver reads back what was sent. -/
namespace Quark.Swim

open List Bytes Reader

def kMaxSignedRevocationsPerFrame : Nat := 64
def kMaxSignedRevocationBlobBytes : Nat := 256

def ControlKind.code : ControlKind → UInt8
  | .ping => 1
  | .ack => 2
  | .pingReq => 3
  | .pingReqAck => 4
  | .gossip => 5
  | .join => 6
  | .joinAck => 7
  | .joinReject => 8
  | .congested => 9
  | .suspend => 10
  | .other c => c

def ControlKind.ofCode (c : UInt8) : ControlKind :=
  if c = 1 then .ping else if c = 2 then .ack else if c = 3 then .pingReq else if c = 4 then .pingReqAck
  else if c = 5 then .gossip else if c = 6 then .join else if c = 7 then .joinAck else if c = 8 then .joinReject
  else if c = 9 then .congested else if c = 10 then .suspend else .other c

def putUpdate (u : MemberUpdate) : List UInt8 := putU64 u.node ++ (putU64 u.incarnation ++ [u.status])

def putCapability (e : CapabilityDigestEntry) : List UInt8 :=
  putU64 e.node ++ (putU64 e.incarnation ++ (putU32 e.localSeq ++ (putCount e.blob.length ++ e.blob)))

def putPressure (e : MailboxPressureEntry) : List UInt8 :=
  putU64 e.node ++ (putU64 e.incarnation ++ putU64 e.residentTotal)

/-- What every `ControlMsg` of the source is: a named kind, 32-byte fingerprints, a 64-bit duration. -/
structure ControlMsg.Typed (m : ControlMsg) : Prop where
  kind : ControlKind.ofCode m.kind.code = m.kind
  revocations : ∀ fp ∈ m.revocations, fp.length = 32
  congestion : -2 ^ 63 ≤ m.congestionRemaining ∧ m.congestionRemaining < 2 ^ 63

def keptRecords (records : List (List UInt8)) : List (List UInt8) :=
  (records.filter fun blob => blob ≠ [] ∧
    blob.length ≤ kMaxSignedRevocationBlobBytes).take kMaxSignedRevocationsPerFrame

def putSigned (records : List (List UInt8)) : List UInt8 :=
  putCount (keptRecords records).length ++ (keptRecords records).flatMap fun blob => putCount blob.length ++ blob

def putTrailer (wireVersion : UInt8) (records : List (List UInt8)) : List UInt8 :=
  if wireVersion = 1 then [] else wireVersion :: if records = [] then [] else putSigned records

def putHeader (m : ControlMsg) : List UInt8 :=
  [m.kind.code] ++ (putU64 m.cluster ++ (putU64 m.from_ ++ (putU64 m.fromIncarnation ++ (putU64 m.subject ++
    (putU64 m.subjectIncarnation ++ putU64 m.seq)))))

def encodeControl (m : ControlMsg) : List UInt8 :=
  putHeader m ++ ((putCount m.updates.length ++ m.updates.flatMap putUpdate) ++
    ((putCount m.revocations.length ++ m.revocations.flatMap fun fp => fp) ++
      ((putCount m.capabilities.length ++ m.capabilities.flatMap putCapability) ++
        ((putCount m.pressure.length ++ m.pressure.flatMap putPressure) ++
          (putU64 (UInt64.ofInt m.congestionRemaining) ++ putTrailer m.wireVersion m.signedRevocations)))))

def readHeader : Reader ControlMsg := do
  let kind ← u8
  let cluster ← u64
  let from_ ← u64
  let fromIncarnation ← u64
  let subject ← u64
  let subjectIncarnation ← u64
  let seq ← u64
  return { kind := .ofCode kind, cluster, from_, fromIncarnation, subject, subjectIncarnation, seq }

def readUpdate : Reader MemberUpdate := do
  let node ← u64
  let incarnation ← u64
  let status ← u8
  return { node, incarnation, status }

def readFingerprint : Reader (List UInt8) := bytes 32

/-- The blobs of one frame are at most `kMaxDecodedCapabilityBytes` in total. -/
def readCapabilities : Nat → Nat → Reader (List CapabilityDigestEntry)
  | 0, _ => pure []
  | n + 1, decoded => do
      let node ← u64
      let incarnation ← u64
      let localSeq ← u32
      let len ← u16
      if kMaxDecodedCapabilityBytes < decoded + len.toNat then failure
      let blob ← bytes len.toNat
      let es ← readCapabilities n (decoded + len.toNat)
      return { node, incarnation, localSeq, blob } :: es

def readPressure : Reader MailboxPressureEntry := do
  let node ← u64
  let incarnation ← u64
  let residentTotal ← u64
  return { node, incarnation, residentTotal }

def readRecord : Reader (List UInt8) := do
  let len ← u16
  if len = 0 ∨ kMaxSignedRevocationBlobBytes < len.toNat then failure
  bytes len.toNat

def readSigned : Reader (List (List UInt8)) := do
  if (← left) = [] then return []
  let count ← u16
  if kMaxSignedRevocationsPerFrame < count.toNat then failure
  times readRecord count.toNat

def readTrailer : Reader (UInt8 × List (List UInt8)) := do
  if (← left) = [] then return (1, [])
  let wireVersion ← u8
  let records ← readSigned
  return (wireVersion, records)

def readControl : Reader ControlMsg := do
  let header ← readHeader
  let updates ← counted readUpdate
  let revocations ← counted readFingerprint
  let capabilities ← readCapabilities (← u16).toNat 0
  let pressure ← counted readPressure
  let congestion ← u64
  let (wireVersion, signedRevocations) ← readTrailer
  return { header with
    updates, revocations, capabilities, pressure, congestionRemaining := congestion.toInt64.toInt, wireVersion,
    signedRevocations }

/-- What stands after the signed records is ignored. -/
def decodeControl (bs : List UInt8) : Option ControlMsg := (readControl.run bs).map Prod.fst

/-- The counts and lengths fit into 16 bits, the capability blobs under the ceiling. -/
structure ControlMsg.Fits (m : ControlMsg) : Prop where
  updates : m.updates.length < 2 ^ 16
  revocations : m.revocations.length < 2 ^ 16
  capabilities : m.capabilities.length < 2 ^ 16
  blobs : ∀ e ∈ m.capabilities, e.blob.length < 2 ^ 16
  total : (m.capabilities.map fun e => e.blob.length).sum ≤ kMaxDecodedCapabilityBytes
  pressure : m.pressure.length < 2 ^ 16

def ControlMsg.RoundTrips (m : ControlMsg) : Prop :=
  decodeControl (encodeControl m) =
    some { m with signedRevocations := if m.wireVersion = 1 then [] else keptRecords m.signedRevocations }

section

variable {m : ControlMsg} {es : List CapabilityDigestEntry} {records : List (List UInt8)} {bs : List UInt8}

theorem reads_header (m : ControlMsg) : Reads readHeader (putHeader m)
    { kind := .ofCode m.kind.code, cluster := m.cluster, from_ := m.from_, fromIncarnation := m.fromIncarnation
      subject := m.subject, subjectIncarnation := m.subjectIncarnation, seq := m.seq } := by
  refine (reads_u8 _).bind ((reads_u64 _).bind ((reads_u64 _).bind ((reads_u64 _).bind ((reads_u64 _).bind
    ((reads_u64 _).bind ?_)))))
  exact (reads_u64 _).map

theorem reads_update (u : MemberUpdate) : Reads readUpdate (putUpdate u) u :=
  (reads_u64 _).bind ((reads_u64 _).bind (reads_u8 _).map)

theorem reads_pressure (e : MailboxPressureEntry) : Reads readPressure (putPressure e) e :=
  (reads_u64 _).bind ((reads_u64 _).bind (reads_u64 _).map)

theorem reads_capabilities {decoded : Nat} (hblobs : ∀ e ∈ es, e.blob.length < 2 ^ 16)
    (htotal : decoded + (es.map fun e => e.blob.length).sum ≤ kMaxDecodedCapabilityBytes) :
    Reads (readCapabilities es.length decoded) (es.flatMap putCapability) es := by
  induction es generalizing decoded with
  | nil => exact reads_pure []
  | cons e es ih =>
    obtain ⟨hcount, hlen⟩ := reads_count (hblobs e mem_cons_self)
    rw [map_cons, sum_cons] at htotal
    rw [flatMap_cons, putCapability, append_assoc, append_assoc, append_assoc, append_assoc]
    refine (reads_u64 _).bind ((reads_u64 _).bind ((reads_u32 _).bind (hcount.bind ?_)))
    rw [hlen, if_neg (by omega)]
    refine (reads_bytes _).bind ?_
    exact (ih (fun e he => hblobs e (mem_cons_of_mem _ he)) (by omega)).map

theorem reads_record {blob : List UInt8} (hblob : blob ≠ [] ∧ blob.length ≤ kMaxSignedRevocationBlobBytes) :
    Reads readRecord (putCount blob.length ++ blob) blob := by
  have hpos := length_pos_iff.mpr hblob.1
  have hmax : blob.length ≤ 256 := hblob.2
  obtain ⟨hcount, hlen⟩ := reads_count (show blob.length < 2 ^ 16 by omega)
  refine hcount.bind ?_
  have hok : ¬ (UInt16.ofNat blob.length = 0 ∨ kMaxSignedRevocationBlobBytes < (UInt16.ofNat blob.length).toNat) := by
    rintro (hzero | hlong)
    · rw [hzero] at hlen
      exact absurd hlen.symm (Nat.ne_of_gt hpos)
    · rw [hlen] at hlong
      exact absurd hlong (by rw [not_lt]; exact hblob.2)
  rw [if_neg hok, hlen]
  exact reads_bytes blob

theorem kept_blob {blob : List UInt8} (h : blob ∈ keptRecords records) :
    blob ≠ [] ∧ blob.length ≤ kMaxSignedRevocationBlobBytes := by
  simpa using (mem_filter.mp (mem_of_mem_take h)).2

theorem run_signed (records : List (List UInt8)) :
    readSigned.run (putSigned records) = some (keptRecords records, []) := by
  have hcount : (keptRecords records).length ≤ kMaxSignedRevocationsPerFrame := by
    rw [keptRecords, length_take]
    exact min_le_left _ _
  obtain ⟨hreads, hlen⟩ := reads_count (lt_of_le_of_lt hcount (by decide))
  have hne : putSigned records ≠ [] := by
    exact fun hnil => absurd (congrArg List.length hnil) (by simp [putSigned, putCount])
  unfold readSigned
  rw [run_left, if_neg hne]
  refine Reads.run (hreads.bind ?_)
  rw [hlen, if_neg (not_lt.mpr hcount)]
  exact reads_times fun blob hblob => reads_record (kept_blob hblob)

theorem run_trailer (wireVersion : UInt8) (records : List (List UInt8)) :
    readTrailer.run (putTrailer wireVersion records) =
      some ((wireVersion, if wireVersion = 1 then [] else keptRecords records), []) := by
  have hsigned : readSigned.run (if records = [] then [] else putSigned records) =
      some (keptRecords records, []) := by
    split
    · next hnil =>
      rw [hnil]
      rfl
    · exact run_signed records
  unfold putTrailer readTrailer
  rw [run_left]
  split
  · next hone =>
    rw [if_pos rfl, hone]
    rfl
  · rw [if_neg (cons_ne_nil _ _)]
    generalize (if records = [] then [] else putSigned records) = bs at hsigned ⊢
    rw [← singleton_append, (reads_u8 wireVersion).run_bind, StateT.run_bind, hsigned]
    rfl

theorem toInt_ofInt {x : Int} (h : -2 ^ 63 ≤ x ∧ x < 2 ^ 63) : (UInt64.ofInt x).toInt64.toInt = x := by
  have hsame : (UInt64.ofInt x).toInt64 = Int64.ofInt x := by
    refine Int64.toBitVec_inj.mp (BitVec.eq_of_toNat_eq ?_)
    change (BitVec.ofNat 64 (x % 2 ^ 64).toNat).toNat = (BitVec.ofInt 64 x).toNat
    rw [BitVec.toNat_ofNat, BitVec.toNat_ofInt]
    omega
  rw [hsame]
  exact Int64.toInt_ofInt_of_le h.1 h.2

theorem run_control (htyped : m.Typed) (hfits : m.Fits) : readControl.run (encodeControl m) =
    some ({ m with signedRevocations := if m.wireVersion = 1 then [] else keptRecords m.signedRevocations }, []) := by
  obtain ⟨hcount, hlen⟩ := reads_count hfits.capabilities
  have hrevocations : Reads (counted readFingerprint)
      (putCount m.revocations.length ++ m.revocations.flatMap fun fp => fp) m.revocations :=
    reads_counted hfits.revocations fun fp hfp => reads_bytes_of_length (htyped.revocations fp hfp)
  have hcapabilities : Reads (readCapabilities m.capabilities.length 0) (m.capabilities.flatMap putCapability)
      m.capabilities := reads_capabilities hfits.blobs (by rw [zero_add]; exact hfits.total)
  unfold readControl encodeControl
  rw [(reads_header m).run_bind, (reads_counted hfits.updates fun u _ => reads_update u).run_bind,
    hrevocations.run_bind, append_assoc, hcount.run_bind, hlen, hcapabilities.run_bind,
    (reads_counted hfits.pressure fun e _ => reads_pressure e).run_bind, (reads_u64 _).run_bind, StateT.run_bind,
    run_trailer, toInt_ofInt htyped.congestion, htyped.kind]
  rfl

theorem ensures_capabilities {n decoded : Nat} (hdecoded : decoded ≤ kMaxDecodedCapabilityBytes) :
    Ensures (readCapabilities n decoded) fun es => es.length = n ∧ (∀ e ∈ es, e.blob.length < 2 ^ 16) ∧
      decoded + (es.map fun e => e.blob.length).sum ≤ kMaxDecodedCapabilityBytes := by
  induction n generalizing decoded with
  | zero => exact ensures_pure ⟨rfl, by simp, hdecoded⟩
  | succ n ih =>
    refine .skip fun node => .skip fun incarnation => .skip fun localSeq => .skip fun len => .guard fun hle => ?_
    refine (ensures_bytes len.toNat).bind fun blob hblob => (ih (by omega)).bind fun es hes => ensures_pure ?_
    obtain ⟨hlength, hblobs, htotal⟩ := hes
    refine ⟨congrArg Nat.succ hlength, fun e he => ?_, ?_⟩
    · rcases mem_cons.mp he with rfl | he
      · rw [hblob]
        exact len.toNat_lt
      · exact hblobs e he
    · rw [map_cons, sum_cons, hblob]
      omega

theorem ensures_control : Ensures readControl ControlMsg.Fits := by
  refine .skip fun header => ensures_counted.bind fun updates hupdates => ensures_counted.bind fun revocations
    hrevocations => .skip fun count => (ensures_capabilities (Nat.zero_le _)).bind fun capabilities hcapabilities =>
    ensures_counted.bind fun pressure hpressure => .skip fun congestion => .skip fun trailer => ensures_pure ?_
  obtain ⟨hlength, hblobs, htotal⟩ := hcapabilities
  refine ⟨hupdates, hrevocations, ?_, hblobs, ?_, hpressure⟩
  · rw [show capabilities.length = count.toNat from hlength]
    exact count.toNat_lt
  · rwa [zero_add] at htotal

theorem roundTrips_iff_fits (htyped : m.Typed) : m.RoundTrips ↔ m.Fits := by
  constructor
  · intro hback
    obtain ⟨⟨m', rest⟩, hrun, heq⟩ := Option.map_eq_some_iff.mp hback
    have hfits : m'.Fits := ensures_control _ _ _ hrun
    rw [show m' = _ from heq] at hfits
    exact ⟨hfits.updates, hfits.revocations, hfits.capabilities, hfits.blobs, hfits.total, hfits.pressure⟩
  · intro hfits
    unfold ControlMsg.RoundTrips decodeControl
    rw [run_control htyped hfits]
    rfl

end

end Quark.Swim
