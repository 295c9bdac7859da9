import Quark.Backup
import Quark.FileStoreReplay
import Quark.Lib.Reader

/-! The byte form of a backup image, of `backup.hpp`. -/
namespace Quark

open List Bytes Reader FileStore

def kMagic : List UInt8 := [0x51, 0x42, 0x41, 0x4B, 0x30, 0x30, 0x30, 0x31]

def putSnapshot : Option SnapshotRecord → List UInt8
  | none => [0]
  | some s => [1] ++ (putU64 s.fence.value ++ (putU64 s.throughSeq ++ putBlob s.record))

def putActor (a : ActorBackup) : List UInt8 :=
  putU64 a.id.type.value ++ (putU64 a.id.key ++ (putU64 a.owner.value ++ (putU64 a.lastSeq ++
    (putSnapshot a.snapshot ++ (putU32 (UInt32.ofNat a.log.length) ++ putEvents a.log)))))

def putImage (img : BackupImage) : List UInt8 :=
  putU64 img.epoch.value ++ (putU32 (UInt32.ofNat img.actors.length) ++ img.actors.flatMap putActor)

def encodeBackup (img : BackupImage) : List UInt8 :=
  kMagic ++ putImage img ++ putU32 (crc32 (kMagic ++ putImage img))

def readBlob : Reader (List UInt8) := do bytes (← u32).toNat

def readSnapshot : Reader (Option SnapshotRecord) := do
  if (← u8) = 1 then
    let fence ← u64
    let throughSeq ← u64
    let record ← readBlob
    return some { fence := ⟨fence⟩, throughSeq, record }
  else return none

def readEvent : Reader EventRecord := do
  let seq ← u64
  let record ← readBlob
  return { seq, record }

def readActor : Reader ActorBackup := do
  let type ← u64
  let key ← u64
  let owner ← u64
  let lastSeq ← u64
  let snapshot ← readSnapshot
  let count ← u32
  let log ← times readEvent count.toNat
  return { id := ⟨⟨type⟩, key⟩, owner := ⟨owner⟩, lastSeq, snapshot, log }

def readImage : Reader BackupImage := do
  let epoch ← u64
  let count ← u32
  let actors ← times readActor count.toNat
  return { epoch := ⟨epoch⟩, actors }

def bad (what : String) : Result BackupImage := fail .serialization what

def decodeBackup (bs : List UInt8) : Result BackupImage :=
  if bs.length < kMagic.length + 4 ∨ bs.take kMagic.length ≠ kMagic then bad "backup: bad magic/short image"
  else if crc32 (bs.take (bs.length - 4)) ≠ getU32 (bs.drop (bs.length - 4)) then bad "backup: CRC mismatch"
  else match readImage.run ((bs.take (bs.length - 4)).drop kMagic.length) with
    | some (img, []) => (validateBackup img).map fun _ => img
    | _ => bad "backup: malformed image"

theorem reads_blob {v : List UInt8} (h : v.length < 2 ^ 32) : Reads readBlob (putBlob v) v := by
  refine (reads_u32 _).bind ?_
  rw [UInt32.toNat_ofNat_of_lt' h]
  exact reads_bytes v

theorem reads_snapshot {snap : Option SnapshotRecord} (h : ∀ s ∈ snap, s.record.length < 2 ^ 32) :
    Reads readSnapshot (putSnapshot snap) snap := by
  cases snap with
  | none =>
    have hread : Reads readSnapshot ([0] ++ []) none := (reads_u8 0).bind (reads_pure none)
    exact hread
  | some s =>
    refine (reads_u8 1).bind ?_
    rw [if_pos rfl]
    exact (reads_u64 _).bind ((reads_u64 _).bind (reads_blob (h s rfl)).map)

theorem reads_event {r : EventRecord} (h : r.record.length < 2 ^ 32) :
    Reads readEvent (putU64 r.seq ++ putBlob r.record) r := (reads_u64 _).bind (reads_blob h).map

/-- No size of the actor outgrows its 32-bit field. -/
structure ActorBackup.Small (a : ActorBackup) : Prop where
  count : a.log.length < 2 ^ 32
  events : ∀ r ∈ a.log, r.record.length < 2 ^ 32
  snapshot : ∀ s ∈ a.snapshot, s.record.length < 2 ^ 32

theorem reads_actor {a : ActorBackup} (h : a.Small) : Reads readActor (putActor a) a := by
  have hlog : Reads (times readEvent a.log.length) (putEvents a.log) a.log :=
    reads_times fun r hr => reads_event (h.events r hr)
  refine (reads_u64 _).bind ((reads_u64 _).bind ((reads_u64 _).bind ((reads_u64 _).bind
    ((reads_snapshot h.snapshot).bind ((reads_u32 _).bind ?_)))))
  rw [UInt32.toNat_ofNat_of_lt' h.count]
  exact hlog.map

theorem reads_image {img : BackupImage} (hcount : img.actors.length < 2 ^ 32) (h : ∀ a ∈ img.actors, a.Small) :
    Reads readImage (putImage img) img := by
  have hactors : Reads (times readActor img.actors.length) (img.actors.flatMap putActor) img.actors :=
    reads_times fun a ha => reads_actor (h a ha)
  refine (reads_u64 _).bind ((reads_u32 _).bind ?_)
  rw [UInt32.toNat_ofNat_of_lt' hcount]
  exact hactors.map

theorem decode_encode {img : BackupImage} (hvalid : validateBackup img = .ok ()) (hcount : img.actors.length < 2 ^ 32)
    (h : ∀ a ∈ img.actors, a.Small) : decodeBackup (encodeBackup img) = .ok img := by
  have hlen : (encodeBackup img).length - 4 = (kMagic ++ putImage img).length := by
    rw [encodeBackup, length_append, putU32_length]
    omega
  have hmagic : (encodeBackup img).take kMagic.length = kMagic := by
    rw [encodeBackup, append_assoc, take_left' rfl]
  have hbody : (encodeBackup img).take ((encodeBackup img).length - 4) = kMagic ++ putImage img := by
    rw [hlen, encodeBackup, take_left' rfl]
  have htail : getU32 ((encodeBackup img).drop ((encodeBackup img).length - 4)) = crc32 (kMagic ++ putImage img) := by
    rw [hlen, encodeBackup, drop_left' rfl, ← append_nil (putU32 _), getU32_putU32]
  have hlong : ¬ (encodeBackup img).length < kMagic.length + 4 := by
    rw [encodeBackup, length_append, length_append, putU32_length]
    omega
  unfold decodeBackup
  rw [if_neg (not_or.mpr ⟨hlong, not_not.mpr hmagic⟩), hbody, htail, if_neg (not_not.mpr rfl), drop_left' rfl,
    (reads_image hcount h).run]
  dsimp only
  rw [hvalid]
  rfl

end Quark
