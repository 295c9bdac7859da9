import Quark.Persistence
import Quark.Lib.Reader
import Quark.Lib.Reassembly

/-! Frames on a byte stream, from `wire_codec.hpp`: the codec of a frame, and the reassembler that takes frames out of
whatever a receive delivers. -/
namespace Quark.Net

open Bytes Reader Reassembly

structure Principal where
  subject : UInt64 := 0
  rights : UInt64 := 0
  deriving DecidableEq, Repr

/-- The fields of a frame that are on the wire. -/
structure MessageFrame where
  from_ : UInt64
  to_ : UInt64
  target : ActorId
  msgType : TypeKey
  mode : UInt8
  kind : UInt8
  deadlineNs : Int64
  traceId : UInt64
  principal : Principal
  payload : List UInt8
  deriving DecidableEq

def encodeFrameBody (f : MessageFrame) : List UInt8 :=
  putU64 f.from_ ++ (putU64 f.to_ ++ (putU64 f.target.type.value ++ (putU64 f.target.key ++ (putU64 f.msgType.value ++
    ([f.mode] ++ ([f.kind] ++ (putU64 f.deadlineNs.toUInt64 ++ (putU64 f.traceId ++ (putU64 f.principal.subject ++
      (putU64 f.principal.rights ++ (putU32 (UInt32.ofNat f.payload.length) ++ f.payload)))))))))))

def encodeFrame (f : MessageFrame) : List UInt8 :=
  putU32 (UInt32.ofNat (encodeFrameBody f).length) ++ encodeFrameBody f

def readFrame : Reader MessageFrame := do
  let from_ ← u64
  let to_ ← u64
  let type ← u64
  let key ← u64
  let msgType ← u64
  let mode ← u8
  let kind ← u8
  let deadline ← u64
  let traceId ← u64
  let subject ← u64
  let rights ← u64
  let plen ← u32
  let payload ← bytes plen.toNat
  return {
    from_, to_, target := ⟨⟨type⟩, key⟩, msgType := ⟨msgType⟩, mode, kind, deadlineNs := deadline.toInt64, traceId
    principal := ⟨subject, rights⟩, payload }

/-- What stands behind the payload is not looked at. -/
def decodeFrameBody (body : List UInt8) : Option MessageFrame := (readFrame.run body).map Prod.fst

/-- How a feed ends if not well: with a protocol error, with a read behind the buffer, or not at all. -/
inductive Stop
  | protocolError
  | outOfBounds
  | endless
  deriving DecidableEq, Repr

/-- One round of the loop of `feed`; `whole` is counted in 32 bits. -/
def takeFrame (maxBody : UInt32) (bs : List UInt8) : Step UInt8 MessageFrame Stop :=
  if bs.length < 4 then .wait
  else
    let bodyLen := getU32 bs
    let whole := 4 + bodyLen
    if maxBody < bodyLen then .halt .protocolError
    else if bodyLen = 0 then .halt .protocolError
    else if bs.length < whole.toNat then .wait
    else if bs.length - 4 < bodyLen.toNat then .halt .outOfBounds
    else
      (decodeFrameBody ((bs.drop 4).take bodyLen.toNat)).elim (.halt .protocolError) fun f =>
        if whole = 0 then .halt .endless else .emit f (bs.drop whole.toNat)

section

variable {maxBody : UInt32} {bs rest : List UInt8} {f : MessageFrame}

theorem takeFrame_emit (h : takeFrame maxBody bs = .emit f rest) :
    4 ≤ bs.length ∧ getU32 bs ≤ maxBody ∧ getU32 bs ≠ 0 ∧ 4 + (getU32 bs).toNat ≤ bs.length ∧ 4 + getU32 bs ≠ 0 ∧
      (4 + getU32 bs).toNat ≤ bs.length ∧ decodeFrameBody ((bs.drop 4).take (getU32 bs).toNat) = some f ∧
      rest = bs.drop (4 + getU32 bs).toNat := by
  unfold takeFrame at h
  dsimp only at h
  split at h
  · cases h
  · split at h
    · cases h
    · split at h
      · cases h
      · split at h
        · cases h
        · split at h
          · cases h
          · next hfour hmax hzero hwhole hbody =>
            cases hdecode : decodeFrameBody ((bs.drop 4).take (getU32 bs).toNat) with
            | none =>
              rw [hdecode] at h
              cases h
            | some f' =>
              rw [hdecode, Option.elim_some] at h
              split at h
              · cases h
              · next hne =>
                cases h
                exact ⟨by omega, UInt32.not_lt.mp hmax, hzero, by omega, hne, by omega, rfl, rfl⟩

theorem takeFrame_progress (maxBody : UInt32) (bs : List UInt8) (f : MessageFrame) (rest : List UInt8)
    (h : takeFrame maxBody bs = .emit f rest) : rest.length < bs.length := by
  obtain ⟨hfour, -, -, -, hne, -, -, rfl⟩ := takeFrame_emit h
  have hpos : (4 + getU32 bs).toNat ≠ 0 := fun hz => hne (UInt32.toNat.inj hz)
  rw [List.length_drop]
  omega

end

def framer (maxBody : UInt32) : Framer UInt8 MessageFrame Stop where
  step := takeFrame maxBody
  progress := takeFrame_progress maxBody

structure FrameStream where
  maxBody : UInt32
  buf : List UInt8 := []

namespace FrameStream

def create (maxBody : UInt32) : FrameStream := { maxBody := if maxBody = 0 then 1 else maxBody }

def feed (s : FrameStream) (data : List UInt8) : List MessageFrame × Option Stop × FrameStream :=
  let r := (framer s.maxBody).drain (s.buf ++ data)
  (r.1, r.2.1, { s with buf := if r.2.1.isNone then r.2.2 else s.buf ++ data })

def feedAll (s : FrameStream) : List (List UInt8) → List MessageFrame × Option Stop
  | [] => ([], none)
  | chunk :: chunks =>
    match s.feed chunk with
    | (fs, some stop, _) => (fs, some stop)
    | (fs, none, s) => (fs ++ (s.feedAll chunks).1, (s.feedAll chunks).2)

end FrameStream

end Quark.Net
