import Quark.BoundedMap
import Quark.Durable
import Quark.Lib.Machine

/-! `EffectivelyOnceLane` of `delivery.hpp`: one atomic fenced batch for each inbound message, its mirrors in memory,
and the replay that rebuilds them. -/
namespace Quark

def splitmix64 (x : UInt64) : UInt64 :=
  let x := x + 0x9E3779B97F4A7C15
  let x := (x ^^^ (x >>> 30)) * 0xBF58476D1CE4E5B9
  let x := (x ^^^ (x >>> 27)) * 0x94D049BB133111EB
  x ^^^ (x >>> 31)

def hashCombine (a b : UInt64) : UInt64 :=
  splitmix64 (a ^^^ (b + 0x9E3779B97F4A7C15 + (a <<< (6 : UInt64)) + (a >>> (2 : UInt64))))

def ActorId.hash (id : ActorId) : UInt64 := hashCombine id.type.value id.key

structure MsgKey where
  sender : UInt64
  seq : UInt64
  deriving DecidableEq, Repr

def outboundDerivationStride : UInt64 := 1048576

def deriveOutbound (selfHash : UInt64) (inbound : MsgKey) (index : UInt32) : MsgKey :=
  ⟨selfHash, inbound.seq * outboundDerivationStride + index.toUInt64 + 1⟩

structure WatermarkRecord where
  sender : UInt64
  seq : UInt64
  deriving DecidableEq, Repr

structure OutboxRecord where
  targetType : UInt64
  targetKey : UInt64
  outSender : UInt64
  outSeq : UInt64
  body : Blob
  deriving DecidableEq

structure ReplyRecord where
  replyTo : UInt64
  inSeq : UInt64
  body : Blob
  deriving DecidableEq

structure DeliveredRecord where
  outSender : UInt64
  outSeq : UInt64
  deriving DecidableEq, Repr

def emptyBlob : Blob := ⟨[], by decide⟩

instance : Described WatermarkRecord where
  salt := 0x51574D5231
  initial := ⟨0, 0⟩
  fields r := [(1, .u64 r.sender), (2, .u64 r.seq)]
  ofFields
    | [(_, .u64 sender), (_, .u64 seq)] => some ⟨sender, seq⟩
    | _ => none
  ofFields_fields _ := rfl
  sameShape _ := rfl
  distinctTags _ := by simp

instance : Described OutboxRecord where
  salt := 0x51574F5231
  initial := ⟨0, 0, 0, 0, emptyBlob⟩
  fields r := [(1, .u64 r.targetType), (2, .u64 r.targetKey), (3, .u64 r.outSender), (4, .u64 r.outSeq),
    (5, .string r.body)]
  ofFields
    | [(_, .u64 targetType), (_, .u64 targetKey), (_, .u64 outSender), (_, .u64 outSeq), (_, .string body)] =>
      some ⟨targetType, targetKey, outSender, outSeq, body⟩
    | _ => none
  ofFields_fields _ := rfl
  sameShape _ := rfl
  distinctTags _ := by simp

instance : Described ReplyRecord where
  salt := 0x5157525031
  initial := ⟨0, 0, emptyBlob⟩
  fields r := [(1, .u64 r.replyTo), (2, .u64 r.inSeq), (3, .string r.body)]
  ofFields
    | [(_, .u64 replyTo), (_, .u64 inSeq), (_, .string body)] => some ⟨replyTo, inSeq, body⟩
    | _ => none
  ofFields_fields _ := rfl
  sameShape _ := rfl
  distinctTags _ := by simp

instance : Described DeliveredRecord where
  salt := 0x5157444C31
  initial := ⟨0, 0⟩
  fields r := [(1, .u64 r.outSender), (2, .u64 r.outSeq)]
  ofFields
    | [(_, .u64 outSender), (_, .u64 outSeq)] => some ⟨outSender, outSeq⟩
    | _ => none
  ofFields_fields _ := rfl
  sameShape _ := rfl
  distinctTags _ := by simp

def internalKeys : List TypeKey :=
  [fingerprint WatermarkRecord, fingerprint OutboxRecord, fingerprint ReplyRecord, fingerprint DeliveredRecord]

theorem internalKeys_nodup : internalKeys.Nodup := by decide +kernel

/-- An event of the domain: its type key is none of the four that recovery routes for itself. -/
structure DomainEvent where
  type : TypeKey
  schemaVersion : UInt32
  body : List UInt8
  foreign : type ∉ internalKeys

def DomainEvent.encode (e : DomainEvent) : List UInt8 := durableHeader e.type e.schemaVersion ++ e.body

structure CachedReply where
  inSeq : UInt64
  body : Blob
  deriving DecidableEq

structure CommitResult where
  lastSeq : SeqNo
  recordCount : Nat
  deriving DecidableEq, Repr

structure EffectivelyOnceLane where
  self : ActorId
  fence : FenceToken
  nextSeq : SeqNo
  watermark : BoundedMap UInt64 UInt64 := {}
  replyCache : BoundedMap UInt64 CachedReply := {}
  outbox : List OutboxRecord := []

/-- What a handler stages for one inbound message. -/
structure Commit where
  inbound : MsgKey
  outIndex : UInt32 := 0
  events : List DomainEvent := []
  outbox : List OutboxRecord := []
  reply : Option ReplyRecord := none

inductive Staged
  | event (e : DomainEvent)
  | send (target : ActorId) (body : Blob)
  | reply (body : Blob)

def OutboxRecord.hasId (o : OutboxRecord) (outSender outSeq : UInt64) : Bool :=
  o.outSender == outSender && o.outSeq == outSeq

def numberFrom (seq : SeqNo) : List (List UInt8) → List EventRecord
  | [] => []
  | record :: rest => ⟨seq, record⟩ :: numberFrom (seq + 1) rest

namespace Commit

def stage (selfHash : UInt64) (c : Commit) : Staged → Commit
  | .event e => { c with events := c.events ++ [e] }
  | .send target body =>
    let oid := deriveOutbound selfHash c.inbound c.outIndex
    { c with
      outIndex := c.outIndex + 1
      outbox := c.outbox ++ [{
        targetType := target.type.value, targetKey := target.key, outSender := oid.sender, outSeq :=
        oid.seq, body }] }
  | .reply body => { c with reply := some { replyTo := c.inbound.sender, inSeq := c.inbound.seq, body } }

def records (c : Commit) : List (List UInt8) :=
  c.events.map DomainEvent.encode ++
    [encodeDurable ({ sender := c.inbound.sender, seq := c.inbound.seq } : WatermarkRecord)] ++
      c.outbox.map encodeDurable ++ c.reply.toList.map encodeDurable

end Commit

namespace EffectivelyOnceLane

/-- The constructor, and `set_limits`. -/
def create (self : ActorId) (fence : FenceToken) (nextSeq : SeqNo) : EffectivelyOnceLane := { self, fence, nextSeq }

def setLimits (lane : EffectivelyOnceLane) (watermarkCap replyCacheCap : Nat) : EffectivelyOnceLane :=
  { lane with watermark := lane.watermark.setCap watermarkCap, replyCache := lane.replyCache.setCap replyCacheCap }

def isDuplicate (lane : EffectivelyOnceLane) (m : MsgKey) : Bool :=
  match lane.watermark.find m.sender with
  | some w => m.seq ≤ w
  | none => false

def begin (lane : EffectivelyOnceLane) (inbound : MsgKey) (staged : List Staged) : Commit :=
  staged.foldl (Commit.stage lane.self.hash) { inbound }

def raise (seq w : UInt64) : UInt64 := if w < seq then seq else w

def touchWatermark (lane : EffectivelyOnceLane) (sender seq : UInt64) : EffectivelyOnceLane :=
  { lane with watermark := lane.watermark.touch sender 0 (raise seq) }

def touchReply (lane : EffectivelyOnceLane) (r : ReplyRecord) : EffectivelyOnceLane :=
  { lane with replyCache := lane.replyCache.touch r.replyTo ⟨0, emptyBlob⟩ fun _ => ⟨r.inSeq, r.body⟩ }

def mirror (lane : EffectivelyOnceLane) (c : Commit) : EffectivelyOnceLane :=
  let lane := lane.touchWatermark c.inbound.sender c.inbound.seq
  let lane := match c.reply with
    | some r => { lane with replyCache := lane.replyCache.touch c.inbound.sender ⟨0, emptyBlob⟩ fun _ =>
        ⟨r.inSeq, r.body⟩ }
    | none => lane
  { lane with outbox := lane.outbox ++ c.outbox }

def batch (lane : EffectivelyOnceLane) (c : Commit) : List EventRecord := numberFrom lane.nextSeq c.records

def commit (lane : EffectivelyOnceLane) (c : Commit) (store : InMemoryStore) :
    Result CommitResult × EffectivelyOnceLane × InMemoryStore :=
  match store.appendBatch lane.self lane.fence (lane.batch c) with
  | (.error err, store) => (.error err, lane, store)
  | (.ok (), store) =>
    let seq := lane.nextSeq + UInt64.ofNat c.records.length
    (.ok ⟨if seq = 0 then 0 else seq - 1, c.records.length⟩, { lane.mirror c with nextSeq := seq }, store)

/-- An id that is not pending is a no-op; else the first entry that has it goes. -/
def markDelivered (lane : EffectivelyOnceLane) (outSender outSeq : UInt64) (store : InMemoryStore) :
    Result Unit × EffectivelyOnceLane × InMemoryStore :=
  match lane.outbox.find? fun o => o.hasId outSender outSeq with
  | none => (.ok (), lane, store)
  | some _ =>
    match store.appendBatch lane.self lane.fence
        [⟨lane.nextSeq, encodeDurable ({ outSender, outSeq } : DeliveredRecord)⟩] with
    | (.error err, store) => (.error err, lane, store)
    | (.ok (), store) =>
      (.ok (), { lane with
        nextSeq := lane.nextSeq + 1, outbox := lane.outbox.eraseP fun o => o.hasId outSender outSeq }, store)

/-- The loop of `deliver_outbox` over the ids it has noted; `sink n` is what the sink answers to its call `n`. -/
def deliverIds (sink : Nat → OutboxRecord → Result Bool) (calls acked : Nat) (lane : EffectivelyOnceLane)
    (store : InMemoryStore) : List (UInt64 × UInt64) → Result Nat × EffectivelyOnceLane × InMemoryStore
  | [] => (.ok acked, lane, store)
  | (outSender, outSeq) :: ids =>
    match lane.outbox.find? fun o => o.hasId outSender outSeq with
    | none => deliverIds sink calls acked lane store ids
    | some rec =>
      match sink calls rec with
      | .error err => (.error err, lane, store)
      | .ok false => deliverIds sink (calls + 1) acked lane store ids
      | .ok true =>
        match lane.markDelivered outSender outSeq store with
        | (.error err, lane, store) => (.error err, lane, store)
        | (.ok (), lane, store) => deliverIds sink (calls + 1) (acked + 1) lane store ids

def deliverOutbox (lane : EffectivelyOnceLane) (sink : Nat → OutboxRecord → Result Bool) (store : InMemoryStore) :
    Result Nat × EffectivelyOnceLane × InMemoryStore :=
  deliverIds sink 0 0 lane store (lane.outbox.map fun o => (o.outSender, o.outSeq))

/-- One record of the log, routed by the type key of its header. -/
def recoverRecord (onEvent : List UInt8 → Result Unit) (lane : EffectivelyOnceLane) (record : List UInt8) :
    Result EffectivelyOnceLane :=
  match peekRecordHeader record with
  | .error err => .error err
  | .ok hdr =>
    if hdr.type = fingerprint WatermarkRecord then
      (decodeDurable WatermarkRecord record).map fun wm => lane.touchWatermark wm.sender wm.seq
    else if hdr.type = fingerprint OutboxRecord then
      (decodeDurable OutboxRecord record).map fun ob => { lane with outbox := lane.outbox ++ [ob] }
    else if hdr.type = fingerprint ReplyRecord then
      (decodeDurable ReplyRecord record).map fun rp => lane.touchReply rp
    else if hdr.type = fingerprint DeliveredRecord then
      (decodeDurable DeliveredRecord record).map fun dl =>
        { lane with outbox := lane.outbox.filter fun o => !o.hasId dl.outSender dl.outSeq }
    else (onEvent record).map fun _ => lane

def recover (onEvent : List UInt8 → Result Unit) (lane : EffectivelyOnceLane) (store : InMemoryStore) :
    Result EffectivelyOnceLane := do
  let log ← store.readLog lane.self 0
  let lane ← log.foldlM (fun lane rec => recoverRecord onEvent lane rec.record) lane
  return { lane with nextSeq := store.lastSeq lane.self + 1 }

end EffectivelyOnceLane

end Quark
