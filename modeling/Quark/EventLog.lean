import Quark.TaggedRoundTrip
import Quark.EffectivelyOnceLog

/-! The event-sourced half of persistence: the staging buffer and the commit of `event_log.hpp`, its compaction, and
recovery from the last snapshot and the tail. A store call answers, or fails without effect. -/
namespace Quark

open List Wire

/-- A store call: `fault` is the error it fails with. -/
def InMemoryStore.attempt {α : Type} (st : InMemoryStore) (fault : Option Error)
    (call : InMemoryStore → Result α × InMemoryStore) : Result α × InMemoryStore :=
  match fault with
  | some err => (.error err, st)
  | none => call st

def attemptRead {α : Type} (fault : Option Error) (answer : Result α) : Result α :=
  match fault with
  | some err => .error err
  | none => answer

/-- An older shape of a type and its upcast. -/
structure Older (d : DescribedType) where
  type : DescribedType
  upcast : type.Val → d.Val

/-- The migration chain of a type, from its oldest shape: a version of its own for each breaking change. -/
structure MigrationChain (d : DescribedType) where
  older : List (Older d) := []
  fresh : ∀ o ∈ older, o.type.schemaVersion ≠ d.schemaVersion := by simp

def readLink {α : Type} (defaults : Defaults) (d : DescribedType) (upcast : d.Val → α) (type : TypeKey)
    (body : List UInt8) : Result α :=
  if type ≠ d.fingerprint then fail .serialization "durable record type_key mismatch at its schema version"
  else (decodeTagged defaults d body (defaults d.type)).map upcast

def readFromChain {d : DescribedType} (defaults : Defaults) (type : TypeKey) (version : UInt32) (body : List UInt8) :
    List (Older d) → Result d.Val
  | [] =>
    if d.schemaVersion = version then readLink defaults d id type body
    else fail .serialization "unknown schema version (not in migration chain)"
  | o :: older =>
    if o.type.schemaVersion = version then readLink defaults o.type o.upcast type body
    else readFromChain defaults type version body older

def readMigrated {d : DescribedType} (defaults : Defaults) (chain : MigrationChain d)
    (bs : List UInt8) : Result d.Val :=
  match peekRecordHeader bs with
  | .error err => .error err
  | .ok hdr => readFromChain defaults hdr.type hdr.schemaVersion (bs.drop durableHeaderSize) chain.older

/-- An event-sourced actor: the types of its events and its state, and how one folds into the other. -/
structure EventSourced where
  id : ActorId
  event : DescribedType
  state : DescribedType
  events : MigrationChain event
  states : MigrationChain state
  defaults : Defaults
  initial : state.Val
  apply : state.Val → event.Val → state.Val

structure RecoveredSnapshot (P : EventSourced) where
  state : P.state.Val
  throughSeq : SeqNo
  fence : FenceToken

structure RecoveredState (P : EventSourced) where
  state : P.state.Val
  lastSeq : SeqNo
  fence : FenceToken

structure EventLog (P : EventSourced) where
  id : ActorId
  fence : FenceToken
  nextSeq : SeqNo
  snapSeq : SeqNo := 0
  staged : List P.event.Obj := []

variable {P : EventSourced}

namespace EventSourced

def saveSnapshot (P : EventSourced) (id : ActorId) (fence : FenceToken) (throughSeq : SeqNo) (state : P.state.Val)
    (fault : Option Error) (store : InMemoryStore) : Result Unit × InMemoryStore :=
  match Wire.encodeDurable P.state state with
  | .error err => (.error err, store)
  | .ok record => store.attempt fault fun st => st.saveSnapshot id fence { fence, throughSeq, record }

def loadSnapshotMigrated (P : EventSourced) (id : ActorId) (fault : Option Error) (store : InMemoryStore) :
    Result (Option (RecoveredSnapshot P)) :=
  match attemptRead fault (store.loadSnapshot id) with
  | .error err => .error err
  | .ok none => .ok none
  | .ok (some snap) =>
    match readMigrated P.defaults P.states snap.record with
    | .error err => .error err
    | .ok state => .ok (some { state, throughSeq := snap.throughSeq, fence := snap.fence })

def replayEach (P : EventSourced) (state : P.state.Val) (last : SeqNo) :
    List EventRecord → Result (P.state.Val × SeqNo)
  | [] => .ok (state, last)
  | r :: rest =>
    match readMigrated P.defaults P.events r.record with
    | .error err => .error err
    | .ok ev => P.replayEach (P.apply state ev) r.seq rest

def replayTail (P : EventSourced) (id : ActorId) (from_ : SeqNo) (state : P.state.Val) (fault : Option Error)
    (store : InMemoryStore) : Result (P.state.Val × SeqNo) :=
  match attemptRead fault (store.readLog id (from_ + 1)) with
  | .error err => .error err
  | .ok cur => P.replayEach state from_ cur

def recoverFrom (P : EventSourced) (id : ActorId) (snap : Option (RecoveredSnapshot P)) (fault : Option Error)
    (store : InMemoryStore) : Result (RecoveredState P) :=
  let state := (snap.map (·.state)).getD P.initial
  let from_ := (snap.map (·.throughSeq)).getD 0
  match P.replayTail id from_ state fault store with
  | .error err => .error err
  | .ok (state, lastSeq) => .ok { state, lastSeq, fence := (snap.map (·.fence)).getD ⟨0⟩ }

def recoverEventSourced (P : EventSourced) (id : ActorId) (loadFault readFault : Option Error)
    (store : InMemoryStore) : Result (RecoveredState P) :=
  match P.loadSnapshotMigrated id loadFault store with
  | .error err => .error err
  | .ok snap => P.recoverFrom id snap readFault store

end EventSourced

namespace EventLog

def create (id : ActorId) (fence : FenceToken) (nextSeq : SeqNo) : EventLog P := { id, fence, nextSeq }

def stage (log : EventLog P) (ev : P.event.Obj) : EventLog P := { log with staged := log.staged ++ [ev] }

def rollback (log : EventLog P) : EventLog P := { log with staged := [] }

def setLastSnapshotSeq (log : EventLog P) (s : SeqNo) : EventLog P := { log with snapSeq := s }

/-- `next_seq_ == 0 ? 0 : next_seq_ - 1` -/
def last (log : EventLog P) : SeqNo := if log.nextSeq = 0 then 0 else log.nextSeq - 1

def batchFrom (seq : SeqNo) : List P.event.Obj → Result (List EventRecord × SeqNo)
  | [] => .ok ([], seq)
  | ev :: rest =>
    match Wire.encodeDurable P.event ev.1 with
    | .error err => .error err
    | .ok record => (batchFrom (seq + 1) rest).map fun r => (⟨seq, record⟩ :: r.1, r.2)

def commit (log : EventLog P) (fault : Option Error) (store : InMemoryStore) :
    Result SeqNo × EventLog P × InMemoryStore :=
  if log.staged.isEmpty then (.ok log.last, log, store)
  else
    match batchFrom log.nextSeq log.staged with
    | .error err => (.error err, log, store)
    | .ok (batch, seq) =>
      match store.attempt fault fun st => st.appendBatch log.id log.fence batch with
      | (.error err, store) => (.error err, log, store)
      | (.ok (), store) => (.ok (seq - 1), { log with nextSeq := seq, staged := [] }, store)

def compactSave (log : EventLog P) (every : UInt64) (state : P.state.Val) (fault : Option Error)
    (store : InMemoryStore) : Result (Option SeqNo) × EventLog P × InMemoryStore :=
  if log.last - log.snapSeq < every then (.ok none, log, store)
  else
    match P.saveSnapshot log.id log.fence log.last state fault store with
    | (.error err, store) => (.error err, log, store)
    | (.ok (), store) => (.ok (some log.last), { log with snapSeq := log.last }, store)

def compactTruncate (log : EventLog P) (last : SeqNo) (fault : Option Error) (store : InMemoryStore) :
    Result Bool × InMemoryStore :=
  let r := store.attempt fault fun st => st.truncateLog log.id log.fence last
  (r.1.map fun _ => true, r.2)

def compactIfDue (log : EventLog P) (every : UInt64) (state : P.state.Val) (saveFault truncateFault : Option Error)
    (store : InMemoryStore) : Result Bool × EventLog P × InMemoryStore :=
  match log.compactSave every state saveFault store with
  | (.error err, log, store) => (.error err, log, store)
  | (.ok none, log, store) => (.ok false, log, store)
  | (.ok (some last), log, store) =>
    let r := log.compactTruncate last truncateFault store
    (r.1, log, r.2)

end EventLog

/-! What is read is what was written. -/

section

variable {d : DescribedType}

def Wire.DescribedType.record (d : DescribedType) (x : d.Obj) : List UInt8 :=
  durableHeader d.fingerprint d.schemaVersion ++ objectBytes d.fields x.1

theorem encodeDurable_obj (x : d.Obj) : Wire.encodeDurable d x.1 = .ok (d.record x) := encodeDurable_eq d x.1

theorem readFromChain_current {defaults : Defaults} {type : TypeKey} {body : List UInt8} {older : List (Older d)}
    (h : ∀ o ∈ older, o.type.schemaVersion ≠ d.schemaVersion) :
    readFromChain defaults type d.schemaVersion body older = readLink defaults d id type body := by
  induction older with
  | nil => exact if_pos rfl
  | cons o older ih =>
    rw [readFromChain, if_neg (h o mem_cons_self)]
    exact ih fun o ho => h o (mem_cons_of_mem _ ho)

theorem readMigrated_record {defaults : Defaults} (chain : MigrationChain d) (x : d.Obj) :
    readMigrated defaults chain (d.record x) = .ok x.1 := by
  have hsmall : (objectBytes d.fields x.1).length < 2 ^ 64 := size_object d.fields x.1 ▸ x.2
  have hheader : (durableHeader d.fingerprint d.schemaVersion).length = durableHeaderSize := by
    rw [durableHeader, length_append, Bytes.putU64_length, Bytes.putU32_length]
    rfl
  rw [readMigrated, DescribedType.record, peek_durableHeader]
  dsimp only
  rw [readFromChain_current chain.fresh, readLink, if_neg (fun hne => hne rfl), drop_left' hheader]
  exact congrArg (Except.map id) (decodeTagged_objectBytes hsmall _)

end

end Quark
