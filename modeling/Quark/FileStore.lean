import Quark.Lib.Bytes
import Quark.Persistence

/-! `file_store.hpp`: one write-ahead log file per actor, replayed on first touch. A call sees
one actor only, through its file and its in-RAM entry. -/
namespace Quark

open Bytes

/-- What becomes of the one `file_pwrite` and flush of a call: both succeed, or the call is told
that they failed after `k` bytes of the frame reached the file. -/
inductive AppendFate
  | flushed
  | failed (k : Nat)
  deriving DecidableEq, Repr

/-- What the file layer does during one call. -/
structure Pal where
  opens : Bool := true
  /-- the offset at which `file_pread` reports an error, if it does -/
  readError : Option Nat := none
  truncates : Bool := true
  append : AppendFate := .flushed
  /-- `truncate_log`: the temporary is written, flushed and renamed over the log -/
  rewrites : Bool := true
  reopens : Bool := true
  deriving DecidableEq, Repr

namespace FileStore

def kFence : UInt8 := 1
def kSnapshot : UInt8 := 2
def kBatch : UInt8 := 3

def crc32Step (c : UInt32) : UInt32 :=
  if c &&& 1 = 1 then (0xEDB88320 : UInt32) ^^^ (c >>> 1) else c >>> 1

def crc32Entry (i : UInt32) : UInt32 := crc32Step^[8] i

def crc32 (data : List UInt8) : UInt32 :=
  data.foldl (fun c b => crc32Entry ((c ^^^ b.toUInt32) &&& 0xFF) ^^^ (c >>> 8)) (0xFFFFFFFF : UInt32)
    ^^^ 0xFFFFFFFF

def putBlob (v : List UInt8) : List UInt8 := putU32 (UInt32.ofNat v.length) ++ v

def putEvents (batch : List EventRecord) : List UInt8 :=
  batch.flatMap fun r => putU64 r.seq ++ putBlob r.record

def fenceBody (tok : FenceToken) : List UInt8 := kFence :: putU64 tok.value

def snapshotBody (s : SnapshotRecord) : List UInt8 :=
  kSnapshot :: (putU64 s.fence.value ++ putU64 s.throughSeq ++ putBlob s.record)

def batchBody (batch : List EventRecord) : List UInt8 :=
  kBatch :: (putU32 (UInt32.ofNat batch.length) ++ putEvents batch)

def frame (body : List UInt8) : List UInt8 :=
  putU32 (UInt32.ofNat body.length) ++ putU32 (crc32 body) ++ body

/-- The cursor over one record body: what is left of it, and whether no read ran past the end. -/
structure Reader where
  rest : List UInt8
  ok : Bool := true
  deriving DecidableEq, Repr

namespace Reader

def done (r : Reader) : Bool := r.rest.isEmpty

/-- `need(n)`: the read may go on, or `ok` is cleared. -/
def need (r : Reader) (n : Nat) : Bool × Reader :=
  if r.ok && decide (n ≤ r.rest.length) then (true, r) else (false, { r with ok := false })

def u8 (r : Reader) : UInt8 × Reader :=
  match r.need 1 with
  | (true, r) => (r.rest.headD 0, { r with rest := r.rest.drop 1 })
  | (false, r) => (0, r)

def u32 (r : Reader) : UInt32 × Reader :=
  match r.need 4 with
  | (true, r) => (getU32 r.rest, { r with rest := r.rest.drop 4 })
  | (false, r) => (0, r)

def u64 (r : Reader) : UInt64 × Reader :=
  match r.need 8 with
  | (true, r) => (getU64 r.rest, { r with rest := r.rest.drop 8 })
  | (false, r) => (0, r)

def blob (r : Reader) : List UInt8 × Reader :=
  let len := r.u32
  match len.2.need len.1.toNat with
  | (true, r) => (r.rest.take len.1.toNat, { r with rest := r.rest.drop len.1.toNat })
  | (false, r) => ([], r)

end Reader

/-- The event loop of a batch record: `none` on a sequence number that does not increase; a
read past the end leaves the loop with `ok` cleared. -/
def readEvents : Nat → Reader → SeqNo → List EventRecord → Option (Reader × SeqNo × List EventRecord)
  | 0, r, prev, evs => some (r, prev, evs)
  | count+1, r, prev, evs =>
    if !r.ok then some (r, prev, evs)
    else
      let seq := r.u64
      let record := seq.2.blob
      if !record.2.ok then some (record.2, prev, evs)
      else if seq.1 ≤ prev then none
      else readEvents count record.2 seq.1 (evs ++ [⟨seq.1, record.1⟩])

/-- `apply_record`; `none` is `false`, which leaves the entry as it was. -/
def applyRecord (e : StoreEntry) (body : List UInt8) : Option StoreEntry :=
  let kind := Reader.u8 { rest := body }
  if kind.1 = kFence then
    let tok := kind.2.u64
    if !tok.2.ok || !tok.2.done then none else some { e with owner := ⟨tok.1⟩ }
  else if kind.1 = kSnapshot then
    let fence := kind.2.u64
    let throughSeq := fence.2.u64
    let record := throughSeq.2.blob
    if !record.2.ok || !record.2.done then none
    else some { e with
      lastSeq := if e.lastSeq < throughSeq.1 then throughSeq.1 else e.lastSeq
      snapshot := some ⟨⟨fence.1⟩, throughSeq.1, record.1⟩ }
  else if kind.1 = kBatch then
    let count := kind.2.u32
    match readEvents count.1.toNat count.2 e.lastSeq [] with
    | none => none
    | some (r, prev, evs) => if !r.ok || !r.done then none else some (e.withBatch evs prev)
  else none

/-- What the replay loop has rebuilt when it stops, and where it stopped. -/
structure Replayed where
  entry : StoreEntry
  off : Nat
  corrupt : Bool := false
  deriving DecidableEq, Repr

/-- The loop of `replay`, with `rest` the bytes from `off` on. Each turn takes at least the
eight bytes of a header, so the file's length is fuel enough. -/
def replayLoop : Nat → StoreEntry → List UInt8 → Nat → Replayed
  | 0, e, _, off => { entry := e, off }
  | fuel+1, e, rest, off =>
    if rest.length < 8 then { entry := e, off }
    else
      let len := (getU32 rest).toNat
      let crc := getU32 (rest.drop 4)
      let tail := rest.drop 8
      if tail.length < len then { entry := e, off }
      else if crc32 (tail.take len) ≠ crc then { entry := e, off, corrupt := decide (len < tail.length) }
      else
        match applyRecord e (tail.take len) with
        | none => { entry := e, off, corrupt := true }
        | some e' => replayLoop fuel e' (tail.drop len) (off + 8 + len)

/-- The in-RAM entry: `fd` says whether the handle is valid. -/
structure Entry extends StoreEntry where
  fd : Bool := false
  writeOff : Nat := 0
  corrupt : Bool := false
  deriving DecidableEq, Repr

/-- One actor: its file (absent until first opened) and its loaded entry. -/
structure Slot where
  file : Option (List UInt8)
  entry : Entry
  deriving DecidableEq, Repr

def corruptError {α : Type} : Result α :=
  fail .internal ("FileStore: log is corrupt mid-file (CRC mismatch before intact records); " ++
    "refusing to serve or truncate it; restore from backup / repair offline")

/-- `read_all`: an error ends the read as the end of the file does. -/
def readAll (pal : Pal) (file : List UInt8) : List UInt8 :=
  match pal.readError with
  | none => file
  | some at_ => file.take at_

def fileTruncate (pal : Pal) (file : List UInt8) (off : Nat) : List UInt8 :=
  if pal.truncates then file.take off else file

/-- The end of `replay`, where `n` bytes were read: a corrupt file is left alone, a torn tail is cut. -/
def settle (pal : Pal) (file : List UInt8) (n : Nat) (r : Replayed) : Slot :=
  if r.corrupt then
    { file := some file
      entry := { toStoreEntry := r.entry, fd := true, writeOff := n, corrupt := true } }
  else
    { file := some (if r.off ≠ n then fileTruncate pal file r.off else file)
      entry := { toStoreEntry := r.entry, fd := true, writeOff := r.off } }

def replay (pal : Pal) (file : List UInt8) : Slot :=
  let data := readAll pal file
  settle pal file data.length (replayLoop data.length {} data 0)

/-- `entry(id)` for an actor that is not in the table: open the file and replay it. -/
def load (pal : Pal) (file : Option (List UInt8)) : Slot :=
  if pal.opens then replay pal (file.getD []) else { file, entry := {} }

namespace Slot

def bytes (s : Slot) : List UInt8 := s.file.getD []

/-- `durable_append`: write the frame at the append offset and flush. The offset moves only when
both succeed. -/
def durableAppend (pal : Pal) (s : Slot) (body : List UInt8) : Bool × Slot :=
  if !s.entry.fd then (false, s)
  else match pal.append with
    | .failed k => (false, { s with file := some (writeAt s.bytes ((frame body).take k) s.entry.writeOff) })
    | .flushed =>
      (true, { file := some (writeAt s.bytes (frame body) s.entry.writeOff)
               entry := { s.entry with writeOff := s.entry.writeOff + (frame body).length } })

def durableAppendR (pal : Pal) (s : Slot) (body : List UInt8) : Result Unit × Slot :=
  match s.durableAppend pal body with
  | (true, s) => (.ok (), s)
  | (false, s) => (fail .internal "FileStore: durable write failed", s)

def withEntry (s : Slot) (e : StoreEntry) : Slot := { s with entry := { s.entry with toStoreEntry := e } }

def acquireFence (pal : Pal) (s : Slot) : Result FenceToken × Slot :=
  if s.entry.corrupt then (corruptError, s)
  else
    let next := s.entry.nextOwner
    match s.durableAppend pal (fenceBody next) with
    | (false, s) => (fail .internal "FileStore: could not durably record the new fence owner", s)
    | (true, s) => (.ok next, s.withEntry (s.entry.toStoreEntry.withOwner next))

def saveSnapshot (pal : Pal) (s : Slot) (tok : FenceToken) (snap : SnapshotRecord) : Result Unit × Slot :=
  if s.entry.corrupt then (corruptError, s)
  else match s.entry.admitSnapshot tok snap with
    | .error err => (.error err, s)
    | .ok () =>
      match s.durableAppendR pal (snapshotBody { snap with fence := tok }) with
      | (.error err, s) => (.error err, s)
      | (.ok (), s) => (.ok (), s.withEntry (s.entry.toStoreEntry.withSnapshot { snap with fence := tok }))

def appendBatch (pal : Pal) (s : Slot) (tok : FenceToken) (batch : List EventRecord) : Result Unit × Slot :=
  if s.entry.corrupt then (corruptError, s)
  else match s.entry.admitBatch tok batch with
    | .error err => (.error err, s)
    | .ok prev =>
      match s.durableAppendR pal (batchBody batch) with
      | (.error err, s) => (.error err, s)
      | (.ok (), s) => (.ok (), s.withEntry (s.entry.toStoreEntry.withBatch batch prev))

def append (pal : Pal) (s : Slot) (tok : FenceToken) (seq : SeqNo) (bytes : List UInt8) : Result Unit × Slot :=
  s.appendBatch pal tok [⟨seq, bytes⟩]

def compacted (e : StoreEntry) (snap : SnapshotRecord) (n : Nat) : List UInt8 :=
  frame (fenceBody e.owner) ++ frame (snapshotBody snap) ++
    (if n < e.log.length then frame (batchBody (e.log.drop n)) else [])

def truncateLog (pal : Pal) (s : Slot) (tok : FenceToken) (throughSeq : SeqNo) : Result Unit × Slot :=
  if s.entry.corrupt then (corruptError, s)
  else match s.entry.admitTruncate tok throughSeq, s.entry.snapshot with
    | .error err, _ => (.error err, s)
    | .ok (), none => (.ok (), s) -- not reached: the check above asks for a snapshot
    | .ok (), some snap =>
      let n := s.entry.dropCount throughSeq
      if n = 0 then (.ok (), s)
      else if !pal.rewrites then
        (fail .internal "FileStore: compact: rewrite failed (old log intact)", s)
      else
        let out := compacted s.entry.toStoreEntry snap n
        if !pal.reopens then
          (fail .internal "FileStore: compact: reopen failed",
            { file := some out, entry := { s.entry with fd := false, corrupt := true } })
        else
          (.ok (), { file := some out
                     entry := { s.entry with
                       toStoreEntry := s.entry.toStoreEntry.eraseFront n, writeOff := out.length } })

/-- One write of the storage seam; the token `acquire_fence` returns is dropped. -/
def call (pal : Pal) (s : Slot) : StoreOp → Result Unit × Slot
  | .acquireFence => ((s.acquireFence pal).1.map fun _ => (), (s.acquireFence pal).2)
  | .saveSnapshot tok snap => s.saveSnapshot pal tok snap
  | .append tok seq bytes => s.append pal tok seq bytes
  | .appendBatch tok batch => s.appendBatch pal tok batch

end Slot

def hexDigits : Nat → Nat → List Char
  | 0, _ => []
  | n+1, v => hexDigits n (v / 16) ++ [Nat.digitChar (v % 16)]

end FileStore

structure FileStore where
  root : List Char := []
  disk : AList (fun _ : List Char => List UInt8) := ∅
  table : AList (fun _ : ActorId => FileStore.Entry) := ∅

namespace FileStore

/-- `path_for`: `"<root>/%016llx-%016llx.qwal"`. -/
def pathFor (st : FileStore) (id : ActorId) : List Char :=
  st.root ++ '/' :: (hexDigits 16 id.type.value.toNat ++
    '-' :: (hexDigits 16 id.key.toNat ++ ['.', 'q', 'w', 'a', 'l']))

/-- `entry(id)`: the loaded entry, or the outcome of opening and replaying the file. -/
def entry (pal : Pal) (st : FileStore) (id : ActorId) : Slot :=
  match st.table.lookup id with
  | some e => { file := st.disk.lookup (st.pathFor id), entry := e }
  | none => load pal (st.disk.lookup (st.pathFor id))

def put (st : FileStore) (id : ActorId) (s : Slot) : FileStore :=
  { st with
    disk := match s.file with
      | some file => st.disk.insert (st.pathFor id) file
      | none => st.disk.erase (st.pathFor id)
    table := st.table.insert id s.entry }

def call (pal : Pal) (st : FileStore) (id : ActorId) (op : StoreOp) : Result Unit × FileStore :=
  let r := (st.entry pal id).call pal op
  (r.1, st.put id r.2)

def truncateLog (pal : Pal) (st : FileStore) (id : ActorId) (tok : FenceToken) (throughSeq : SeqNo) :
    Result Unit × FileStore :=
  let r := (st.entry pal id).truncateLog pal tok throughSeq
  (r.1, st.put id r.2)

/-- A read of one actor (`last_seq`, `load_snapshot`, `read_log`, and the diagnostics) loads its
entry and changes nothing else. -/
def touch (pal : Pal) (st : FileStore) (id : ActorId) : FileStore := st.put id (st.entry pal id)

def lastSeq (pal : Pal) (st : FileStore) (id : ActorId) : SeqNo := (st.entry pal id).entry.lastSeq

def loadSnapshot (pal : Pal) (st : FileStore) (id : ActorId) : Result (Option SnapshotRecord) :=
  let e := (st.entry pal id).entry
  if e.corrupt then corruptError else .ok e.snapshot

def readLog (pal : Pal) (st : FileStore) (id : ActorId) (from_ : SeqNo) : Result (List EventRecord) :=
  let e := (st.entry pal id).entry
  if e.corrupt then corruptError else .ok (e.log.filter fun ev => from_ ≤ ev.seq)

/-- Close the store and open it again: the files stay, the table is gone. -/
def reopen (st : FileStore) : FileStore := { st with table := ∅ }

end FileStore

end Quark
