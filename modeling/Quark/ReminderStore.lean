import Mathlib.Data.List.Induction
import Quark.FileStoreReplay
import Quark.Lib.CutLog

/-! `reminder_service.hpp`, `FileReminderStore`: one log of reminder rows, framed as the event logs are,
replayed when the store is constructed. -/
namespace Quark

open List Bytes

def reminderNameHash (name : List UInt8) : UInt64 :=
  name.foldl (fun h c => (h ^^^ c.toUInt64) * 0x00000100000001B3) 0xCBF29CE484222325

structure ReminderKey where
  actor : ActorId
  nameHash : UInt64
  deriving DecidableEq, Repr

structure ReminderRow where
  actor : ActorId
  name : List UInt8 := []
  scheduledDueNs : Int64 := 0
  periodNs : Int64 := 0
  payload : List UInt8 := []
  deriving DecidableEq, Repr

def ReminderRow.key (r : ReminderRow) : ReminderKey := ⟨r.actor, reminderNameHash r.name⟩

namespace ReminderStore

def kPut : UInt8 := 1
def kRemove : UInt8 := 2
def kCheckpoint : UInt8 := 3

def crc32 (data : List UInt8) : UInt32 := FileStore.crc32 data

def putI64 (v : Int64) : List UInt8 := putU64 v.toUInt64
def getI64 (bs : List UInt8) : Int64 := (getU64 bs).toInt64

def encodeKey (k : ReminderKey) : List UInt8 :=
  putU64 k.actor.type.value ++ putU64 k.actor.key ++ putU64 k.nameHash

def encodePut (r : ReminderRow) : List UInt8 :=
  putU64 r.actor.type.value ++ putU64 r.actor.key ++ putI64 r.scheduledDueNs ++ putI64 r.periodNs ++
    putU32 (UInt32.ofNat r.name.length) ++ r.name ++
    putU32 (UInt32.ofNat r.payload.length) ++ r.payload

def decodePut (b : List UInt8) : Option ReminderRow :=
  if b.length < 8 * 4 + 4 then none
  else
    let nlen := (getU32 (b.drop 32)).toNat
    if b.length < 36 + nlen + 4 then none
    else
      let plen := (getU32 (b.drop (36 + nlen))).toNat
      if b.length < 40 + nlen + plen then none
      else some
        { actor := ⟨⟨getU64 b⟩, getU64 (b.drop 8)⟩
          name := (b.drop 36).take nlen
          scheduledDueNs := getI64 (b.drop 16)
          periodNs := getI64 (b.drop 24)
          payload := (b.drop (40 + nlen)).take plen }

def decodeKey (b : List UInt8) : Option ReminderKey :=
  if b.length < 24 then none
  else some ⟨⟨⟨getU64 b⟩, getU64 (b.drop 8)⟩, getU64 (b.drop 16)⟩

/-- `{u32 len, u32 crc32(kind||body), u8 kind, body}` -/
def frameWrite (kind : UInt8) (body : List UInt8) : List UInt8 :=
  putU32 (UInt32.ofNat (1 + body.length)) ++ putU32 (crc32 (kind :: body)) ++ kind :: body

/-- What the log says: the live rows and the last checkpoint. -/
structure Rows where
  rows : AList (fun _ : ReminderKey => ReminderRow) := ∅
  lastCheckpoint : Int64 := -1

/-- What the replay loop does with one record whose checksum is right; `none` makes the log corrupt. -/
def applyRecord (s : Rows) (kb : List UInt8) : Option Rows :=
  let kind := kb.headD 0
  let body := kb.drop 1
  if kind = kPut then
    match decodePut body with
    | none => none
    | some r => some { s with rows := s.rows.insert r.key r }
  else if kind = kRemove then
    match decodeKey body with
    | none => none
    | some k => some { s with rows := s.rows.erase k }
  else if kind = kCheckpoint then
    if body.length < 8 then none else some { s with lastCheckpoint := getI64 body }
  else none

/-- Where the replay loop stops, and what it has by then. -/
structure Replayed where
  state : Rows
  good : Nat
  corrupt : Bool := false

def replayLoop : Nat → Rows → List UInt8 → Nat → Replayed
  | 0, s, _, pos => { state := s, good := pos }
  | fuel+1, s, rest, pos =>
    if rest.length < 8 then { state := s, good := pos }
    else
      let len := (getU32 rest).toNat
      let crc := getU32 (rest.drop 4)
      let tail := rest.drop 8
      if len = 0 ∨ tail.length < len then { state := s, good := pos }
      else if crc32 (tail.take len) ≠ crc then
        { state := s, good := pos, corrupt := decide (len < tail.length) }
      else
        match applyRecord s (tail.take len) with
        | none => { state := s, good := pos, corrupt := true }
        | some s' => replayLoop fuel s' (tail.drop len) (pos + 8 + len)

end ReminderStore

/-- What the file layer does while the store is constructed. -/
structure ReminderPal where
  opens : Bool := true
  sizes : Bool := true
  reads : List CutLog.ReadResult := []
  opensAgain : Bool := true
  truncates : Bool := true
  /-- `open_append`: the open, and `file_size` behind it -/
  appends : Bool := true
  sizesAgain : Bool := true

/-- The store and its file, which is absent until the store first opens it for appending. -/
structure FileReminderStore extends ReminderStore.Rows where
  file : Option (List UInt8)
  fd : Bool := false
  writeOff : Nat := 0
  corrupt : Bool := false

namespace FileReminderStore

open ReminderStore

def corruptError {α : Type} : Result α :=
  fail .internal ("FileReminderStore: log is corrupt mid-file (bad record before intact records); " ++
    "refusing to serve, append or truncate it; restore from backup / repair offline")

/-- What the read loop of `replay` leaves in `buf`: nothing where the size is not known, and what was
read before an error. -/
def buffered (pal : ReminderPal) (file : List UInt8) : List UInt8 :=
  if pal.sizes then CutLog.readLoop pal.reads file else []

/-- The end of `replay`: a torn tail is cut off through a second handle. -/
def cutTail (pal : ReminderPal) (file : List UInt8) (n : Nat) (r : Replayed) : List UInt8 :=
  if r.corrupt then file
  else if r.good < n then
    if pal.opensAgain && pal.truncates then file.take r.good else file
  else file

def replay (pal : ReminderPal) (file : Option (List UInt8)) : FileReminderStore :=
  match file with
  | none => { file := none }
  | some bytes =>
    if !pal.opens then { file := some bytes }
    else
      let buf := buffered pal bytes
      let r := replayLoop buf.length {} buf 0
      { toRows := r.state, file := some (cutTail pal bytes buf.length r), corrupt := r.corrupt }

def openAppend (pal : ReminderPal) (st : FileReminderStore) : FileReminderStore :=
  if !pal.appends then { st with fd := false }
  else
    { st with
      file := some (st.file.getD [])
      fd := true
      writeOff := if pal.sizesAgain then (st.file.getD []).length else 0 }

def construct (pal : ReminderPal) (file : Option (List UInt8)) : FileReminderStore :=
  let st := replay pal file
  if st.corrupt then st else openAppend pal st

def bytes (st : FileReminderStore) : List UInt8 := st.file.getD []

/-- What becomes of one `durable_append`: written and flushed, with the new size read or not; or failed
with `k` bytes of the frame in the file, which the rollback then cuts off or not. -/
inductive AppendFate
  | flushed (sized : Bool)
  | failed (k : Nat) (rolledBack : Bool)
  deriving DecidableEq, Repr

def durableAppend (fate : AppendFate) (st : FileReminderStore) (kind : UInt8) (body : List UInt8) :
    Result Unit × FileReminderStore :=
  if st.corrupt then (corruptError, st)
  else if !st.fd then (fail .internal "reminder store: not open", st)
  else match fate with
    | .flushed sized =>
      let file := st.bytes ++ frameWrite kind body
      (.ok (), { st with file := some file, writeOff := if sized then file.length else st.writeOff })
    | .failed k rolledBack =>
      let file := st.bytes ++ (frameWrite kind body).take k
      let err := if k < (frameWrite kind body).length then "reminder store: write failed"
        else "reminder store: flush failed"
      if rolledBack then (fail .internal err, { st with file := some (file.take st.writeOff) })
      else (fail .internal err, { st with file := some file, fd := false })

def put (fate : AppendFate) (st : FileReminderStore) (row : ReminderRow) : Result Unit × FileReminderStore :=
  match st.durableAppend fate kPut (encodePut row) with
  | (.error err, st) => (.error err, st)
  | (.ok (), st) => (.ok (), { st with rows := st.rows.insert row.key row })

def remove (fate : AppendFate) (st : FileReminderStore) (key : ReminderKey) : Result Unit × FileReminderStore :=
  match st.durableAppend fate kRemove (encodeKey key) with
  | (.error err, st) => (.error err, st)
  | (.ok (), st) => (.ok (), { st with rows := st.rows.erase key })

def checkpoint (fate : AppendFate) (st : FileReminderStore) (bucket : Int64) : Result Unit × FileReminderStore :=
  match st.durableAppend fate kCheckpoint (putI64 bucket) with
  | (.error err, st) => (.error err, st)
  | (.ok (), st) => (.ok (), { st with lastCheckpoint := bucket })

def loadAll (st : FileReminderStore) : Result (List ReminderRow) :=
  if st.corrupt then corruptError else .ok (st.rows.entries.map fun r => r.2)

def checkpointBucket (st : FileReminderStore) : Int64 := st.lastCheckpoint

end FileReminderStore

namespace ReminderStore

/-- One record of the log: what `put`, `remove` and `checkpoint` append. -/
inductive Record
  | put (row : ReminderRow)
  | remove (key : ReminderKey)
  | checkpoint (bucket : Int64)

namespace Record

def kind : Record → UInt8
  | .put _ => kPut
  | .remove _ => kRemove
  | .checkpoint _ => kCheckpoint

def body : Record → List UInt8
  | .put row => encodePut row
  | .remove key => encodeKey key
  | .checkpoint bucket => putI64 bucket

def frame (r : Record) : List UInt8 := frameWrite r.kind r.body

def apply (s : Rows) : Record → Rows
  | .put row => { s with rows := s.rows.insert row.key row }
  | .remove key => { s with rows := s.rows.erase key }
  | .checkpoint bucket => { s with lastCheckpoint := bucket }

def Bounded (r : Record) : Prop := (r.kind :: r.body).length < 2 ^ 32

end Record

attribute [local simp] replayLoop

theorem frameWrite_eq (kind : UInt8) (body : List UInt8) : frameWrite kind body = FileStore.frame (kind :: body) := by
  rw [frameWrite, FileStore.frame, crc32, length_cons, add_comm]

theorem getI64_putI64 (v : Int64) (rest : List UInt8) : getI64 (putI64 v ++ rest) = v := by
  rw [getI64, putI64, getU64_putU64, Int64.toInt64_toUInt64]

theorem decodeKey_encodeKey (k : ReminderKey) : decodeKey (encodeKey k) = some k := by
  have hlen : ¬ (encodeKey k).length < 24 := by simp [encodeKey]
  have htype : getU64 (encodeKey k) = k.actor.type.value := by
    rw [encodeKey, append_assoc, getU64_putU64]
  have hkey : getU64 ((encodeKey k).drop 8) = k.actor.key := by
    rw [encodeKey, append_assoc, drop_left' (putU64_length _), getU64_putU64]
  have hname : getU64 ((encodeKey k).drop 16) = k.nameHash := by
    rw [encodeKey, drop_left' (by simp)]
    have hget := getU64_putU64 k.nameHash []
    rwa [append_nil] at hget
  rw [decodeKey, if_neg hlen, htype, hkey, hname]

def rowHead (r : ReminderRow) : List UInt8 :=
  putU64 r.actor.type.value ++ (putU64 r.actor.key ++ (putI64 r.scheduledDueNs ++ putI64 r.periodNs))

@[simp] theorem putI64_length (v : Int64) : (putI64 v).length = 8 := putU64_length _

@[simp] theorem rowHead_length (r : ReminderRow) : (rowHead r).length = 32 := by simp [rowHead]

theorem encodePut_eq (r : ReminderRow) :
    encodePut r = rowHead r ++ (putU32 (UInt32.ofNat r.name.length) ++
      (r.name ++ (putU32 (UInt32.ofNat r.payload.length) ++ r.payload))) := by
  simp only [encodePut, rowHead, append_assoc]

theorem rowHead_fields (r : ReminderRow) (rest : List UInt8) :
    getU64 (rowHead r ++ rest) = r.actor.type.value ∧ getU64 ((rowHead r ++ rest).drop 8) = r.actor.key ∧
      getI64 ((rowHead r ++ rest).drop 16) = r.scheduledDueNs ∧
      getI64 ((rowHead r ++ rest).drop 24) = r.periodNs := by
  simp only [rowHead, append_assoc]
  refine ⟨getU64_putU64 _ _, ?_, ?_, ?_⟩
  · rw [drop_left' (putU64_length _), getU64_putU64]
  · rw [← append_assoc (putU64 _), drop_left' (by simp), getI64_putI64]
  · rw [← append_assoc (putU64 _), ← append_assoc (putU64 _ ++ _), drop_left' (by simp),
      getI64_putI64]

theorem decodePut_encodePut {r : ReminderRow} (h : (encodePut r).length < 2 ^ 32) :
    decodePut (encodePut r) = some r := by
  rw [encodePut_eq] at h ⊢
  obtain ⟨htype, hkey, hdue, hperiod⟩ := rowHead_fields r (putU32 (UInt32.ofNat r.name.length) ++
    (r.name ++ (putU32 (UInt32.ofNat r.payload.length) ++ r.payload)))
  simp only [length_append, rowHead_length, putU32_length] at h
  have hname : (UInt32.ofNat r.name.length).toNat = r.name.length :=
    UInt32.toNat_ofNat_of_lt (lt_of_le_of_lt (by omega) h)
  have hpayload : (UInt32.ofNat r.payload.length).toNat = r.payload.length :=
    UInt32.toNat_ofNat_of_lt (lt_of_le_of_lt (by omega) h)
  generalize hn : UInt32.ofNat r.name.length = n at *
  generalize hp : UInt32.ofNat r.payload.length = p at *
  -- the four places the decoder reads at behind the head
  have h32 : (rowHead r ++ (putU32 n ++ (r.name ++ (putU32 p ++ r.payload)))).drop 32
      = putU32 n ++ (r.name ++ (putU32 p ++ r.payload)) := drop_left' (rowHead_length r)
  have h36 : (rowHead r ++ (putU32 n ++ (r.name ++ (putU32 p ++ r.payload)))).drop 36
      = r.name ++ (putU32 p ++ r.payload) := by
    rw [← append_assoc (rowHead r), drop_left' (by simp)]
  have hmid : (rowHead r ++ (putU32 n ++ (r.name ++ (putU32 p ++ r.payload)))).drop (36 + r.name.length)
      = putU32 p ++ r.payload := by
    rw [← append_assoc (rowHead r), ← append_assoc (rowHead r ++ _), drop_left' (by simp; omega)]
  have hend : (rowHead r ++ (putU32 n ++ (r.name ++ (putU32 p ++ r.payload)))).drop (40 + r.name.length)
      = r.payload := by
    rw [← append_assoc (rowHead r), ← append_assoc (rowHead r ++ _),
      ← append_assoc ((rowHead r ++ _) ++ _), drop_left' (by simp; omega)]
  have hlen : (rowHead r ++ (putU32 n ++ (r.name ++ (putU32 p ++ r.payload)))).length
      = 40 + r.name.length + r.payload.length := by
    simp only [length_append, rowHead_length, putU32_length]
    omega
  simp only [decodePut, h32, getU32_putU32, hname, h36, hmid, hpayload, hend, hlen, htype, hkey, hdue, hperiod,
    take_left' rfl, take_length]
  rw [if_neg (by omega), if_neg (by omega), if_neg (by omega)]

theorem applyRecord_record {r : Record} (h : r.Bounded) (s : Rows) :
    applyRecord s (r.kind :: r.body) = some (r.apply s) := by
  cases r with
  | put row =>
    have hrow : (encodePut row).length < 2 ^ 32 := Nat.lt_of_succ_lt h
    simp [applyRecord, Record.kind, Record.body, decodePut_encodePut hrow, Record.apply]
  | remove key => simp [applyRecord, Record.kind, Record.body, kPut, kRemove, decodeKey_encodeKey, Record.apply]
  | checkpoint bucket =>
    have hget := getI64_putI64 bucket []
    rw [append_nil] at hget
    simp [applyRecord, Record.kind, Record.body, kPut, kRemove, kCheckpoint, hget, Record.apply]

/-- Where the replay loop of the event logs stops for a torn tail, this one does. -/
theorem replayLoop_torn {tail : List UInt8} (h : FileStore.Torn tail) (fuel : Nat) (s : Rows) (pos : Nat) :
    replayLoop fuel s tail pos = { state := s, good := pos } := by
  cases fuel with
  | zero => rfl
  | succ fuel =>
    simp only [replayLoop, length_drop]
    by_cases h8 : tail.length < 8
    · rw [if_pos h8]
    · rw [if_neg h8]
      rcases h with h | ⟨hl, hcrc⟩
      · rw [if_pos (by omega)]
      · by_cases hzero : (getU32 tail).toNat = 0
        · rw [if_pos (Or.inl hzero)]
        · have htake : (tail.drop 8).take (getU32 tail).toNat = tail.drop 8 := by
            rw [take_of_length_le]
            rw [length_drop]
            omega
          rw [if_neg (by omega), htake, crc32, if_pos hcrc]
          simp only [Replayed.mk.injEq, true_and, decide_eq_false_iff_not]
          omega

theorem replayLoop_frame {kb : List UInt8} (hb : kb.length < 2 ^ 32) (hne : kb ≠ []) (fuel : Nat) (s : Rows)
    (rest : List UInt8) (pos : Nat) :
    replayLoop (fuel + 1) s (FileStore.frame kb ++ rest) pos =
      match applyRecord s kb with
      | none => { state := s, good := pos, corrupt := true }
      | some s' => replayLoop fuel s' rest (pos + (FileStore.frame kb).length) := by
  have hpos : kb.length ≠ 0 := fun h => hne (length_eq_zero_iff.mp h)
  obtain ⟨hlen, hcrc, htail, h8⟩ := FileStore.frame_fields hb rest
  rw [← ReminderStore.crc32] at hcrc
  have hfit : ¬ (kb.length = 0 ∨ (kb ++ rest).length < kb.length) := by rw [length_append]; omega
  simp only [replayLoop, h8, if_false, hlen, hcrc, htail, hfit, take_left' rfl, ne_eq, not_true_eq_false,
    drop_left' rfl, FileStore.frame_length]
  cases applyRecord s kb with
  | none => rfl
  | some s' => rw [add_assoc]

theorem le_replayLoop (fuel : Nat) (s : Rows) (bs : List UInt8) (pos : Nat) :
    pos ≤ (replayLoop fuel s bs pos).good := by
  induction fuel generalizing s bs pos with
  | zero => exact le_rfl
  | succ fuel ih =>
    simp only [replayLoop]
    split
    · exact le_rfl
    · split
      · exact le_rfl
      · split
        · exact le_rfl
        · split
          · exact le_rfl
          · next s' _ =>
            have hrest := ih s' ((bs.drop 8).drop (getU32 bs).toNat) (pos + 8 + (getU32 bs).toNat)
            omega

theorem replayLoop_good_le (fuel : Nat) (s : Rows) (bs : List UInt8) (pos : Nat) :
    (replayLoop fuel s bs pos).good ≤ pos + bs.length := by
  induction fuel generalizing s bs pos with
  | zero => exact Nat.le_add_right _ _
  | succ fuel ih =>
    simp only [replayLoop]
    split
    · exact Nat.le_add_right _ _
    · split
      · exact Nat.le_add_right _ _
      · next h8 hfit =>
        split
        · exact Nat.le_add_right _ _
        · split
          · exact Nat.le_add_right _ _
          · next s' _ =>
            have hrest := ih s' ((bs.drop 8).drop (getU32 bs).toNat) (pos + 8 + (getU32 bs).toNat)
            rw [length_drop] at hfit
            rw [length_drop, length_drop] at hrest
            omega

abbrev AckedLog := List {r : Record // r.Bounded}

namespace AckedLog

def frames (log : AckedLog) : List (List UInt8) := log.map fun r => r.1.frame

def bytes (log : AckedLog) : List UInt8 := log.frames.flatten

def rows (log : AckedLog) : Rows := log.foldl (fun s r => r.1.apply s) {}

theorem bytes_append (log more : AckedLog) : bytes (log ++ more) = log.bytes ++ more.bytes := by
  simp [bytes, AckedLog.frames]

theorem bytes_single (r : {r : Record // r.Bounded}) : bytes [r] = FileStore.frame (r.1.kind :: r.1.body) := by
  rw [← frameWrite_eq]
  exact append_nil _

end AckedLog

end ReminderStore

namespace FileReminderStore

open ReminderStore

/-- The store as it is between calls that succeeded: the log's bytes in the file, and what they say. -/
structure Holds (st : FileReminderStore) (log : AckedLog) : Prop where
  file_eq : st.file = some log.bytes
  opened : st.fd = true
  off_eq : st.writeOff = log.bytes.length
  intact : st.corrupt = false
  rows_eq : st.toRows = log.rows

theorem replayLoop_log {stale : List UInt8} (hstale : FileStore.Torn stale) (log : AckedLog) (s : Rows)
    (fuel pos : Nat)
    (hfuel : log.bytes.length ≤ fuel) : replayLoop fuel s (log.bytes ++ stale) pos =
      { state := log.foldl (fun s r => r.1.apply s) s, good := pos + log.bytes.length } := by
  induction log generalizing s fuel pos with
  | nil => exact replayLoop_torn hstale fuel s pos
  | cons r log ih =>
    rw [← singleton_append, AckedLog.bytes_append, AckedLog.bytes_single] at hfuel ⊢
    rw [length_append, FileStore.frame_length] at hfuel
    obtain ⟨fuel, rfl⟩ : ∃ more, fuel = more + 1 := ⟨fuel - 1, by omega⟩
    rw [append_assoc, replayLoop_frame r.2 (cons_ne_nil _ _), applyRecord_record r.2]
    simp only
    rw [ih _ _ _ (by omega), length_append, add_assoc, singleton_append, foldl_cons]

/-- A store that is constructed on a log of acknowledged records serves them, and cuts a torn tail off. -/
theorem construct_holds (log : AckedLog) {stale : List UInt8} (hstale : FileStore.Torn stale) :
    (construct {} (some (log.bytes ++ stale))).Holds log := by
  have hloop := replayLoop_log hstale log {} (log.bytes ++ stale).length 0 (by simp)
  rw [zero_add] at hloop
  have hcut : cutTail {} (log.bytes ++ stale) (log.bytes ++ stale).length ⟨log.rows, log.bytes.length,
      false⟩ = log.bytes := by
    cases stale <;> simp [cutTail]
  rw [← AckedLog.rows] at hloop
  have hreplay : replay {} (some (log.bytes ++ stale)) = { toRows := log.rows, file := some log.bytes } := by
    simp only [replay, Bool.not_true, Bool.false_eq_true, if_false, buffered, if_true, CutLog.readLoop, hloop, hcut]
  constructor <;> simp [construct, hreplay, openAppend]

def call (fate : AppendFate) (st : FileReminderStore) : Record → Result Unit × FileReminderStore
  | .put row => st.put fate row
  | .remove key => st.remove fate key
  | .checkpoint bucket => st.checkpoint fate bucket

/-- A call that succeeds is acknowledged with its record behind the others in the file, and leaves the rows
as replaying the record would. -/
theorem Holds.call {st : FileReminderStore} {log : AckedLog} (h : st.Holds log) (r : {r : Record // r.Bounded}) :
    (st.call (.flushed true) r.1).1 = .ok () ∧ (st.call (.flushed true) r.1).2.Holds (log ++ [r]) := by
  have hbytes : AckedLog.bytes (log ++ [r]) = log.bytes ++ frameWrite r.1.kind r.1.body := by
    simp [AckedLog.bytes, AckedLog.frames, Record.frame]
  have hrows : AckedLog.rows (log ++ [r]) = r.1.apply st.toRows := by
    rw [h.rows_eq, AckedLog.rows, foldl_append]
    rfl
  have happend : st.durableAppend (.flushed true) r.1.kind r.1.body =
      (.ok (), { st with file := some (AckedLog.bytes (log ++ [r])),
                         writeOff := (AckedLog.bytes (log ++ [r])).length }) := by
    simp [durableAppend, h.intact, h.opened, bytes, h.file_eq, hbytes]
  obtain ⟨r, hb⟩ := r
  cases r with
  | put row =>
    simp only [Record.kind, Record.body] at happend
    simp only [FileReminderStore.call, put, happend]
    exact ⟨trivial, rfl, h.opened, rfl, h.intact, hrows.symm⟩
  | remove key =>
    simp only [Record.kind, Record.body] at happend
    simp only [FileReminderStore.call, remove, happend]
    exact ⟨trivial, rfl, h.opened, rfl, h.intact, hrows.symm⟩
  | checkpoint bucket =>
    simp only [Record.kind, Record.body] at happend
    simp only [FileReminderStore.call, checkpoint, happend]
    exact ⟨trivial, rfl, h.opened, rfl, h.intact, hrows.symm⟩

/-- A call and what becomes of its append, or the store is constructed again. When the process dies inside an append,
it is a failed one that is not rolled back, and then a `reopen`. -/
inductive Event
  | call (fate : AppendFate) (r : {r : Record // r.Bounded})
  | reopen

def step (s : FileReminderStore × AckedLog) : Event → FileReminderStore × AckedLog
  | .call fate r => ((s.1.call fate r.1).2, if (s.1.call fate r.1).1.isOk then s.2 ++ [r] else s.2)
  | .reopen => (construct {} (some s.1.bytes), s.2)

def run (events : List Event) : FileReminderStore × AckedLog := events.foldl step (construct {} none, [])

def tried (events : List Event) : AckedLog := events.flatMap fun | .call _ r => [r] | .reopen => []

/-- The file says `log`, and so does an open store. -/
structure Keeps (st : FileReminderStore) (log : AckedLog) : Prop where
  reopened : (construct {} (some st.bytes)).Holds log
  live : st.fd = true → st.Holds log

theorem Holds.keeps {st : FileReminderStore} {log : AckedLog} (h : st.Holds log) : st.Keeps log := by
  have hfile : log.bytes ++ [] = st.bytes := by rw [bytes, h.file_eq, Option.getD_some, append_nil]
  exact ⟨hfile ▸ construct_holds log .nil, fun _ => h⟩

theorem call_failed {st st' : FileReminderStore} {fate : AppendFate} {r : Record} {err : Error}
    (h : st.durableAppend fate r.kind r.body = (.error err, st')) : st.call fate r = (.error err, st') := by
  cases r <;> simp only [Record.kind, Record.body] at h <;> simp only [FileReminderStore.call, put,
    remove, checkpoint, h]

/-- What a failed append leaves of its frame is a torn tail, or the record. -/
theorem construct_part (log : AckedLog) (r : {r : Record // r.Bounded}) (k : Nat) :
    ∃ log', (construct {} (some (log.bytes ++ r.1.frame.take k))).Holds log' ∧ log <+ log' ∧ log' <+ log ++ [r] := by
  rw [Record.frame, frameWrite_eq]
  by_cases hk : k < (FileStore.frame (r.1.kind :: r.1.body)).length
  · exact ⟨log, construct_holds log (.take_frame r.2 hk), .refl _, sublist_append_left _ _⟩
  · refine ⟨log ++ [r], ?_, sublist_append_left _ _, .refl _⟩
    rw [take_of_length_le (by omega), ← AckedLog.bytes_single, ← AckedLog.bytes_append,
      ← append_nil (AckedLog.bytes _)]
    exact construct_holds _ .nil

theorem step_keeps {s : FileReminderStore × AckedLog} {log : AckedLog} {ev : Event} (h : s.1.Keeps log)
    (hacked : s.2 <+ log)
    (hsized : ∀ r, ev ≠ .call (.flushed false) r) :
    ∃ log', (step s ev).1.Keeps log' ∧ (step s ev).2 <+ log' ∧ log' <+ log ++ tried [ev] := by
  cases ev with
  | reopen => exact ⟨log, h.reopened.keeps, hacked, sublist_append_left _ _⟩
  | call fate r =>
    cases hfd : s.1.fd with
    | false =>
      obtain ⟨err, happend⟩ : ∃ err, s.1.durableAppend fate r.1.kind r.1.body = (.error err, s.1) := by
        cases hcorrupt : s.1.corrupt <;> exact ⟨_, by simp only [durableAppend, hcorrupt, hfd]; rfl⟩
      rw [step, call_failed happend]
      exact ⟨log, h, hacked, sublist_append_left _ _⟩
    | true =>
      have hholds := h.live hfd
      cases fate with
      | flushed sized =>
        cases sized with
        | false => exact absurd rfl (hsized r)
        | true =>
          obtain ⟨hok, hnext⟩ := hholds.call r
          simp only [step, hok]
          exact ⟨log ++ [r], hnext.keeps, hacked.append (.refl _), .refl _⟩
      | failed k rolledBack =>
        obtain ⟨err, happend⟩ : ∃ err, s.1.durableAppend (.failed k rolledBack) r.1.kind r.1.body = (.error err,
            if rolledBack then { s.1 with file := some log.bytes }
            else { s.1 with file := some (log.bytes ++ r.1.frame.take k), fd := false }) := by
          cases rolledBack <;>
            simp [durableAppend, hholds.intact, hfd, bytes, hholds.file_eq, hholds.off_eq, fail, Record.frame]
        rw [step, call_failed happend]
        cases rolledBack with
        | true =>
          have hback : Holds { s.1 with file := some log.bytes } log :=
            ⟨rfl, hfd, hholds.off_eq, hholds.intact, hholds.rows_eq⟩
          exact ⟨log, hback.keeps, hacked, sublist_append_left _ _⟩
        | false =>
          obtain ⟨log', hpart, hgrow, hless⟩ := construct_part log r k
          exact ⟨log', ⟨hpart, fun hon => by cases hon⟩, hacked.trans hgrow, hless⟩

/-- In every run in which the size is read back behind each flushed append, a store that is constructed on the file
serves all the records that were acknowledged, in their order, and none that no call made; so does an open store. -/
theorem reopened_holds_acked (events : List Event) (hsized : ∀ r, Event.call (.flushed false) r ∉ events) :
    ∃ log : AckedLog, (run events).1.Keeps log ∧ (run events).2 <+ log ∧ log <+ tried events := by
  induction events using reverseRecOn with
  | nil =>
    have hstart : (construct {} none).Holds [] := ⟨rfl, rfl, rfl, rfl, rfl⟩
    exact ⟨[], hstart.keeps, .refl _, .refl _⟩
  | append_singleton events ev ih =>
    obtain ⟨log, hkeeps, hacked, htried⟩ := ih fun r hr => hsized r (mem_append_left _ hr)
    obtain ⟨log', hnext, hacked', hmore⟩ := step_keeps hkeeps hacked fun r heq =>
      hsized r (heq ▸ mem_append_right _ mem_cons_self)
    rw [run, foldl_append, tried, flatMap_append]
    exact ⟨log', hnext, hacked', hmore.trans (htried.append (.refl _))⟩

theorem reopened_holds_acked_torn : ∃ events, (∃ r, Event.call (.failed 5 false) r ∈ events) ∧
    ∃ log : AckedLog, (run events).1.Keeps log ∧ (run events).2 <+ log ∧ log <+ tried events :=
  ⟨[.call (.flushed true) ⟨.checkpoint 1, by simp [Record.Bounded, Record.body]⟩,
      .call (.failed 5 false) ⟨.checkpoint 2, by simp [Record.Bounded, Record.body]⟩, .reopen],
    ⟨_, mem_cons_of_mem _ mem_cons_self⟩, reopened_holds_acked _ (by simp)⟩

end FileReminderStore

end Quark
