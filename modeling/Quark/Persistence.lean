import Mathlib.Data.List.AList
import Mathlib.Data.List.Basic

/-! The storage seam of `persistence.hpp`: tokens, records, the checks every store makes,
and the reference store that keeps its table in RAM. -/
namespace Quark

/-- `errc`, in the order of `error.hpp`. -/
inductive Errc
  | ok | cancelled | validation | notFound | unavailable | overloaded | timeout | serialization
  | supervisedStop | internal | circuitOpen
  deriving DecidableEq, Repr

structure Error where
  code : Errc
  detail : String
  deriving DecidableEq, Repr

abbrev Result (α : Type) := Except Error α

instance {α : Type} [DecidableEq α] : DecidableEq (Result α) := fun a b =>
  match a, b with
  | .ok x, .ok y => decidable_of_iff (x = y) (by simp)
  | .error x, .error y => decidable_of_iff (x = y) (by simp)
  | .ok _, .error _ => isFalse (by simp)
  | .error _, .ok _ => isFalse (by simp)

def fail {α : Type} (code : Errc) (detail : String) : Result α := .error ⟨code, detail⟩

structure TypeKey where
  value : UInt64
  deriving DecidableEq, Repr

structure ActorId where
  type : TypeKey
  key : UInt64
  deriving DecidableEq, Repr

structure FenceToken where
  value : UInt64
  deriving DecidableEq, Repr

abbrev SeqNo := UInt64

structure SnapshotRecord where
  fence : FenceToken := ⟨0⟩
  throughSeq : SeqNo := 0
  record : List UInt8 := []
  deriving DecidableEq, Repr

structure EventRecord where
  seq : SeqNo
  record : List UInt8
  deriving DecidableEq, Repr

def isUnfenced (tok : FenceToken) : Bool := tok.value == 0

def fencedError {α : Type} : Result α :=
  fail .unavailable "fenced: write from a superseded (stale-token) writer"

def notIncreasing {α : Type} : Result α := fail .internal "commit sequence not strictly increasing"

/-- What a store holds for one actor. -/
structure StoreEntry where
  owner : FenceToken := ⟨0⟩
  lastSeq : SeqNo := 0
  snapshot : Option SnapshotRecord := none
  log : List EventRecord := []
  deriving DecidableEq, Repr

namespace StoreEntry

/-- `is_unfenced(tok) || tok < e.owner`: no token, or a superseded one. -/
def fencedOut (e : StoreEntry) (tok : FenceToken) : Bool :=
  isUnfenced tok || decide (tok.value < e.owner.value)

/-- The checks of `save_snapshot`, in the order both stores make them. -/
def admitSnapshot (e : StoreEntry) (tok : FenceToken) (snap : SnapshotRecord) : Result Unit :=
  if e.fencedOut tok then fencedError
  else if e.snapshot.any (fun s => snap.throughSeq < s.throughSeq) then
    fail .internal "stale snapshot: through_seq older than the stored snapshot"
  else if e.lastSeq < snap.throughSeq then
    fail .internal "snapshot through_seq ahead of the appended tail"
  else .ok ()

/-- The validation loop of `append_batch`: the last sequence number of a batch that
strictly increases from `prev`. -/
def increasingFrom (prev : SeqNo) : List EventRecord → Result SeqNo
  | [] => .ok prev
  | r :: batch => if r.seq ≤ prev then notIncreasing else increasingFrom r.seq batch

def admitBatch (e : StoreEntry) (tok : FenceToken) (batch : List EventRecord) : Result SeqNo :=
  if e.fencedOut tok then fencedError else increasingFrom e.lastSeq batch

def nextOwner (e : StoreEntry) : FenceToken := ⟨e.owner.value + 1⟩

def withOwner (e : StoreEntry) (tok : FenceToken) : StoreEntry := { e with owner := tok }

def withSnapshot (e : StoreEntry) (snap : SnapshotRecord) : StoreEntry := { e with snapshot := some snap }

def withBatch (e : StoreEntry) (batch : List EventRecord) (last : SeqNo) : StoreEntry :=
  { e with log := e.log ++ batch, lastSeq := last }

/-- The checks of `truncate_log`. -/
def admitTruncate (e : StoreEntry) (tok : FenceToken) (throughSeq : SeqNo) : Result Unit :=
  if e.fencedOut tok then fencedError
  else if e.snapshot.all (fun s => s.throughSeq < throughSeq) then
    fail .internal "truncate_log: no snapshot subsumes the requested prefix"
  else .ok ()

/-- How many events at the front of the log have `seq <= through_seq`. -/
def dropCount (e : StoreEntry) (throughSeq : SeqNo) : Nat :=
  (e.log.takeWhile fun r => r.seq ≤ throughSeq).length

def eraseFront (e : StoreEntry) (n : Nat) : StoreEntry := { e with log := e.log.drop n }

end StoreEntry

/-- The writes of the storage seam, as calls on one actor. -/
inductive StoreOp
  | acquireFence
  | saveSnapshot (tok : FenceToken) (snap : SnapshotRecord)
  | append (tok : FenceToken) (seq : SeqNo) (bytes : List UInt8)
  | appendBatch (tok : FenceToken) (batch : List EventRecord)
  deriving DecidableEq, Repr

structure InMemoryStore where
  table : AList (fun _ : ActorId => StoreEntry) := ∅

namespace InMemoryStore

def entry (st : InMemoryStore) (id : ActorId) : StoreEntry := (st.table.lookup id).getD {}

def put (st : InMemoryStore) (id : ActorId) (e : StoreEntry) : InMemoryStore :=
  { st with table := st.table.insert id e }

def acquireFence (st : InMemoryStore) (id : ActorId) : Result FenceToken × InMemoryStore :=
  let e := st.entry id
  (.ok e.nextOwner, st.put id (e.withOwner e.nextOwner))

def lastSeq (st : InMemoryStore) (id : ActorId) : SeqNo := (st.entry id).lastSeq

def loadSnapshot (st : InMemoryStore) (id : ActorId) : Result (Option SnapshotRecord) :=
  .ok (st.entry id).snapshot

def saveSnapshot (st : InMemoryStore) (id : ActorId) (tok : FenceToken) (snap : SnapshotRecord) :
    Result Unit × InMemoryStore :=
  let e := st.entry id
  match e.admitSnapshot tok snap with
  | .error err => (.error err, st.put id e)
  | .ok () => (.ok (), st.put id (e.withSnapshot { snap with fence := tok }))

def append (st : InMemoryStore) (id : ActorId) (tok : FenceToken) (seq : SeqNo) (bytes : List UInt8) :
    Result Unit × InMemoryStore :=
  let e := st.entry id
  if e.fencedOut tok then (fencedError, st.put id e)
  else if seq ≤ e.lastSeq then (notIncreasing, st.put id e)
  else (.ok (), st.put id (e.withBatch [⟨seq, bytes⟩] seq))

def appendBatch (st : InMemoryStore) (id : ActorId) (tok : FenceToken) (batch : List EventRecord) :
    Result Unit × InMemoryStore :=
  let e := st.entry id
  match e.admitBatch tok batch with
  | .error err => (.error err, st.put id e)
  | .ok prev => (.ok (), st.put id (e.withBatch batch prev))

def readLog (st : InMemoryStore) (id : ActorId) (from_ : SeqNo) : Result (List EventRecord) :=
  .ok ((st.entry id).log.filter fun ev => from_ ≤ ev.seq)

def truncateLog (st : InMemoryStore) (id : ActorId) (tok : FenceToken) (throughSeq : SeqNo) :
    Result Unit × InMemoryStore :=
  let e := st.entry id
  match e.admitTruncate tok throughSeq with
  | .error err => (.error err, st.put id e)
  | .ok () => (.ok (), st.put id (e.eraseFront (e.dropCount throughSeq)))

/-- One write of the seam; the token `acquire_fence` returns is dropped. -/
def call (st : InMemoryStore) (id : ActorId) : StoreOp → Result Unit × InMemoryStore
  | .acquireFence => ((st.acquireFence id).1.map fun _ => (), (st.acquireFence id).2)
  | .saveSnapshot tok snap => st.saveSnapshot id tok snap
  | .append tok seq bytes => st.append id tok seq bytes
  | .appendBatch tok batch => st.appendBatch id tok batch

def run (st : InMemoryStore) (calls : List (ActorId × StoreOp)) : InMemoryStore :=
  calls.foldl (fun st c => (st.call c.1 c.2).2) st

@[simp] theorem entry_put (st : InMemoryStore) (id : ActorId) (e : StoreEntry) :
    (st.put id e).entry id = e := by
  simp only [entry, put, AList.lookup_insert, Option.getD_some]

theorem entry_put_ne (st : InMemoryStore) {id other : ActorId} (e : StoreEntry) (h : other ≠ id) :
    (st.put id e).entry other = st.entry other := by
  simp only [entry, put, AList.lookup_insert_ne h]

end InMemoryStore

namespace StoreEntry

def apply (e : StoreEntry) : StoreOp → Result Unit × StoreEntry
  | .acquireFence => (.ok (), e.withOwner e.nextOwner)
  | .saveSnapshot tok snap =>
    match e.admitSnapshot tok snap with
    | .error err => (.error err, e)
    | .ok () => (.ok (), e.withSnapshot { snap with fence := tok })
  | .append tok seq bytes =>
    match e.admitBatch tok [⟨seq, bytes⟩] with
    | .error err => (.error err, e)
    | .ok prev => (.ok (), e.withBatch [⟨seq, bytes⟩] prev)
  | .appendBatch tok batch =>
    match e.admitBatch tok batch with
    | .error err => (.error err, e)
    | .ok prev => (.ok (), e.withBatch batch prev)

attribute [local simp] apply

theorem apply_error {e e' : StoreEntry} {op : StoreOp} {err : Error} (h : e.apply op = (.error err, e')) :
    e' = e := by
  cases op with
  | acquireFence => cases h
  | saveSnapshot tok snap | append tok seq bytes | appendBatch tok batch =>
    simp only [apply] at h
    split at h
    · cases h
      rfl
    · cases h

theorem apply_saveSnapshot {e e' : StoreEntry} {tok : FenceToken} {snap : SnapshotRecord}
    (h : e.apply (.saveSnapshot tok snap) = (.ok (), e')) :
    snap.throughSeq ≤ e.lastSeq ∧ e' = e.withSnapshot { snap with fence := tok } := by
  simp only [apply] at h
  split at h
  · cases h
  · next hadm =>
    cases h
    refine ⟨UInt64.not_lt.mp fun hlt => ?_, rfl⟩
    simp only [admitSnapshot, hlt, if_true, fencedError, fail] at hadm
    split at hadm
    · cases hadm
    · split at hadm <;> cases hadm

theorem admitted_batch {e e' : StoreEntry} {tok : FenceToken} {batch : List EventRecord}
    (h : e.apply (.appendBatch tok batch) = (.ok (), e')) :
    ∃ last, increasingFrom e.lastSeq batch = .ok last ∧ e' = e.withBatch batch last := by
  simp only [apply, admitBatch] at h
  split at h
  · cases h
  · next last hadm =>
    cases h
    refine ⟨last, ?_, rfl⟩
    split at hadm
    · cases hadm
    · exact hadm

theorem increasingFrom_append {xs ys : List EventRecord} {base mid last : SeqNo}
    (hx : increasingFrom base xs = .ok mid) (hy : increasingFrom mid ys = .ok last) :
    increasingFrom base (xs ++ ys) = .ok last := by
  induction xs generalizing base with
  | nil =>
    cases hx
    exact hy
  | cons r xs ih =>
    simp only [increasingFrom] at hx
    split at hx
    · cases hx
    · next hlt => simp only [List.cons_append, increasingFrom, hlt, if_false, ih hx]

theorem le_of_increasingFrom {xs : List EventRecord} {base last : SeqNo}
    (h : increasingFrom base xs = .ok last) : base ≤ last := by
  induction xs generalizing base with
  | nil =>
    cases h
    exact UInt64.le_refl _
  | cons r xs ih =>
    simp only [increasingFrom] at h
    split at h
    · cases h
    · next hlt => exact UInt64.le_trans (UInt64.le_of_lt (UInt64.not_le.mp hlt)) (ih h)

end StoreEntry

namespace InMemoryStore

theorem call_eq (st : InMemoryStore) (id : ActorId) (op : StoreOp) :
    st.call id op = (((st.entry id).apply op).1, st.put id ((st.entry id).apply op).2) := by
  cases op with
  | acquireFence => rfl
  | saveSnapshot tok snap =>
    simp only [call, saveSnapshot, StoreEntry.apply]
    cases (st.entry id).admitSnapshot tok snap with
    | error err => rfl
    | ok u => rfl
  | append tok seq bytes =>
    simp only [call, append, StoreEntry.apply, StoreEntry.admitBatch, StoreEntry.increasingFrom]
    by_cases hf : (st.entry id).fencedOut tok
    · simp only [hf, if_true, fencedError, fail]
    · by_cases hs : seq ≤ (st.entry id).lastSeq
      · simp only [hf, hs, if_true, notIncreasing, fail, Bool.false_eq_true, if_false]
      · simp only [hf, hs, if_false, Bool.false_eq_true]
  | appendBatch tok batch =>
    simp only [call, appendBatch, StoreEntry.apply]
    cases (st.entry id).admitBatch tok batch with
    | error err => rfl
    | ok prev => rfl

theorem call_entry (st : InMemoryStore) (id : ActorId) (op : StoreOp) :
    (st.call id op).2.entry id = ((st.entry id).apply op).2 := by
  rw [call_eq, entry_put]

theorem call_entry_ne (st : InMemoryStore) {id other : ActorId} (op : StoreOp) (h : other ≠ id) :
    (st.call id op).2.entry other = st.entry other := by
  rw [call_eq, entry_put_ne _ _ h]

end InMemoryStore

end Quark
