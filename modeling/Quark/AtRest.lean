import Mathlib.Data.List.Forall2
import Mathlib.Data.Option.Basic
import Quark.PeerSession

/-! Envelope encryption of durable records (`at_rest.hpp`): every record sealed at its position, and the store
that seals what it writes and opens what it reads. -/
namespace Quark

open List Bytes

/-- An `Aead` whose `open` gives back what `seal` sealed, and refuses what has no room for a tag. -/
structure DataKey extends Secure.Aead where
  open_seal : ∀ nonce aad plaintext, open_ nonce aad (seal_ nonce aad plaintext) = some plaintext
  open_empty : ∀ nonce aad, open_ nonce aad [] = none

inductive AtRestKind
  | snapshot | event
  deriving DecidableEq, Repr

def AtRestKind.code : AtRestKind → UInt64
  | .snapshot => 1
  | .event => 2

structure AtRestContext where
  actor : ActorId
  kind : AtRestKind
  seq : SeqNo
  fence : FenceToken
  deriving DecidableEq, Repr

def atRestAad (ctx : AtRestContext) : List UInt8 :=
  [ctx.actor.type.value, ctx.actor.key, ctx.kind.code, ctx.seq, ctx.fence.value].flatMap putU64

/-- One call of `seal_into`: the random nonce, and whether the backend fails closed. -/
structure Draw where
  nonce : UInt64
  fails : Bool := false
  deriving DecidableEq, Repr

/-- What `seal_into` writes; nothing where it returns 0. -/
def sealInto (cipher : DataKey) (d : Draw) (aad plaintext : List UInt8) : List UInt8 :=
  if d.fails then [] else cipher.seal_ d.nonce aad plaintext

/-- `[nonce:8][ciphertext||tag]`; the prefix alone where the backend failed. -/
def sealAtRest (cipher : DataKey) (ctx : AtRestContext) (d : Draw) (canonical : List UInt8) : List UInt8 :=
  putU64 d.nonce ++ sealInto cipher d (atRestAad ctx) canonical

def openAtRest (cipher : DataKey) (ctx : AtRestContext) (sealed_ : List UInt8) : Result (List UInt8) :=
  if sealed_.length < 8 then fail .serialization "at-rest record too short (missing nonce prefix)"
  else
    match cipher.open_ (getU64 sealed_) (atRestAad ctx) (sealed_.drop 8) with
    | none => fail .serialization "at-rest AEAD open failed (tamper / wrong actor/seq/fence / wrong key)"
    | some out => .ok out

def snapshotContext (id : ActorId) (throughSeq : SeqNo) (fence : FenceToken) : AtRestContext :=
  ⟨id, .snapshot, throughSeq, fence⟩

def eventContext (id : ActorId) (seq : SeqNo) : AtRestContext := ⟨id, .event, seq, ⟨0⟩⟩

/-- The decorator over the store in RAM. -/
structure EncryptedStore where
  inner : InMemoryStore := {}

namespace EncryptedStore

variable (keys : ActorId → DataKey) (st : EncryptedStore) (id : ActorId)

def acquireFence : Result FenceToken × EncryptedStore :=
  let r := st.inner.acquireFence id
  (r.1, ⟨r.2⟩)

def lastSeq : SeqNo := st.inner.lastSeq id

def openSnapshot (snap : SnapshotRecord) : Result SnapshotRecord :=
  (openAtRest (keys id) (snapshotContext id snap.throughSeq snap.fence) snap.record).map fun opened =>
    { snap with record := opened }

def loadSnapshot : Result (Option SnapshotRecord) :=
  match st.inner.loadSnapshot id with
  | .error err => .error err
  | .ok none => .ok none
  | .ok (some snap) => (openSnapshot keys id snap).map some

def sealSnapshot (tok : FenceToken) (snap : SnapshotRecord) (d : Draw) : SnapshotRecord :=
  { snap with
    fence := tok
    record := sealAtRest (keys id) (snapshotContext id snap.throughSeq tok) d snap.record }

def saveSnapshot (tok : FenceToken) (snap : SnapshotRecord) (d : Draw) : Result Unit × EncryptedStore :=
  let r := st.inner.saveSnapshot id tok (sealSnapshot keys id tok snap d)
  (r.1, ⟨r.2⟩)

def append (tok : FenceToken) (seq : SeqNo) (bytes : List UInt8) (d : Draw) : Result Unit × EncryptedStore :=
  let r := st.inner.append id tok seq (sealAtRest (keys id) (eventContext id seq) d bytes)
  (r.1, ⟨r.2⟩)

def sealEvent (r : EventRecord × Draw) : EventRecord :=
  ⟨r.1.seq, sealAtRest (keys id) (eventContext id r.1.seq) r.2 r.1.record⟩

def appendBatch (tok : FenceToken) (batch : List (EventRecord × Draw)) : Result Unit × EncryptedStore :=
  let r := st.inner.appendBatch id tok (batch.map (sealEvent keys id))
  (r.1, ⟨r.2⟩)

def openLog : List EventRecord → Result (List EventRecord)
  | [] => .ok []
  | r :: entries =>
    match openAtRest (keys id) (eventContext id r.seq) r.record with
    | .error err => .error err
    | .ok opened => (openLog entries).map (⟨r.seq, opened⟩ :: ·)

def readLog (from_ : SeqNo) : Result (List EventRecord) :=
  match st.inner.readLog id from_ with
  | .error err => .error err
  | .ok entries => openLog keys id entries

end EncryptedStore

/-- A call on one actor; every record that is written has its own call of `seal_into`. -/
inductive AtRestCall
  | acquireFence
  | saveSnapshot (tok : FenceToken) (snap : SnapshotRecord) (d : Draw)
  | append (tok : FenceToken) (seq : SeqNo) (bytes : List UInt8) (d : Draw)
  | appendBatch (tok : FenceToken) (batch : List (EventRecord × Draw))
  | loadSnapshot
  | readLog (from_ : SeqNo)
  | lastSeq
  deriving DecidableEq, Repr

inductive AtRestAnswer
  | token (r : Result FenceToken)
  | done (r : Result Unit)
  | snapshot (r : Result (Option SnapshotRecord))
  | log (r : Result (List EventRecord))
  | seq (s : SeqNo)
  deriving DecidableEq

def AtRestAnswer.acknowledged : AtRestAnswer → Bool
  | .token r => r.isOk
  | .done r => r.isOk
  | _ => true

def EncryptedStore.call (keys : ActorId → DataKey) (st : EncryptedStore) (id : ActorId) :
    AtRestCall → AtRestAnswer × EncryptedStore
  | .acquireFence => (.token (st.acquireFence id).1, (st.acquireFence id).2)
  | .saveSnapshot tok snap d => (.done (st.saveSnapshot keys id tok snap d).1, (st.saveSnapshot keys id tok snap d).2)
  | .append tok seq bytes d => (.done (st.append keys id tok seq bytes d).1, (st.append keys id tok seq bytes d).2)
  | .appendBatch tok batch => (.done (st.appendBatch keys id tok batch).1, (st.appendBatch keys id tok batch).2)
  | .loadSnapshot => (.snapshot (st.loadSnapshot keys id), st)
  | .readLog from_ => (.log (st.readLog keys id from_), st)
  | .lastSeq => (.seq (st.lastSeq id), st)

def InMemoryStore.atRestCall (st : InMemoryStore) (id : ActorId) : AtRestCall → AtRestAnswer × InMemoryStore
  | .acquireFence => (.token (st.acquireFence id).1, (st.acquireFence id).2)
  | .saveSnapshot tok snap _ => (.done (st.saveSnapshot id tok snap).1, (st.saveSnapshot id tok snap).2)
  | .append tok seq bytes _ => (.done (st.append id tok seq bytes).1, (st.append id tok seq bytes).2)
  | .appendBatch tok batch =>
    (.done (st.appendBatch id tok (batch.map Prod.fst)).1, (st.appendBatch id tok (batch.map Prod.fst)).2)
  | .loadSnapshot => (.snapshot (st.loadSnapshot id), st)
  | .readLog from_ => (.log (st.readLog id from_), st)
  | .lastSeq => (.seq (st.lastSeq id), st)

/-- The decorator, and a plain store that runs what the decorator acknowledges. -/
structure Beside where
  store : EncryptedStore := {}
  plain : InMemoryStore := {}

namespace Beside

variable (keys : ActorId → DataKey)

def step (s : Beside) (c : ActorId × AtRestCall) : Beside where
  store := (s.store.call keys c.1 c.2).2
  plain := if (s.store.call keys c.1 c.2).1.acknowledged then (s.plain.atRestCall c.1 c.2).2 else s.plain

def run (calls : List (ActorId × AtRestCall)) : Beside := calls.foldl (step keys) {}

def Agree (s : Beside) : Prop := ∀ id c, (s.store.call keys id c).1 = (s.plain.atRestCall id c).1

end Beside

def EncryptedStore.Seals (st : EncryptedStore) (id : ActorId) : AtRestCall → Prop
  | .saveSnapshot tok snap d => (st.inner.entry id).admitSnapshot tok snap = .ok () → d.fails = false
  | .append tok seq bytes d => ((st.inner.entry id).admitBatch tok [⟨seq, bytes⟩]).isOk = true → d.fails = false
  | .appendBatch tok batch =>
    ((st.inner.entry id).admitBatch tok (batch.map Prod.fst)).isOk = true → ∀ r ∈ batch, r.2.fails = false
  | _ => True


section

variable {cipher : DataKey} {ctx : AtRestContext} {d : Draw} {bytes : List UInt8}
  {keys : ActorId → DataKey} {id : ActorId}
  {e p : StoreEntry} {tok : FenceToken} {snap snap' : SnapshotRecord} {xs ys : List EventRecord}
  {batch : List (EventRecord × Draw)} {from_ : SeqNo}

theorem openAtRest_prefix (cipher : DataKey) (ctx : AtRestContext) (nonce : UInt64) (body : List UInt8) :
    openAtRest cipher ctx (putU64 nonce ++ body) =
      match cipher.open_ nonce (atRestAad ctx) body with
      | none => fail .serialization "at-rest AEAD open failed (tamper / wrong actor/seq/fence / wrong key)"
      | some out => .ok out := by
  have hlong : ¬(putU64 nonce ++ body).length < 8 := by
    rw [length_append, putU64_length]
    omega
  have hbody : (putU64 nonce ++ body).drop 8 = body := drop_left' (putU64_length nonce)
  rw [openAtRest, if_neg hlong, getU64_putU64, hbody]

theorem open_sealed (h : d.fails = false) : openAtRest cipher ctx (sealAtRest cipher ctx d bytes) = .ok bytes := by
  rw [sealAtRest, openAtRest_prefix, sealInto, h, if_neg Bool.false_ne_true, cipher.open_seal]

theorem open_blank (h : d.fails = true) : ∃ err, openAtRest cipher ctx
    (sealAtRest cipher ctx d bytes) = .error err := by
  rw [sealAtRest, openAtRest_prefix, sealInto, h, if_pos rfl, cipher.open_empty]
  exact ⟨_, rfl⟩

def OpensTo (keys : ActorId → DataKey) (id : ActorId) (r q : EventRecord) : Prop :=
  r.seq = q.seq ∧ openAtRest (keys id) (eventContext id r.seq) r.record = .ok q.record

/-- The entry of the decorator's store, against that of the plain one. -/
structure Unsealed (keys : ActorId → DataKey) (id : ActorId) (e p : StoreEntry) : Prop where
  owner : e.owner = p.owner
  lastSeq : e.lastSeq = p.lastSeq
  snapshot : Option.Rel (fun s t => EncryptedStore.openSnapshot keys id s = .ok t) e.snapshot p.snapshot
  log : List.Forall₂ (OpensTo keys id) e.log p.log

namespace EncryptedStore

theorem openSnapshot_throughSeq (h : openSnapshot keys id snap = .ok snap') : snap.throughSeq = snap'.throughSeq := by
  rw [openSnapshot] at h
  cases hopen : openAtRest (keys id) (snapshotContext id snap.throughSeq snap.fence) snap.record with
  | error err =>
    rw [hopen] at h
    cases h
  | ok opened =>
    rw [hopen] at h
    cases h
    rfl

theorem openSnapshot_sealed (h : d.fails = false) :
    openSnapshot keys id (sealSnapshot keys id tok snap d) = .ok { snap with fence := tok } := by
  rw [openSnapshot, sealSnapshot, open_sealed h]
  rfl

theorem openSnapshot_blank (h : d.fails = true) : ∃ err, openSnapshot keys id
    (sealSnapshot keys id tok snap d) = .error err := by
  obtain ⟨err, hopen⟩ : ∃ err, openAtRest (keys id) (snapshotContext id snap.throughSeq tok)
      (sealAtRest (keys id) (snapshotContext id snap.throughSeq tok) d snap.record) = .error err := open_blank h
  refine ⟨err, ?_⟩
  rw [openSnapshot, sealSnapshot, hopen]
  rfl

theorem openLog_opens (h : List.Forall₂ (OpensTo keys id) xs ys) : openLog keys id xs = .ok ys := by
  induction h with
  | nil => rfl
  | cons hhead _ ih =>
    rw [openLog, hhead.2, ih, hhead.1]
    rfl

/-- One record that does not open makes every read that covers it fail. -/
theorem openLog_blank {r : EventRecord} {err : Error} (hmem : r ∈ xs)
    (hopen : openAtRest (keys id) (eventContext id r.seq) r.record = .error err) :
    ∃ err, openLog keys id xs = .error err := by
  induction xs with
  | nil => cases hmem
  | cons x xs ih =>
    rw [openLog]
    cases hhead : openAtRest (keys id) (eventContext id x.seq) x.record with
    | error err => exact ⟨err, rfl⟩
    | ok opened =>
      rcases mem_cons.mp hmem with rfl | htail
      · rw [hopen] at hhead
        cases hhead
      · obtain ⟨err, htail⟩ := ih htail
        rw [htail]
        exact ⟨err, rfl⟩

theorem sealEvent_opens (h : ∀ r ∈ batch, r.2.fails = false) :
    List.Forall₂ (OpensTo keys id) (batch.map (sealEvent keys id)) (batch.map Prod.fst) := by
  rw [forall₂_map_left_iff, forall₂_map_right_iff, forall₂_same]
  exact fun r hr => ⟨rfl, open_sealed (h r hr)⟩

theorem sealEvent_seqs : (batch.map (sealEvent keys id)).map EventRecord.seq =
    (batch.map Prod.fst).map EventRecord.seq := by
  rw [map_map, map_map]
  rfl

end EncryptedStore

theorem StoreEntry.increasingFrom_congr {base : SeqNo} (h : xs.map EventRecord.seq = ys.map EventRecord.seq) :
    increasingFrom base xs = increasingFrom base ys := by
  induction xs generalizing base ys with
  | nil => rw [map_eq_nil_iff.mp h.symm]
  | cons x xs ih =>
    cases ys with
    | nil => cases h
    | cons y ys =>
      obtain ⟨hhead, htail⟩ := List.cons.inj h
      rw [increasingFrom, increasingFrom, hhead, ih htail]

namespace Unsealed

theorem fencedOut (h : Unsealed keys id e p) : e.fencedOut tok = p.fencedOut tok := by
  rw [StoreEntry.fencedOut, StoreEntry.fencedOut, h.owner]

theorem admitSnapshot (h : Unsealed keys id e p) (hseq : snap.throughSeq = snap'.throughSeq) :
    e.admitSnapshot tok snap = p.admitSnapshot tok snap' := by
  have hstale : e.snapshot.any (fun s => snap.throughSeq < s.throughSeq) =
      p.snapshot.any (fun s => snap'.throughSeq < s.throughSeq) := by
    have hopens := h.snapshot
    generalize e.snapshot = s, p.snapshot = t at hopens
    rw [hseq]
    cases hopens with
    | some hopen => rw [Option.any_some, Option.any_some, EncryptedStore.openSnapshot_throughSeq hopen]
    | none => rfl
  rw [StoreEntry.admitSnapshot, StoreEntry.admitSnapshot, h.fencedOut, hstale, h.lastSeq, hseq]

theorem admitBatch (h : Unsealed keys id e p) (hseqs : xs.map EventRecord.seq = ys.map EventRecord.seq) :
    e.admitBatch tok xs = p.admitBatch tok ys := by
  rw [StoreEntry.admitBatch, StoreEntry.admitBatch, h.fencedOut, h.lastSeq, StoreEntry.increasingFrom_congr hseqs]

theorem withBatch (h : Unsealed keys id e p) (hopens : List.Forall₂ (OpensTo keys id) xs ys) (last : SeqNo) :
    Unsealed keys id (e.withBatch xs last) (p.withBatch ys last) where
  owner := h.owner
  lastSeq := rfl
  snapshot := h.snapshot
  log := rel_append h.log hopens

theorem readLog (h : Unsealed keys id e p) :
    List.Forall₂ (OpensTo keys id) (e.log.filter fun ev => from_ ≤ ev.seq) (p.log.filter fun ev => from_ ≤ ev.seq) :=
  rel_filter (fun _ _ hopens => by simp only [hopens.1]) h.log

end Unsealed

namespace InMemoryStore

variable {st : InMemoryStore} {seq : SeqNo}

theorem append_eq : st.append id tok seq bytes = st.appendBatch id tok [⟨seq, bytes⟩] := by
  rw [show st.append id tok seq bytes = st.call id (.append tok seq bytes) from rfl,
    show st.appendBatch id tok [⟨seq, bytes⟩] = st.call id (.appendBatch tok [⟨seq, bytes⟩]) from rfl,
    call_eq, call_eq]
  rfl

theorem saveSnapshot_answer : (st.saveSnapshot id tok snap).1 = (st.entry id).admitSnapshot tok snap := by
  rw [saveSnapshot]
  split
  · next hallowed => exact hallowed.symm
  · next hallowed => exact hallowed.symm

theorem appendBatch_answer : (st.appendBatch id tok xs).1 = ((st.entry id).admitBatch tok xs).map fun _ => () := by
  rw [appendBatch]
  split
  · next hallowed =>
    rw [hallowed]
    rfl
  · next hallowed =>
    rw [hallowed]
    rfl

end InMemoryStore

namespace EncryptedStore

variable {st : EncryptedStore} {seq : SeqNo}

theorem call_append : st.call keys id (.append tok seq bytes d) = st.call keys id
    (.appendBatch tok [(⟨seq, bytes⟩, d)]) := by
  rw [call, call, append, appendBatch, InMemoryStore.append_eq]
  rfl

end EncryptedStore

theorem InMemoryStore.atRestCall_append {st : InMemoryStore} {seq : SeqNo} :
    st.atRestCall id (.append tok seq bytes d) = st.atRestCall id (.appendBatch tok [(⟨seq, bytes⟩, d)]) := by
  rw [atRestCall, atRestCall, append_eq]
  rfl

namespace Beside

variable {s : Beside} {c : AtRestCall}

def Mirror (keys : ActorId → DataKey) (s : Beside) : Prop :=
  ∀ id, Unsealed keys id (s.store.inner.entry id) (s.plain.entry id)

theorem Mirror.agree (h : Mirror keys s) : s.Agree keys := by
  intro id c
  have hid := h id
  have hbatch : ∀ tok batch, (s.store.call keys id (.appendBatch tok batch)).1 =
      (s.plain.atRestCall id (.appendBatch tok batch)).1 := by
    intro tok batch
    change AtRestAnswer.done (s.store.inner.appendBatch id tok _).1 =
      AtRestAnswer.done (s.plain.appendBatch id tok _).1
    rw [InMemoryStore.appendBatch_answer, InMemoryStore.appendBatch_answer,
      hid.admitBatch EncryptedStore.sealEvent_seqs]
  cases c with
  | acquireFence => exact congrArg (fun owner => AtRestAnswer.token (.ok ⟨owner.value + 1⟩)) hid.owner
  | saveSnapshot tok snap d =>
    change AtRestAnswer.done (s.store.inner.saveSnapshot id tok _).1 =
      AtRestAnswer.done (s.plain.saveSnapshot id tok _).1
    rw [InMemoryStore.saveSnapshot_answer, InMemoryStore.saveSnapshot_answer]
    exact congrArg AtRestAnswer.done (hid.admitSnapshot rfl)
  | append tok seq bytes d =>
    rw [EncryptedStore.call_append, InMemoryStore.atRestCall_append]
    exact hbatch tok _
  | appendBatch tok batch => exact hbatch tok batch
  | loadSnapshot =>
    refine congrArg AtRestAnswer.snapshot ?_
    have hopens := hid.snapshot
    rw [EncryptedStore.loadSnapshot, InMemoryStore.loadSnapshot, InMemoryStore.loadSnapshot]
    generalize (s.store.inner.entry id).snapshot = mine, (s.plain.entry id).snapshot = theirs at hopens
    cases hopens with
    | some hopen => exact congrArg (Except.map some) hopen
    | none => rfl
  | readLog from_ => exact congrArg AtRestAnswer.log (EncryptedStore.openLog_opens hid.readLog)
  | lastSeq => exact congrArg AtRestAnswer.seq hid.lastSeq

theorem Mirror.put (h : Mirror keys s) (hid : Unsealed keys id e p) :
    Mirror keys ⟨⟨s.store.inner.put id e⟩, s.plain.put id p⟩ := by
  intro other
  by_cases hother : other = id
  · subst hother
    rw [InMemoryStore.entry_put, InMemoryStore.entry_put]
    exact hid
  · rw [InMemoryStore.entry_put_ne _ _ hother, InMemoryStore.entry_put_ne _ _ hother]
    exact h other

theorem Mirror.rejected (h : Mirror keys s) :
    Mirror keys ⟨⟨s.store.inner.put id (s.store.inner.entry id)⟩, s.plain⟩ := by
  intro other
  by_cases hother : other = id
  · subst hother
    rw [InMemoryStore.entry_put]
    exact h other
  · rw [InMemoryStore.entry_put_ne _ _ hother]
    exact h other

theorem Mirror.saveSnapshot (h : Mirror keys s) (hseals : s.store.Seals id (.saveSnapshot tok snap d)) :
    Mirror keys (s.step keys (id, .saveSnapshot tok snap d)) := by
  have hid := h id
  have hagree : (s.store.inner.entry id).admitSnapshot tok (EncryptedStore.sealSnapshot keys id tok snap d) =
      (s.plain.entry id).admitSnapshot tok snap := hid.admitSnapshot rfl
  change Mirror keys ⟨⟨(s.store.inner.saveSnapshot id tok _).2⟩,
    if (AtRestAnswer.done (s.store.inner.saveSnapshot id tok _).1).acknowledged
    then (s.plain.saveSnapshot id tok snap).2 else s.plain⟩
  rw [InMemoryStore.saveSnapshot_answer, InMemoryStore.saveSnapshot, InMemoryStore.saveSnapshot, hagree]
  cases hallowed : (s.plain.entry id).admitSnapshot tok snap with
  | error err => exact h.rejected
  | ok u =>
    have hsealed : d.fails = false := hseals ((hid.admitSnapshot rfl).trans hallowed)
    exact h.put ⟨hid.owner, hid.lastSeq, .some (EncryptedStore.openSnapshot_sealed hsealed), hid.log⟩

theorem Mirror.appendBatch (h : Mirror keys s) (hseals : s.store.Seals id (.appendBatch tok batch)) :
    Mirror keys (s.step keys (id, .appendBatch tok batch)) := by
  have hid := h id
  have hagree : (s.store.inner.entry id).admitBatch tok (batch.map (EncryptedStore.sealEvent keys id)) =
      (s.plain.entry id).admitBatch tok (batch.map Prod.fst) := hid.admitBatch EncryptedStore.sealEvent_seqs
  change Mirror keys ⟨⟨(s.store.inner.appendBatch id tok _).2⟩,
    if (AtRestAnswer.done (s.store.inner.appendBatch id tok _).1).acknowledged
      then (s.plain.appendBatch id tok (batch.map Prod.fst)).2 else s.plain⟩
  rw [InMemoryStore.appendBatch_answer, InMemoryStore.appendBatch, InMemoryStore.appendBatch, hagree]
  cases hallowed : (s.plain.entry id).admitBatch tok (batch.map Prod.fst) with
  | error err => exact h.rejected
  | ok last =>
    refine h.put (hid.withBatch (EncryptedStore.sealEvent_opens (hseals ?_)) last)
    rw [hid.admitBatch rfl, hallowed]
    rfl

theorem Mirror.step (h : Mirror keys s) (hseals : s.store.Seals id c) : Mirror keys (s.step keys (id, c)) := by
  cases c with
  | acquireFence =>
    have hid := h id
    refine h.put ⟨?_, hid.lastSeq, hid.snapshot, hid.log⟩
    exact congrArg (fun owner : FenceToken => (⟨owner.value + 1⟩ : FenceToken)) hid.owner
  | saveSnapshot tok snap d => exact h.saveSnapshot hseals
  | append tok seq bytes d =>
    rw [Beside.step, EncryptedStore.call_append, InMemoryStore.atRestCall_append]
    refine h.appendBatch fun hok r hr => ?_
    rw [mem_singleton.mp hr]
    exact hseals hok
  | appendBatch tok batch => exact h.appendBatch hseals
  | loadSnapshot | readLog from_ | lastSeq => exact h

theorem Mirror.start (keys : ActorId → DataKey) : Mirror keys {} := fun _ => ⟨rfl, rfl, .none, .nil⟩

theorem run_concat (calls : List (ActorId × AtRestCall)) (c : ActorId × AtRestCall) :
    run keys (calls ++ [c]) = (run keys calls).step keys c := by
  rw [run, foldl_append]
  rfl

end Beside

namespace EncryptedStore

variable {st : EncryptedStore} {c : AtRestCall}

theorem snapshot_blank (hallowed : (st.inner.entry id).admitSnapshot tok snap = .ok ()) (hfails : d.fails = true) :
    ∃ err, (st.saveSnapshot keys id tok snap d).2.loadSnapshot keys id = .error err := by
  obtain ⟨err, hopen⟩ : ∃ err, openSnapshot keys id (sealSnapshot keys id tok snap d) = .error err :=
    openSnapshot_blank hfails
  have hallowed : (st.inner.entry id).admitSnapshot tok (sealSnapshot keys id tok snap d) = .ok () := hallowed
  refine ⟨err, ?_⟩
  rw [saveSnapshot, InMemoryStore.saveSnapshot, hallowed, loadSnapshot, InMemoryStore.loadSnapshot,
    InMemoryStore.entry_put]
  exact congrArg (Except.map some) hopen

theorem log_blank {r : EventRecord × Draw}
    (hallowed : ((st.inner.entry id).admitBatch tok (batch.map Prod.fst)).isOk = true)
    (hr : r ∈ batch) (hfails : r.2.fails = true) (hfrom : from_ ≤ r.1.seq) :
    ∃ err, (st.appendBatch keys id tok batch).2.readLog keys id from_ = .error err := by
  have hsame : (st.inner.entry id).admitBatch tok (batch.map (sealEvent keys id)) =
      (st.inner.entry id).admitBatch tok (batch.map Prod.fst) := by
    rw [StoreEntry.admitBatch, StoreEntry.admitBatch, StoreEntry.increasingFrom_congr sealEvent_seqs]
  obtain ⟨err, hopen⟩ : ∃ err, openAtRest (keys id) (eventContext id r.1.seq)
      (sealEvent keys id r).record = .error err :=
    open_blank hfails
  rw [appendBatch, InMemoryStore.appendBatch, hsame]
  cases hok : (st.inner.entry id).admitBatch tok (batch.map Prod.fst) with
  | error err =>
    rw [hok] at hallowed
    cases hallowed
  | ok last =>
    rw [readLog, InMemoryStore.readLog, InMemoryStore.entry_put]
    refine openLog_blank (mem_filter.mpr ⟨?_, ?_⟩) hopen
    · exact mem_append_right _ (mem_map_of_mem hr)
    · exact decide_eq_true hfrom

theorem unreadable_of_blank (h : ¬st.Seals id c) :
    (∃ err, (st.call keys id c).2.loadSnapshot keys id = .error err) ∨
      ∃ err, (st.call keys id c).2.readLog keys id 0 = .error err := by
  cases c with
  | saveSnapshot tok snap d =>
    simp only [Seals, Classical.not_imp, Bool.not_eq_false] at h
    exact .inl (snapshot_blank h.1 h.2)
  | append tok seq bytes d =>
    simp only [Seals, Classical.not_imp, Bool.not_eq_false] at h
    rw [call_append]
    exact .inr (log_blank h.1 mem_cons_self h.2 (UInt64.zero_le))
  | appendBatch tok batch =>
    simp only [Seals, Classical.not_imp, not_forall, Bool.not_eq_false] at h
    obtain ⟨hok, r, hr, hfails⟩ := h
    exact .inr (log_blank hok hr hfails (UInt64.zero_le))
  | acquireFence | loadSnapshot | readLog from_ | lastSeq => exact absurd trivial h

end EncryptedStore

/-- The decorator answers like the plain store that ran the acknowledged writes, after every prefix of a run,
exactly where no seal fails for a record of a write that the inner store accepts. -/
theorem encrypted_store_agrees_iff (keys : ActorId → DataKey) (calls : List (ActorId × AtRestCall)) :
    (∀ before after, calls = before ++ after → (Beside.run keys before).Agree keys) ↔
      ∀ before id c after, calls = before ++ (id, c) :: after → (Beside.run keys before).store.Seals id c := by
  constructor
  · intro hagree before id c after hcalls
    by_contra hblank
    have hafter := hagree (before ++ [(id, c)]) after (by rw [hcalls, append_assoc]; rfl) id
    rw [Beside.run_concat] at hafter
    rcases EncryptedStore.unreadable_of_blank hblank with ⟨err, hload⟩ | ⟨err, hread⟩
    · have hanswers := AtRestAnswer.snapshot.inj (hafter .loadSnapshot)
      cases hload.symm.trans hanswers
    · have hanswers := AtRestAnswer.log.inj (hafter (.readLog 0))
      cases hread.symm.trans hanswers
  · intro hseals before after hcalls
    refine Beside.Mirror.agree ?_
    induction before using List.reverseRecOn generalizing after with
    | nil => exact .start keys
    | append_singleton before c ih =>
      rw [append_assoc] at hcalls
      rw [Beside.run_concat]
      exact (ih _ hcalls).step (hseals before c.1 c.2 after hcalls)

end

/-! `MockCipher` of `aead.hpp` keeps the contract. -/
namespace MockCipher

variable (key nonce : UInt64)

def keystreamByte (i : Nat) : UInt8 :=
  (splitmix64 (key ^^^ splitmix64 (nonce + UInt64.ofNat (i / 8))) >>> UInt64.ofNat (i % 8 * 8)).toUInt8

def mask (bytes : List UInt8) : List UInt8 := bytes.mapIdx fun i b => b ^^^ keystreamByte key nonce i

def fold (h : UInt64) (bytes : List UInt8) : UInt64 := bytes.foldl (fun h b => hashCombine h b.toUInt64) h

def computeTag (aad ct : List UInt8) : UInt64 :=
  fold (hashCombine (fold (hashCombine (hashCombine key nonce) (UInt64.ofNat aad.length)) aad)
    (UInt64.ofNat ct.length)) ct

def seal_ (aad plaintext : List UInt8) : List UInt8 :=
  mask key nonce plaintext ++ putU64 (computeTag key nonce aad (mask key nonce plaintext))

def open_ (aad sealed_ : List UInt8) : Option (List UInt8) :=
  if sealed_.length < 8 then none
  else
    let ct := sealed_.take (sealed_.length - 8)
    if getU64 (sealed_.drop (sealed_.length - 8)) ≠ computeTag key nonce aad ct then none
      else some (mask key nonce ct)

theorem mask_mask (bytes : List UInt8) : mask key nonce (mask key nonce bytes) = bytes := by
  rw [mask, mask, mapIdx_mapIdx]
  refine ext_getElem length_mapIdx fun i _ _ => ?_
  rw [getElem_mapIdx, Function.comp_apply, UInt8.xor_assoc, UInt8.xor_self, UInt8.xor_zero]

theorem open_seal (aad plaintext : List UInt8) : open_ key nonce aad
    (seal_ key nonce aad plaintext) = some plaintext := by
  have hlength : (seal_ key nonce aad plaintext).length = (mask key nonce plaintext).length + 8 := by
    rw [seal_, length_append, putU64_length]
  have htag : getU64 (putU64 (computeTag key nonce aad (mask key nonce plaintext))) =
      computeTag key nonce aad (mask key nonce plaintext) := by
    rw [← append_nil (putU64 _), getU64_putU64]
  rw [open_, hlength, Nat.add_sub_cancel, if_neg (by omega), seal_, take_left, drop_left, htag,
    if_neg (fun h => h rfl), mask_mask]

end MockCipher

def mockCipher (key : UInt64) : DataKey where
  seal_ := MockCipher.seal_ key
  open_ := MockCipher.open_ key
  open_seal := MockCipher.open_seal key
  open_empty _ _ := rfl

/-- Two events are acknowledged; the seal of the second failed. -/
def blankAppend : List (ActorId × AtRestCall) :=
  [(⟨⟨1⟩, 2⟩, .acquireFence), (⟨⟨1⟩, 2⟩, .append ⟨1⟩ 1 [10, 11] ⟨77, false⟩),
    (⟨⟨1⟩, 2⟩, .append ⟨1⟩ 2 [12] ⟨78, true⟩)]

/-- The append reports no error, and from then on neither event can be read. -/
theorem encrypted_store_blank :
    (((Beside.run (fun _ => mockCipher 7) (blankAppend.take 2)).store.call (fun _ => mockCipher 7) ⟨⟨1⟩, 2⟩
      (.append ⟨1⟩ 2 [12] ⟨78, true⟩)).1 = .done (.ok ())) ∧
    ((Beside.run (fun _ => mockCipher 7) blankAppend).store.call (fun _ => mockCipher 7) ⟨⟨1⟩, 2⟩ (.readLog 1)).1 =
      .log (fail .serialization "at-rest AEAD open failed (tamper / wrong actor/seq/fence / wrong key)") ∧
    ((Beside.run (fun _ => mockCipher 7) blankAppend).plain.atRestCall ⟨⟨1⟩, 2⟩ (.readLog 1)).1 =
      .log (.ok [⟨1, [10, 11]⟩, ⟨2, [12]⟩]) := by
  decide +kernel

end Quark
