import Quark.FileStore

/-! What replay makes of a file: records read back as they were written, a sequence of frames
replays as the fold of its records, and a torn tail is cut off. -/
open List

open UInt32

namespace Quark.FileStore

open Bytes

namespace Reader

@[simp] theorem u8_cons (b : UInt8) (rest : List UInt8) : u8 { rest := b :: rest } = (b, { rest := rest }) := by
  simp [u8, need]

@[simp] theorem u32_put (v : UInt32) (rest : List UInt8) :
    u32 { rest := putU32 v ++ rest } = (v, { rest := rest }) := by
  have hn : need { rest := putU32 v ++ rest } 4 = (true, { rest := putU32 v ++ rest }) := by simp [need]
  rw [u32, hn]
  simp only [getU32_putU32, drop_left' (putU32_length v)]

@[simp] theorem u64_put (v : UInt64) (rest : List UInt8) :
    u64 { rest := putU64 v ++ rest } = (v, { rest := rest }) := by
  have hn : need { rest := putU64 v ++ rest } 8 = (true, { rest := putU64 v ++ rest }) := by simp [need]
  rw [u64, hn]
  simp only [getU64_putU64, drop_left' (putU64_length v)]

theorem blob_put (v rest : List UInt8) (hv : v.length < 2 ^ 32) :
    blob { rest := putBlob v ++ rest } = (v, { rest := rest }) := by
  have hl : (UInt32.ofNat v.length).toNat = v.length := toNat_ofNat_of_lt hv
  have hn : need { rest := v ++ rest } v.length = (true, { rest := v ++ rest }) := by simp [need]
  simp only [blob, putBlob, append_assoc, u32_put, hl, hn, take_left' rfl, drop_left' rfl]

end Reader

@[simp] theorem putBlob_length (v : List UInt8) : (putBlob v).length = 4 + v.length := by simp [putBlob]

@[simp] theorem putEvents_nil : putEvents [] = [] := rfl

theorem putEvents_cons (r : EventRecord) (batch : List EventRecord) :
    putEvents (r :: batch) = putU64 r.seq ++ (putBlob r.record ++ putEvents batch) := by
  simp only [putEvents, flatMap_cons, append_assoc]

theorem putEvents_cons_length (r : EventRecord) (batch : List EventRecord) :
    (putEvents (r :: batch)).length = 12 + r.record.length + (putEvents batch).length := by
  simp only [putEvents_cons, length_append, putU64_length, putBlob_length]
  omega

theorem putEvents_append_length (xs ys : List EventRecord) :
    (putEvents (xs ++ ys)).length = (putEvents xs).length + (putEvents ys).length := by
  simp only [putEvents, flatMap_append, length_append]

theorem length_le_putEvents (batch : List EventRecord) : batch.length ≤ (putEvents batch).length := by
  induction batch with
  | nil => exact le_rfl
  | cons r batch ih =>
    rw [putEvents_cons_length, length_cons]
    omega

@[simp] theorem fenceBody_length (tok : FenceToken) : (fenceBody tok).length = 9 := by simp [fenceBody]

@[simp] theorem snapshotBody_length (s : SnapshotRecord) :
    (snapshotBody s).length = 21 + s.record.length := by
  simp only [snapshotBody, length_cons, length_append, putU64_length, putBlob_length]
  omega

@[simp] theorem batchBody_length (batch : List EventRecord) :
    (batchBody batch).length = 5 + (putEvents batch).length := by
  simp only [batchBody, length_cons, length_append, putU32_length]
  omega

@[simp] theorem frame_length (body : List UInt8) : (frame body).length = 8 + body.length := by
  simp only [frame, length_append, putU32_length]

theorem readEvents_put (batch : List EventRecord) (rest : List UInt8) (prev : SeqNo)
    (evs : List EventRecord) (hb : ∀ r ∈ batch, r.record.length < 2 ^ 32) :
    readEvents batch.length { rest := putEvents batch ++ rest } prev evs =
      match StoreEntry.increasingFrom prev batch with
      | .ok last => some ({ rest := rest }, last, evs ++ batch)
      | .error _ => none := by
  induction batch generalizing prev evs with
  | nil => simp [readEvents, StoreEntry.increasingFrom]
  | cons r batch ih =>
    have hr : r.record.length < 2 ^ 32 := hb r mem_cons_self
    simp only [length_cons, readEvents, StoreEntry.increasingFrom, putEvents_cons, append_assoc,
      Reader.u64_put, Reader.blob_put _ _ hr, Bool.not_true, Bool.false_eq_true, if_false]
    by_cases hle : r.seq ≤ prev
    · simp only [hle, if_true, notIncreasing, fail]
    · simp only [hle, if_false]
      rw [ih r.seq _ fun r hr => hb r (mem_cons_of_mem _ hr), append_assoc, singleton_append]

theorem applyRecord_fence (e : StoreEntry) (tok : FenceToken) :
    applyRecord e (fenceBody tok) = some (e.withOwner tok) := by
  have h := Reader.u64_put tok.value []
  rw [append_nil] at h
  simp [applyRecord, fenceBody, h, Reader.done, StoreEntry.withOwner]

theorem applyRecord_snapshot (e : StoreEntry) (s : SnapshotRecord) (hs : s.record.length < 2 ^ 32) :
    applyRecord e (snapshotBody s) = some { e with
      lastSeq := if e.lastSeq < s.throughSeq then s.throughSeq else e.lastSeq
      snapshot := some s } := by
  have h := Reader.blob_put s.record [] hs
  rw [append_nil] at h
  have hk : ¬ kSnapshot = kFence := by decide
  simp only [applyRecord, snapshotBody, Reader.u8_cons, hk, if_false, if_true, append_assoc,
    Reader.u64_put, h, Reader.done, isEmpty_nil, Bool.not_true, Bool.or_self, Bool.false_eq_true]

theorem applyRecord_events (e : StoreEntry) (batch : List EventRecord) (hlt : batch.length < 2 ^ 32)
    (hb : ∀ r ∈ batch, r.record.length < 2 ^ 32) :
    applyRecord e (batchBody batch) =
      match StoreEntry.increasingFrom e.lastSeq batch with
      | .ok last => some (e.withBatch batch last)
      | .error _ => none := by
  have hn : (UInt32.ofNat batch.length).toNat = batch.length := toNat_ofNat_of_lt hlt
  have h := readEvents_put batch [] e.lastSeq [] hb
  rw [append_nil] at h
  have hf : ¬ kBatch = kFence := by decide
  have hk : ¬ kBatch = kSnapshot := by decide
  simp only [applyRecord, batchBody, Reader.u8_cons, hf, hk, if_false, if_true, Reader.u32_put, hn, h]
  cases StoreEntry.increasingFrom e.lastSeq batch with
  | error err => rfl
  | ok last => simp only [Reader.done, isEmpty_nil, Bool.not_true, Bool.or_self, Bool.false_eq_true,
      if_false, nil_append]

theorem record_le_putEvents {batch : List EventRecord} {r : EventRecord} (h : r ∈ batch) :
    r.record.length ≤ (putEvents batch).length := by
  induction batch with
  | nil => cases h
  | cons b batch ih =>
    rw [putEvents_cons_length]
    rcases mem_cons.mp h with rfl | h
    · omega
    · have hle := ih h
      omega

theorem applyRecord_batch (e : StoreEntry) (batch : List EventRecord)
    (hb : (batchBody batch).length < 2 ^ 32) :
    applyRecord e (batchBody batch) =
      match StoreEntry.increasingFrom e.lastSeq batch with
      | .ok last => some (e.withBatch batch last)
      | .error _ => none := by
  rw [batchBody_length] at hb
  have hc := length_le_putEvents batch
  refine applyRecord_events e batch (by omega) fun r hr => ?_
  have hle := record_le_putEvents hr
  omega

end Quark.FileStore

namespace Quark

/-- The record body a write journals, if its checks pass. -/
def StoreOp.body (e : StoreEntry) : StoreOp → List UInt8
  | .acquireFence => FileStore.fenceBody e.nextOwner
  | .saveSnapshot tok snap => FileStore.snapshotBody { snap with fence := tok }
  | .append _ seq bytes => FileStore.batchBody [⟨seq, bytes⟩]
  | .appendBatch _ batch => FileStore.batchBody batch

/-- The record body stays below 4 GiB, so that its length fits the frame header. -/
def StoreOp.Bounded (op : StoreOp) : Prop := ∀ e, (op.body e).length < 2 ^ 32

namespace FileStore

open Bytes

/-- An entry that writes build: the log strictly increases up to `last_seq`, and the snapshot does not
run ahead of it and fits a record. -/
structure Ordered (e : StoreEntry) : Prop where
  increasing : ∃ base, StoreEntry.increasingFrom base e.log = .ok e.lastSeq
  subsumed : ∀ snap ∈ e.snapshot, snap.throughSeq ≤ e.lastSeq ∧ (snapshotBody snap).length < 2 ^ 32

theorem applyRecord_body {e e' : StoreEntry} {op : StoreOp} (hb : op.Bounded)
    (h : e.apply op = (.ok (), e')) : applyRecord e (op.body e) = some e' := by
  have hb := hb e
  cases op with
  | acquireFence =>
    cases h
    exact applyRecord_fence e _
  | saveSnapshot tok snap =>
    rw [StoreOp.body, snapshotBody_length] at hb
    obtain ⟨hle, rfl⟩ := StoreEntry.apply_saveSnapshot h
    rw [StoreOp.body, applyRecord_snapshot _ _ (by simp only at hb ⊢; omega)]
    simp only [UInt64.not_lt.mpr hle, if_false, StoreEntry.withSnapshot]
  | append tok seq bytes | appendBatch tok batch =>
    obtain ⟨last, hinc, rfl⟩ := StoreEntry.admitted_batch h
    rw [StoreOp.body, applyRecord_batch e _ hb, hinc]

theorem Ordered.apply {e e' : StoreEntry} {op : StoreOp} (ho : Ordered e) (hb : op.Bounded)
    (h : e.apply op = (.ok (), e')) : Ordered e' := by
  obtain ⟨base, hbase⟩ := ho.increasing
  have extend : ∀ {batch last}, StoreEntry.increasingFrom e.lastSeq batch = .ok last →
      Ordered (e.withBatch batch last) := by
    intro batch last hinc
    refine ⟨⟨base, StoreEntry.increasingFrom_append hbase hinc⟩, fun snap hsnap => ?_⟩
    have hle := StoreEntry.le_of_increasingFrom hinc
    exact ⟨UInt64.le_trans (ho.subsumed snap hsnap).1 hle, (ho.subsumed snap hsnap).2⟩
  cases op with
  | acquireFence =>
    cases h
    exact ⟨ho.increasing, ho.subsumed⟩
  | saveSnapshot tok snap =>
    obtain ⟨hle, rfl⟩ := StoreEntry.apply_saveSnapshot h
    refine ⟨ho.increasing, fun s hs => ?_⟩
    cases hs
    exact ⟨hle, hb e⟩
  | append tok seq bytes | appendBatch tok batch =>
    obtain ⟨last, hinc, rfl⟩ := StoreEntry.admitted_batch h
    exact extend hinc

def wal (bodies : List (List UInt8)) : List UInt8 := bodies.flatMap frame

/-- The records replay to this entry, each of them with a length that fits its header. -/
structure Journals (bodies : List (List UInt8)) (e : StoreEntry) : Prop where
  bounded : ∀ body ∈ bodies, body.length < 2 ^ 32
  replays : bodies.foldlM applyRecord {} = some e
  ordered : Ordered e

theorem Journals.nil : Journals [] {} := ⟨by simp, rfl, ⟨0, rfl⟩, by simp⟩

theorem Journals.snoc {bodies : List (List UInt8)} {e e' : StoreEntry} (h : Journals bodies e)
    {body : List UInt8} (hb : body.length < 2 ^ 32) (ha : applyRecord e body = some e') (ho : Ordered e') :
    Journals (bodies ++ [body]) e' := by
  refine ⟨?_, ?_, ho⟩
  · intro b hmem
    rcases mem_append.mp hmem with hmem | hmem
    · exact h.bounded b hmem
    · rw [mem_singleton.mp hmem]
      exact hb
  · simp [foldlM_append, h.replays, ha]

theorem wal_snoc (bodies : List (List UInt8)) (body : List UInt8) :
    wal (bodies ++ [body]) = wal bodies ++ frame body := by
  simp only [wal, flatMap_append, flatMap_cons, flatMap_nil, append_nil]

/-- The bytes after the last whole record that replay takes for an interrupted append: a header
or a body that is cut short, or a last record whose checksum is wrong. -/
def Torn (tail : List UInt8) : Prop :=
  tail.length < 8 + (getU32 tail).toNat ∨
    (tail.length = 8 + (getU32 tail).toNat ∧ crc32 (tail.drop 8) ≠ getU32 (tail.drop 4))

instance (tail : List UInt8) : Decidable (Torn tail) := inferInstanceAs (Decidable (_ ∨ _))

theorem Torn.nil : Torn [] := Or.inl (by simp)

theorem getU32_frame_take {body : List UInt8} (hb : body.length < 2 ^ 32) (k : Nat) (hk : 8 ≤ k) :
    (getU32 ((frame body).take k)).toNat = body.length := by
  have h4 : ((frame body).take k).take 4 = (frame body).take 4 := by
    rw [take_take, Nat.min_eq_left (by omega)]
  have hg : getU32 ((frame body).take k) = getU32 (frame body) := by rw [getU32, h4, ← getU32]
  rw [hg, frame, append_assoc, getU32_putU32]
  exact toNat_ofNat_of_lt hb

theorem Torn.take_frame {body : List UInt8} (hb : body.length < 2 ^ 32) {k : Nat}
    (hk : k < (frame body).length) : Torn ((frame body).take k) := by
  have hl : ((frame body).take k).length = k := by rw [length_take]; omega
  rw [frame_length] at hk
  refine Or.inl ?_
  rw [hl]
  by_cases h8 : k < 8
  · omega
  · rw [getU32_frame_take hb k (by omega)]
    omega

theorem replayLoop_torn {tail : List UInt8} (h : Torn tail) (fuel : Nat) (e : StoreEntry) (off : Nat) :
    replayLoop fuel e tail off = { entry := e, off := off } := by
  cases fuel with
  | zero => rfl
  | succ fuel =>
    simp only [replayLoop, length_drop]
    by_cases h8 : tail.length < 8
    · rw [if_pos h8]
    · rw [if_neg h8]
      rcases h with h | ⟨hl, hcrc⟩
      · rw [if_pos (by omega)]
      · have htake : (tail.drop 8).take (getU32 tail).toNat = tail.drop 8 := by
          rw [take_of_length_le]
          rw [length_drop]
          omega
        rw [if_neg (by omega), htake, if_pos hcrc]
        simp only [Replayed.mk.injEq, true_and, decide_eq_false_iff_not]
        omega

theorem frame_fields {body : List UInt8} (hb : body.length < 2 ^ 32) (rest : List UInt8) :
    (getU32 (frame body ++ rest)).toNat = body.length ∧ getU32 ((frame body ++ rest).drop 4) = crc32 body ∧
      (frame body ++ rest).drop 8 = body ++ rest ∧ ¬ (frame body ++ rest).length < 8 := by
  refine ⟨?_, ?_, ?_, ?_⟩
  · rw [frame, append_assoc, append_assoc, getU32_putU32]
    exact toNat_ofNat_of_lt hb
  · rw [frame, append_assoc, append_assoc, drop_left' (putU32_length _), getU32_putU32]
  · rw [frame, append_assoc (_ ++ _), drop_left' (by simp)]
  · rw [length_append, frame_length]
    omega

theorem replayLoop_frame {body : List UInt8} (hb : body.length < 2 ^ 32) (fuel : Nat) (e : StoreEntry)
    (rest : List UInt8) (off : Nat) :
    replayLoop (fuel + 1) e (frame body ++ rest) off =
      match applyRecord e body with
      | none => { entry := e, off, corrupt := true }
      | some e' => replayLoop fuel e' rest (off + (frame body).length) := by
  obtain ⟨hlen, hcrc, htail, h8⟩ := frame_fields hb rest
  have hfit : ¬ (body ++ rest).length < body.length := by rw [length_append]; omega
  simp only [replayLoop, h8, if_false, hlen, hcrc, htail, hfit, take_left' rfl, ne_eq,
    not_true_eq_false, drop_left' rfl, frame_length]
  cases applyRecord e body with
  | none => rfl
  | some e' => rw [add_assoc]

theorem replayLoop_wal {bodies : List (List UInt8)} {e e' : StoreEntry}
    (hb : ∀ body ∈ bodies, body.length < 2 ^ 32) (hr : bodies.foldlM applyRecord e = some e')
    (fuel : Nat) (tail : List UInt8) (off : Nat) :
    replayLoop (fuel + bodies.length) e (wal bodies ++ tail) off =
      replayLoop fuel e' tail (off + (wal bodies).length) := by
  induction bodies generalizing e off with
  | nil =>
    cases hr
    rfl
  | cons body bodies ih =>
    simp only [foldlM_cons] at hr
    cases ha : applyRecord e body with
    | none => rw [ha] at hr; cases hr
    | some mid =>
      rw [ha] at hr
      have hwal : wal (body :: bodies) = frame body ++ wal bodies := by simp only [wal, flatMap_cons]
      rw [hwal, length_cons, ← add_assoc, append_assoc,
        replayLoop_frame (hb body mem_cons_self), ha]
      simp only
      rw [ih (fun b hmem => hb b (mem_cons_of_mem _ hmem)) hr, length_append, add_assoc]

theorem length_le_wal (bodies : List (List UInt8)) : bodies.length ≤ (wal bodies).length := by
  induction bodies with
  | nil => exact le_rfl
  | cons body bodies ih =>
    simp only [wal, flatMap_cons, length_append, length_cons, frame_length] at ih ⊢
    omega

end FileStore

end Quark
