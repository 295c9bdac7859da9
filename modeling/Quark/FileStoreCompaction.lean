import Mathlib.Data.List.TakeWhile
import Quark.FileStoreCrash

/-! Compaction. The rewritten log puts the snapshot before the surviving events, and replay raises
`last_seq` to the snapshot before it checks them: a cut below the snapshot is read back as corrupt
when an event survives between the two. -/
namespace Quark

namespace StoreEntry

theorem lt_of_increasingFrom {xs : List EventRecord} {base last : SeqNo}
    (h : increasingFrom base xs = .ok last) : ∀ r ∈ xs, base < r.seq := by
  induction xs generalizing base with
  | nil => simp
  | cons r xs ih =>
    simp only [increasingFrom] at h
    split at h
    · cases h
    · next hlt =>
      have hr := UInt64.not_le.mp hlt
      intro q hq
      rcases List.mem_cons.mp hq with rfl | hq
      · exact hr
      · exact UInt64.lt_trans hr (ih h q hq)

/-- Only the first event is compared with where the batch starts. -/
theorem increasingFrom_rebase {xs : List EventRecord} {base base' last : SeqNo}
    (h : increasingFrom base xs = .ok last) (hne : xs ≠ []) (hbase : ∀ r ∈ xs, base' < r.seq) :
    increasingFrom base' xs = .ok last := by
  cases xs with
  | nil => exact absurd rfl hne
  | cons r xs =>
    have hr : ¬ r.seq ≤ base' := UInt64.not_le.mpr (hbase r List.mem_cons_self)
    simp only [increasingFrom] at h
    split at h
    · cases h
    · simp only [increasingFrom, hr, if_false, h]

theorem increasingFrom_drop {xs : List EventRecord} {base last : SeqNo} (n : Nat)
    (h : increasingFrom base xs = .ok last) :
    ∃ mid, increasingFrom base (xs.take n) = .ok mid ∧ increasingFrom mid (xs.drop n) = .ok last := by
  induction xs generalizing base n with
  | nil =>
    cases h
    exact ⟨last, by simp [increasingFrom], by simp [increasingFrom]⟩
  | cons r xs ih =>
    cases n with
    | zero => exact ⟨base, rfl, h⟩
    | succ n =>
      simp only [increasingFrom] at h
      split at h
      · cases h
      · next hlt =>
        obtain ⟨mid, htake, hdrop⟩ := ih n h
        exact ⟨mid, by simp only [List.take_succ_cons, increasingFrom, hlt, if_false, htake], hdrop⟩

theorem exists_last_of_increasingFrom {xs : List EventRecord} {base last : SeqNo}
    (h : increasingFrom base xs = .ok last) (hne : xs ≠ []) : ∃ r ∈ xs, r.seq = last := by
  induction xs generalizing base with
  | nil => exact absurd rfl hne
  | cons r xs ih =>
    simp only [increasingFrom] at h
    split at h
    · cases h
    · cases xs with
      | nil =>
        cases h
        exact ⟨r, List.mem_cons_self, rfl⟩
      | cons q xs =>
        obtain ⟨p, hp, hlast⟩ := ih h (List.cons_ne_nil _ _)
        exact ⟨p, List.mem_cons_of_mem _ hp, hlast⟩

theorem filter_lt_eq_drop {xs : List EventRecord} {base last : SeqNo} (throughSeq : SeqNo)
    (h : increasingFrom base xs = .ok last) :
    xs.filter (fun r => throughSeq < r.seq) = xs.drop (xs.takeWhile fun r => r.seq ≤ throughSeq).length := by
  induction xs generalizing base with
  | nil => rfl
  | cons r xs ih =>
    have hlater := lt_of_increasingFrom h
    simp only [increasingFrom] at h
    split at h
    · cases h
    · by_cases hr : r.seq ≤ throughSeq
      · simp only [List.filter_cons, List.takeWhile_cons, hr, UInt64.not_lt.mpr hr, decide_true,
          decide_false, Bool.false_eq_true, if_false, if_true, List.length_cons, List.drop_succ_cons, ih h]
      · have hgt := UInt64.not_le.mp hr
        have hall : ∀ q ∈ r :: xs, decide (throughSeq < q.seq) = true := by
          intro q hq
          rcases List.mem_cons.mp hq with rfl | hq
          · exact decide_eq_true hgt
          · exact decide_eq_true (UInt64.lt_trans hgt (lt_of_increasingFrom h q hq))
        rw [List.filter_eq_self.mpr hall]
        simp only [List.takeWhile_cons, hr, decide_false, Bool.false_eq_true, if_false, List.length_nil,
          List.drop_zero]

theorem admitTruncate_ok {e : StoreEntry} {tok : FenceToken} {throughSeq : SeqNo}
    (h : e.admitTruncate tok throughSeq = .ok ()) :
    ∃ snap, e.snapshot = some snap ∧ throughSeq ≤ snap.throughSeq := by
  simp only [admitTruncate, fencedError, fail] at h
  split at h
  · cases h
  · split at h
    · cases h
    · next hsnap =>
      cases hs : e.snapshot with
      | none => simp [hs] at hsnap
      | some snap => exact ⟨snap, rfl, by simpa [hs] using hsnap⟩

end StoreEntry

namespace FileStore

open Bytes

/-- The cut leaves a log that replay reads back: it drops nothing, or no event survives between the cut
and the stored snapshot and the surviving events fit one record. -/
def CutFits (e : StoreEntry) (throughSeq : SeqNo) : Prop :=
  (∀ r ∈ e.log, throughSeq < r.seq) ∨
    ((∀ snap ∈ e.snapshot, ∀ r ∈ e.log, throughSeq < r.seq → snap.throughSeq < r.seq) ∧
      (batchBody (e.log.filter fun r => throughSeq < r.seq)).length < 2 ^ 32)

/-- `truncate_log` as its contract has it: of the entry only the events up to the cut are gone. -/
structure KeepsAbove (e : StoreEntry) (throughSeq : SeqNo) (reopened : Entry) : Prop where
  intact : reopened.corrupt = false
  owner : reopened.owner = e.owner
  lastSeq : reopened.lastSeq = e.lastSeq
  snapshot : reopened.snapshot = e.snapshot
  log : reopened.log = e.log.filter fun r => throughSeq < r.seq

theorem Slot.truncateLog_ok {s : Slot} {pal : Pal} {tok : FenceToken} {throughSeq : SeqNo}
    (hok : (s.truncateLog pal tok throughSeq).1 = .ok ()) :
    ∃ snap, s.entry.snapshot = some snap ∧ throughSeq ≤ snap.throughSeq ∧
      ((s.entry.dropCount throughSeq = 0 ∧ (s.truncateLog pal tok throughSeq).2 = s) ∨
        (s.entry.dropCount throughSeq ≠ 0 ∧ (s.truncateLog pal tok throughSeq).2 =
          { file := some (compacted s.entry.toStoreEntry snap (s.entry.dropCount throughSeq))
            entry := { s.entry with
              toStoreEntry := s.entry.toStoreEntry.eraseFront (s.entry.dropCount throughSeq)
              writeOff := (compacted s.entry.toStoreEntry snap (s.entry.dropCount throughSeq)).length } })) := by
  cases hc : s.entry.corrupt with
  | true =>
    simp only [truncateLog, hc, if_true] at hok
    cases hok
  | false =>
    cases hadm : s.entry.admitTruncate tok throughSeq with
    | error err =>
      simp only [truncateLog, hc, hadm, Bool.false_eq_true, if_false] at hok
      cases hok
    | ok u =>
      obtain ⟨snap, hs, hle⟩ := StoreEntry.admitTruncate_ok hadm
      refine ⟨snap, hs, hle, ?_⟩
      simp only [truncateLog, hc, hadm, hs, Bool.false_eq_true, if_false] at hok ⊢
      by_cases hn : s.entry.dropCount throughSeq = 0
      · exact Or.inl ⟨hn, by rw [if_pos hn]⟩
      · rw [if_neg hn] at hok ⊢
        cases hrewrites : pal.rewrites with
        | false =>
          rw [hrewrites] at hok
          cases hok
        | true =>
          cases hreopens : pal.reopens with
          | false =>
            rw [hrewrites, hreopens] at hok
            cases hok
          | true => exact Or.inr ⟨hn, rfl⟩

def compactedHead (e : StoreEntry) (snap : SnapshotRecord) : StoreEntry :=
  { owner := e.owner, lastSeq := snap.throughSeq, snapshot := some snap }

theorem compactedHead_replays {e : StoreEntry} {snap : SnapshotRecord}
    (hsnap : (snapshotBody snap).length < 2 ^ 32) :
    [fenceBody e.owner, snapshotBody snap].foldlM applyRecord {} = some (compactedHead e snap) := by
  have hrecord : snap.record.length < 2 ^ 32 := by
    rw [snapshotBody_length] at hsnap
    omega
  have hlast : (if (0 : SeqNo) < snap.throughSeq then snap.throughSeq else 0) = snap.throughSeq := by
    split
    · rfl
    · next h => exact (UInt64.le_antisymm (UInt64.not_lt.mp h) UInt64.zero_le).symm
  simp only [List.foldlM_cons, List.foldlM_nil, applyRecord_fence, applyRecord_snapshot _ _ hrecord,
    Option.bind_eq_bind, Option.bind_some, StoreEntry.withOwner, hlast]
  rfl

theorem surviving {e : StoreEntry} (ho : Ordered e) (throughSeq : SeqNo) :
    e.log.filter (fun r => throughSeq < r.seq) = e.log.drop (e.dropCount throughSeq) ∧
      ∃ mid, StoreEntry.increasingFrom mid (e.log.drop (e.dropCount throughSeq)) = .ok e.lastSeq ∧
        (e.dropCount throughSeq ≠ 0 → mid ≤ throughSeq) := by
  obtain ⟨base, hbase⟩ := ho.increasing
  obtain ⟨mid, htake, hdrop⟩ := StoreEntry.increasingFrom_drop (e.dropCount throughSeq) hbase
  refine ⟨StoreEntry.filter_lt_eq_drop throughSeq hbase, mid, hdrop, fun hn => ?_⟩
  have hfront : e.log.take (e.dropCount throughSeq) = e.log.takeWhile fun r => r.seq ≤ throughSeq :=
    (List.prefix_iff_eq_take.mp (List.takeWhile_prefix _)).symm
  rw [hfront] at htake
  obtain ⟨r, hr, hlast⟩ := StoreEntry.exists_last_of_increasingFrom htake fun hnil => hn (by
    rw [StoreEntry.dropCount, hnil, List.length_nil])
  rw [← hlast]
  have hcut := List.mem_takeWhile_imp hr
  exact of_decide_eq_true hcut

theorem Journals.compacted {e : StoreEntry} (ho : Ordered e) {snap : SnapshotRecord} {throughSeq : SeqNo}
    (hs : e.snapshot = some snap) (hle : throughSeq ≤ snap.throughSeq) (hn : e.dropCount throughSeq ≠ 0)
    (habove : ∀ r ∈ e.log.drop (e.dropCount throughSeq), snap.throughSeq < r.seq)
    (hfit : (batchBody (e.log.drop (e.dropCount throughSeq))).length < 2 ^ 32) :
    ∃ bodies, wal bodies = Slot.compacted e snap (e.dropCount throughSeq) ∧
      Journals bodies (e.eraseFront (e.dropCount throughSeq)) := by
  obtain ⟨_, mid, hinc, hmid⟩ := surviving ho throughSeq
  obtain ⟨hlast, hsnap⟩ := ho.subsumed snap (by rw [hs]; rfl)
  have ho' : Ordered (e.eraseFront (e.dropCount throughSeq)) := ⟨⟨mid, hinc⟩, ho.subsumed⟩
  have hhead := compactedHead_replays (e := e) hsnap
  cases hlog : e.log.drop (e.dropCount throughSeq) with
  | nil =>
    have hend : snap.throughSeq = e.lastSeq := by
      rw [hlog] at hinc
      cases hinc
      exact UInt64.le_antisymm hlast (UInt64.le_trans (hmid hn) hle)
    refine ⟨[fenceBody e.owner, snapshotBody snap], ?_, ?_, ?_, ho'⟩
    · have hlen : ¬ e.dropCount throughSeq < e.log.length := by
        have := List.drop_eq_nil_iff.mp hlog
        omega
      simp [wal, Slot.compacted, hlen]
    · simpa using hsnap
    · rw [hhead, StoreEntry.eraseFront, hlog, compactedHead, hend, hs]
  | cons r rest =>
    rw [hlog] at hinc habove hfit
    have hbatch := StoreEntry.increasingFrom_rebase hinc (List.cons_ne_nil _ _) habove
    refine ⟨[fenceBody e.owner, snapshotBody snap, batchBody (r :: rest)], ?_, ?_, ?_, ho'⟩
    · have hlen : e.dropCount throughSeq < e.log.length := by
        have := congrArg List.length hlog
        rw [List.length_drop, List.length_cons] at this
        omega
      simp [wal, Slot.compacted, hlen, hlog]
    · intro body hmem
      simp only [List.mem_cons, List.not_mem_nil, or_false] at hmem
      rcases hmem with rfl | rfl | rfl
      · simp
      · exact hsnap
      · exact hfit
    · have happend : [fenceBody e.owner, snapshotBody snap, batchBody (r :: rest)] =
          [fenceBody e.owner, snapshotBody snap] ++ [batchBody (r :: rest)] := rfl
      rw [happend, List.foldlM_append, hhead]
      simp only [Option.bind_eq_bind, Option.bind_some, List.foldlM_cons, List.foldlM_nil,
        applyRecord_batch _ _ hfit, compactedHead, hbatch, StoreEntry.withBatch, StoreEntry.eraseFront,
        hlog, hs, List.nil_append]
      rfl

theorem Slot.Holds.truncateLog {s : Slot} {e : StoreEntry} {stale : List UInt8} {pal : Pal}
    {tok : FenceToken} {throughSeq : SeqNo} (h : s.Holds e stale)
    (hok : (s.truncateLog pal tok throughSeq).1 = .ok ()) (hfits : CutFits e throughSeq) :
    ∃ stale', (stale' = [] ∨ stale' = stale) ∧
      (s.truncateLog pal tok throughSeq).2.Holds (e.eraseFront (e.dropCount throughSeq)) stale' := by
  obtain ⟨snap, hs, hle, hcase⟩ := Slot.truncateLog_ok hok
  rw [h.entry_eq] at hs hcase
  rcases hcase with ⟨hn, hsame⟩ | ⟨hn, hnew⟩
  · refine ⟨stale, Or.inr rfl, ?_⟩
    rw [hsame, hn, StoreEntry.eraseFront, List.drop_zero]
    exact h
  · obtain ⟨hfilter, _⟩ := surviving h.ordered throughSeq
    rcases hfits with hall | ⟨habove, hfit⟩
    · refine absurd ?_ hn
      have hkeep : e.log.takeWhile (fun r => r.seq ≤ throughSeq) = [] := by
        rw [List.takeWhile_eq_nil_iff]
        intro hpos hfirst
        exact UInt64.not_le.mpr (hall _ (List.get_mem _ _)) (of_decide_eq_true hfirst)
      rw [StoreEntry.dropCount, hkeep, List.length_nil]
    · rw [hfilter] at hfit
      obtain ⟨bodies, hwal, hj⟩ := Journals.compacted h.ordered hs hle hn (fun r hr => by
        rw [← hfilter, List.mem_filter] at hr
        exact habove snap hs r hr.1 (of_decide_eq_true hr.2)) hfit
      refine ⟨[], Or.inl rfl, ?_⟩
      rw [hnew]
      exact ⟨rfl, h.opened, h.intact, bodies, hj, by rw [hwal, List.append_nil], by rw [hwal]⟩

namespace Reader

theorem need_cases (r : Reader) (n : Nat) :
    (r.ok = true ∧ n ≤ r.rest.length ∧ r.need n = (true, r)) ∨ r.need n = (false, { r with ok := false }) := by
  unfold need
  split
  · next hn =>
    obtain ⟨hok, hfit⟩ := (Bool.and_eq_true _ _).mp hn
    exact .inl ⟨hok, of_decide_eq_true hfit, rfl⟩
  · exact .inr rfl

/-- A read never restores `ok` and, while `ok` holds, takes exactly its width off the record. -/
theorem u32_rest {r : Reader} (h : r.u32.2.ok = true) :
    r.ok = true ∧ r.u32.2.rest.length + 4 = r.rest.length := by
  unfold u32 at h ⊢
  obtain ⟨hok, hfit, hneed⟩ | hneed := r.need_cases 4
  · simp only [hneed, List.length_drop]
    exact ⟨hok, by omega⟩
  · simp [hneed] at h

theorem u64_rest {r : Reader} (h : r.u64.2.ok = true) :
    r.ok = true ∧ r.u64.2.rest.length + 8 = r.rest.length := by
  unfold u64 at h ⊢
  obtain ⟨hok, hfit, hneed⟩ | hneed := r.need_cases 8
  · simp only [hneed, List.length_drop]
    exact ⟨hok, by omega⟩
  · simp [hneed] at h

theorem blob_rest {r : Reader} (h : r.blob.2.ok = true) :
    r.ok = true ∧ r.blob.2.rest.length + r.blob.1.length + 4 = r.rest.length := by
  unfold blob at h ⊢
  obtain ⟨hok, hfit, hneed⟩ | hneed := r.u32.2.need_cases r.u32.1.toNat
  · obtain ⟨hr, hlen⟩ := u32_rest hok
    simp only [hneed, List.length_take, List.length_drop]
    exact ⟨hr, by omega⟩
  · simp [hneed] at h

end Reader

theorem readEvents_size {count : Nat} {r r' : Reader} {prev last : SeqNo} {evs evs' : List EventRecord}
    (h : readEvents count r prev evs = some (r', last, evs')) (hok : r'.ok = true) :
    r.ok = true ∧ (putEvents evs').length + r'.rest.length ≤ (putEvents evs).length + r.rest.length := by
  induction count generalizing r prev evs with
  | zero =>
    cases h
    exact ⟨hok, le_rfl⟩
  | succ count ih =>
    simp only [readEvents] at h
    split at h
    · cases h
      exact ⟨hok, le_rfl⟩
    · split at h
      · next hbad =>
        cases h
        simp [hok] at hbad
      · split at h
        · cases h
        · obtain ⟨hrecord, hle⟩ := ih h
          obtain ⟨hseq, hblob⟩ := Reader.blob_rest hrecord
          obtain ⟨hr, hlen⟩ := Reader.u64_rest hseq
          rw [putEvents_append_length, putEvents_cons_length, putEvents_nil, List.length_nil] at hle
          exact ⟨hr, by simp only at hle; omega⟩

/-- A record leaves the log alone or spends at least five of its bytes on something else. -/
theorem applyRecord_size {e e' : StoreEntry} {body : List UInt8} (h : applyRecord e body = some e') :
    e'.log = e.log ∨ (putEvents e'.log).length + 5 ≤ (putEvents e.log).length + body.length := by
  cases body with
  | nil => simp [applyRecord, Reader.u8, Reader.need, kFence, kSnapshot, kBatch] at h
  | cons kind body =>
    simp only [applyRecord, Reader.u8_cons] at h
    split at h
    · split at h
      · cases h
      · cases h
        exact Or.inl rfl
    · split at h
      · split at h
        · cases h
        · cases h
          exact Or.inl rfl
      · split at h
        · split at h
          · cases h
          · next hread =>
            split at h
            · cases h
            · next hdone =>
              cases h
              obtain ⟨hcount, hle⟩ := readEvents_size hread (by
                simp only [Bool.or_eq_true, not_or, Bool.not_eq_true'] at hdone
                simpa using hdone.1)
              obtain ⟨_, hlen⟩ := Reader.u32_rest hcount
              simp only [putEvents_nil, List.length_nil] at hle hlen
              simp only [StoreEntry.withBatch, putEvents_append_length, List.length_cons]
              exact Or.inr (by omega)
        · cases h

/-- Replaying bytes as frames leaves the log alone or spends at least thirteen of them on framing. -/
theorem replayLoop_size (fuel : Nat) (e : StoreEntry) (rest : List UInt8) (off : Nat) :
    (replayLoop fuel e rest off).entry.log = e.log ∨
      (putEvents (replayLoop fuel e rest off).entry.log).length + 13 ≤
        (putEvents e.log).length + rest.length := by
  induction fuel generalizing e rest off with
  | zero => exact Or.inl rfl
  | succ fuel ih =>
    simp only [replayLoop]
    split
    · exact Or.inl rfl
    · split
      · exact Or.inl rfl
      · next h8 hfit =>
        split
        · exact Or.inl rfl
        · split
          · exact Or.inl rfl
          · next e' ha =>
            have hbody := applyRecord_size ha
            have hloop := ih e' ((rest.drop 8).drop (getU32 rest).toNat)
              (off + 8 + (getU32 rest).toNat)
            simp only [List.length_take, List.length_drop] at hbody hloop h8 hfit ⊢
            rcases hbody with hbody | hbody
            · rw [hbody] at hloop
              rcases hloop with hloop | hloop
              · exact Or.inl hloop
              · exact Or.inr (by omega)
            · rcases hloop with hloop | hloop
              · rw [hloop]
                exact Or.inr (by omega)
              · exact Or.inr (by omega)

/-- A batch record whose length wraps in its header is not read back: the shorter record that the
header announces and what is left after it cannot hold all its events. -/
theorem replay_wrapped {e : StoreEntry} (he : e.log = []) {batch : List EventRecord}
    (hbig : 2 ^ 32 ≤ (batchBody batch).length) (fuel off : Nat) :
    (replayLoop fuel e (frame (batchBody batch)) off).entry.log ≠ batch := by
  have hsize := batchBody_length batch
  have hne : e.log ≠ batch := by
    rw [he]
    rintro rfl
    simp at hbig
  have hlen : (getU32 (frame (batchBody batch))).toNat = (batchBody batch).length % 2 ^ 32 := by
    rw [frame, List.append_assoc, getU32_putU32, UInt32.toNat_ofNat']
  cases fuel with
  | zero => exact hne
  | succ fuel =>
    simp only [replayLoop]
    split
    · exact hne
    · split
      · exact hne
      · split
        · exact hne
        · split
          · exact hne
          · next e' ha =>
            intro hall
            have hbody := applyRecord_size ha
            have hloop := replayLoop_size fuel e' ((List.drop 8 (frame (batchBody batch))).drop
              (getU32 (frame (batchBody batch))).toNat) (off + 8 + (getU32 (frame (batchBody batch))).toNat)
            rw [hall] at hloop
            rw [he, putEvents_nil] at hbody
            simp only [List.length_take, List.length_drop, frame_length, hlen, List.length_nil] at hbody hloop
            rcases hbody with hbody | hbody
            · rw [hbody] at hloop
              simp only [putEvents_nil, List.length_nil] at hloop
              rcases hloop with hloop | hloop
              · exact hne (by rw [he, hloop])
              · omega
            · rcases hloop with hloop | hloop
              · rw [← hloop] at hbody
                omega
              · omega

theorem settle_entry (pal : Pal) (file : List UInt8) (n : Nat) (r : Replayed) :
    (settle pal file n r).entry.toStoreEntry = r.entry ∧ (settle pal file n r).entry.corrupt = r.corrupt := by
  cases r with
  | mk e off corrupt => cases corrupt <;> exact ⟨rfl, rfl⟩

theorem load_entry (file : List UInt8) :
    (load {} (some file)).entry.toStoreEntry = (replayLoop file.length {} file 0).entry ∧
      (load {} (some file)).entry.corrupt = (replayLoop file.length {} file 0).corrupt :=
  settle_entry {} file file.length (replayLoop file.length {} file 0)

theorem CutFits.of_reopened {e : StoreEntry} (ho : Ordered e) {snap : SnapshotRecord} {throughSeq : SeqNo}
    (hs : e.snapshot = some snap)
    (hkeeps : KeepsAbove e throughSeq
      (load {} (some (Slot.compacted e snap (e.dropCount throughSeq)))).entry) :
    CutFits e throughSeq := by
  obtain ⟨hfilter, mid, hinc, hmid⟩ := surviving ho throughSeq
  obtain ⟨_, hsnap⟩ := ho.subsumed snap (by rw [hs]; rfl)
  have hlog := hkeeps.log
  have hintact := hkeeps.intact
  rw [hfilter] at hlog
  refine Or.inr ?_
  rw [hfilter]
  have habove : ∀ r ∈ e.log, throughSeq < r.seq → r ∈ e.log.drop (e.dropCount throughSeq) := by
    intro r hr hlt
    rw [← hfilter, List.mem_filter]
    exact ⟨hr, decide_eq_true hlt⟩
  by_cases hlen : e.dropCount throughSeq < e.log.length
  · have hfile : Slot.compacted e snap (e.dropCount throughSeq) =
        wal [fenceBody e.owner, snapshotBody snap] ++ frame (batchBody (e.log.drop (e.dropCount throughSeq))) := by
      simp [wal, Slot.compacted, hlen]
    obtain ⟨hentry, hcorrupt⟩ := load_entry (Slot.compacted e snap (e.dropCount throughSeq))
    have hfuel : ∃ fuel, (Slot.compacted e snap (e.dropCount throughSeq)).length = fuel + 1 + 2 := by
      refine ⟨(Slot.compacted e snap (e.dropCount throughSeq)).length - 3, ?_⟩
      rw [hfile, List.length_append, frame_length]
      omega
    obtain ⟨fuel, hfuel⟩ := hfuel
    have hbounded : ∀ body ∈ [fenceBody e.owner, snapshotBody snap], body.length < 2 ^ 32 := by
      simpa using hsnap
    have hreplay := replayLoop_wal hbounded (compactedHead_replays hsnap) (fuel + 1)
      (frame (batchBody (e.log.drop (e.dropCount throughSeq)))) 0
    rw [List.length_cons, List.length_singleton] at hreplay
    rw [hfuel, hfile, hreplay] at hentry hcorrupt
    by_cases hfit : (batchBody (e.log.drop (e.dropCount throughSeq))).length < 2 ^ 32
    · refine ⟨fun s hsome r hr hlt => ?_, hfit⟩
      cases hs.symm.trans hsome
      have hframe := replayLoop_frame hfit fuel (compactedHead e snap) []
        (0 + (wal [fenceBody e.owner, snapshotBody snap]).length)
      rw [List.append_nil, applyRecord_batch _ _ hfit] at hframe
      rw [hfile, hcorrupt, hframe] at hintact
      cases hinc' : StoreEntry.increasingFrom (compactedHead e snap).lastSeq
          (e.log.drop (e.dropCount throughSeq)) with
      | error err =>
        rw [hinc'] at hintact
        cases hintact
      | ok last => exact StoreEntry.lt_of_increasingFrom hinc' r (habove r hr hlt)
    · rw [hfile, hentry] at hlog
      exact absurd hlog (replay_wrapped rfl (Nat.le_of_not_lt hfit) _ _)
  · have hnil : e.log.drop (e.dropCount throughSeq) = [] := List.drop_eq_nil_of_le (by omega)
    rw [hnil]
    refine ⟨fun s hsome r hr hlt => ?_, by simp⟩
    have hmem := habove r hr hlt
    rw [hnil] at hmem
    cases hmem

/-- In every state that writes, reopens and crashes reach, a successful compaction keeps what a
reopened store serves exactly when the cut fits. -/
theorem reopened_keeps_above_iff (root : List Char) (events : List Crash.Event)
    (hb : ∀ ev ∈ events, ev.Bounded) (id : ActorId) (tok : FenceToken) (throughSeq : SeqNo)
    (hok : ((Crash.run { root := root } events).truncateLog {} id tok throughSeq).1 = .ok ()) :
    KeepsAbove ((Crash.run { root := root } events).entry {} id).entry.toStoreEntry throughSeq
        ((((Crash.run { root := root } events).truncateLog {} id tok throughSeq).2.reopen.entry {} id).entry) ↔
      CutFits ((Crash.run { root := root } events).entry {} id).entry.toStoreEntry throughSeq := by
  obtain ⟨kept, _, hrun⟩ := (Crash.Mirrors.empty root).run hb
  have hholds := hrun id
  rw [hholds.entry_eq]
  rw [truncateLog] at hok ⊢
  rw [reopen_put]
  refine ⟨fun hkeeps => ?_, fun hfits => ?_⟩
  · obtain ⟨snap, hs, _, hcase⟩ := Slot.truncateLog_ok hok
    rw [hholds.entry_eq] at hs hcase
    rcases hcase with ⟨hn, _⟩ | ⟨_, hnew⟩
    · obtain ⟨hfilter, _⟩ := surviving hholds.ordered throughSeq
      rw [hn, List.drop_zero, List.filter_eq_self] at hfilter
      exact Or.inl fun r hr => of_decide_eq_true (hfilter r hr)
    · rw [hnew] at hkeeps
      exact CutFits.of_reopened hholds.ordered hs hkeeps
  · obtain ⟨stale, hstale, hcut⟩ := hholds.truncateLog hok hfits
    rw [or_self] at hstale
    rw [hstale] at hcut
    have hload := load_holds healthy hcut.recovers Torn.nil
    obtain ⟨hfilter, _⟩ := surviving hholds.ordered throughSeq
    have heq := hload.entry_eq
    refine ⟨hload.intact, ?_, ?_, ?_, ?_⟩
    · rw [heq]; rfl
    · rw [heq]; rfl
    · rw [heq]; rfl
    · rw [heq, hfilter]; rfl

def twoEvents (through : SeqNo) : List Crash.Event :=
  [.call ⟨⟨7⟩, 1⟩ .acquireFence, .call ⟨⟨7⟩, 1⟩ (.append ⟨1⟩ 1 [10]), .call ⟨⟨7⟩, 1⟩ (.append ⟨1⟩ 2 [20]),
    .call ⟨⟨7⟩, 1⟩ (.saveSnapshot ⟨1⟩ { throughSeq := through, record := [30] })]

theorem twoEvents_bounded (through : SeqNo) : ∀ ev ∈ twoEvents through, ev.Bounded := by
  simp [twoEvents, Crash.Event.Bounded, StoreOp.Bounded, StoreOp.body, putEvents]

/-- A snapshot through 1 and a cut at 1: event 2 survives above both, and the log reads back. -/
theorem reopened_keeps_above_at_snapshot :
    KeepsAbove ((Crash.run {} (twoEvents 1)).entry {} ⟨⟨7⟩, 1⟩).entry.toStoreEntry 1
        ((((Crash.run {} (twoEvents 1)).truncateLog {} ⟨⟨7⟩, 1⟩ ⟨1⟩ 1).2.reopen.entry {} ⟨⟨7⟩, 1⟩).entry) ↔
      CutFits ((Crash.run {} (twoEvents 1)).entry {} ⟨⟨7⟩, 1⟩).entry.toStoreEntry 1 :=
  reopened_keeps_above_iff [] (twoEvents 1) (twoEvents_bounded 1) ⟨⟨7⟩, 1⟩ ⟨1⟩ 1 (by decide +kernel)

/-- A snapshot through 2 and a cut at 1: the compaction succeeds, and the next open finds the log
corrupt. -/
theorem truncateLog_below_snapshot :
    ((Crash.run {} (twoEvents 2)).truncateLog {} ⟨⟨7⟩, 1⟩ ⟨1⟩ 1).1 = .ok () ∧
      ¬ KeepsAbove ((Crash.run {} (twoEvents 2)).entry {} ⟨⟨7⟩, 1⟩).entry.toStoreEntry 1
        ((((Crash.run {} (twoEvents 2)).truncateLog {} ⟨⟨7⟩, 1⟩ ⟨1⟩ 1).2.reopen.entry {} ⟨⟨7⟩, 1⟩).entry) := by
  refine ⟨by decide +kernel, fun hkeeps => ?_⟩
  have hcorrupt : ((((Crash.run {} (twoEvents 2)).truncateLog {} ⟨⟨7⟩, 1⟩ ⟨1⟩ 1).2.reopen.entry {}
      ⟨⟨7⟩, 1⟩).entry).corrupt = true := by decide +kernel
  exact Bool.false_ne_true (hkeeps.intact.symm.trans hcorrupt)

end FileStore

end Quark
