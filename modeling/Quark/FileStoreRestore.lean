import Quark.BackupCodec
import Quark.FileStoreCompaction

/-! `restore_from` of the file store: one file for each actor of the image, and what a reopened store makes of it. -/
open List Option

namespace Quark.FileStore

open Bytes

/-- `<16 hex>-<16 hex>.qwal` -/
def isLogName (name : List Char) : Bool :=
  name.length == 38 && name.drop 33 == ['.', 'q', 'w', 'a', 'l'] && name.getD 16 ' ' == '-' &&
    (name.take 16 ++ (name.drop 17).take 16).all fun c => c.isDigit || ('a' ≤ c && c ≤ 'f') || ('A' ≤ c && c ≤ 'F')

def nameOf (st : FileStore) (path : List Char) : Option (List Char) :=
  if path.take (st.root.length + 1) = st.root ++ ['/'] then some (path.drop (st.root.length + 1)) else none

def holdsLogs (st : FileStore) : Bool :=
  st.disk.entries.any fun f => (st.nameOf f.1).any isLogName && !f.2.isEmpty

def restoredBodies (a : ActorBackup) (ep : FencingEpoch) : List (List UInt8) :=
  fenceBody ep :: ((if a.log = [] then [] else [batchBody a.log]) ++ (a.snapshot.map snapshotBody).toList)

def restoredFile (a : ActorBackup) (ep : FencingEpoch) : List UInt8 := (restoredBodies a ep).flatMap frame

def writeActor (st : FileStore) (a : ActorBackup) (ep : FencingEpoch) : FileStore :=
  { st with
    disk := st.disk.insert (st.pathFor a.id)
      (writeAt ((st.disk.lookup (st.pathFor a.id)).getD []) (restoredFile a ep) 0) }

def undo (st : FileStore) (written : List (List Char)) : FileStore :=
  { st with disk := written.foldl (fun disk path => disk.erase path) st.disk }

/-- The loop of `restore_from`: the files are written one after another, the entries are staged. -/
def restoreActors (pal : ActorId → Pal) (st : FileStore) (ep : FencingEpoch) (staged : List (ActorId × Entry))
    (written : List (List Char)) : List ActorBackup → Result FencingEpoch × FileStore
  | [] => (.ok ep, { st with table := staged.foldl (fun t e => t.insert e.1 e.2) st.table })
  | a :: actors =>
    if (pal a.id).opens = false then (fail .internal "FileStore: restore: cannot create actor log", st.undo written)
    else
      let written := st.pathFor a.id :: written
      match (pal a.id).append with
      | .failed _ => (fail .internal "FileStore: restore: durable write failed", st.undo written)
      | .flushed =>
        let e : Entry := { toStoreEntry := a.entry ep, fd := true, writeOff := (restoredFile a ep).length }
        restoreActors pal (st.writeActor a ep) ep (staged ++ [(a.id, e)]) written actors

def restoreFrom (pal : ActorId → Pal) (st : FileStore) (img : BackupImage) (minEpoch : FencingEpoch) :
    Result FencingEpoch × FileStore :=
  if st.table.entries ≠ [] then (fail .validation "restore_from: target store is not empty", st)
  else match validateBackup img with
    | .error err => (.error err, st)
    | .ok () =>
      if st.holdsLogs then (fail .validation "restore_from: target directory already holds actor logs", st)
      else st.restoreActors pal (restoreEpoch img minEpoch) [] [] img.actors

section

variable {st : FileStore} {pal : ActorId → Pal} {ep : FencingEpoch} {staged : List (ActorId × Entry)}
variable {written : List (List Char)} {actors : List ActorBackup} {a : ActorBackup} {id : ActorId}

def Writes (pal : ActorId → Pal) : Prop := ∀ id, (pal id).opens = true ∧ (pal id).append = .flushed

theorem restoreActors_ok (hpal : Writes pal) : ∃ st', st.restoreActors pal ep staged written actors = (.ok ep, st') ∧
    st'.root = st.root ∧ (∀ id, (∀ a ∈ actors, a.id ≠ id) →
    st'.disk.lookup (st.pathFor id) = st.disk.lookup (st.pathFor id)) ∧
    ((actors.map ActorBackup.id).Nodup → ∀ a ∈ actors, st'.disk.lookup (st.pathFor a.id) =
      some (writeAt ((st.disk.lookup (st.pathFor a.id)).getD []) (restoredFile a ep) 0)) := by
  induction actors generalizing st staged written with
  | nil => exact ⟨_, rfl, rfl, fun _ _ => rfl, by simp⟩
  | cons b actors ih =>
    obtain ⟨hopens, hflushed⟩ := hpal b.id
    obtain ⟨st', hst', hroot, hother, hsame⟩ := @ih (st.writeActor b ep)
      (staged ++ [(b.id, { toStoreEntry := b.entry ep, fd := true, writeOff := (restoredFile b ep).length })])
      (st.pathFor b.id :: written)
    have hpath : ∀ {id}, id ≠ b.id →
        (st.writeActor b ep).disk.lookup (st.pathFor id) = st.disk.lookup (st.pathFor id) :=
      fun hne => AList.lookup_insert_ne fun heq => hne (pathFor_injective st heq)
    refine ⟨st', ?_, hroot, fun id hid => ?_, fun hnodup a ha => ?_⟩
    · unfold restoreActors
      rw [hopens, if_neg (by decide)]
      dsimp only
      rw [hflushed]
      exact hst'
    · exact (hother id fun a ha => hid a (mem_cons_of_mem _ ha)).trans (hpath (Ne.symm (hid b mem_cons_self)))
    · obtain ⟨hnew, hnodup⟩ := nodup_cons.mp hnodup
      rcases mem_cons.mp ha with rfl | ha
      · refine (hother a.id fun c hc heq => hnew (mem_map.mpr ⟨c, hc, heq⟩)).trans ?_
        exact AList.lookup_insert _
      · have hne : a.id ≠ b.id := fun heq => hnew (mem_map.mpr ⟨a, ha, heq⟩)
        have hfile := hsame hnodup a ha
        change st'.disk.lookup (st.pathFor a.id) =
          some (writeAt (((st.writeActor b ep).disk.lookup (st.pathFor a.id)).getD []) _ 0) at hfile
        rw [hpath hne] at hfile
        exact hfile

theorem hexDigits_hex (n v : Nat) : ∀ c ∈ hexDigits n v,
    (c.isDigit || ('a' ≤ c && c ≤ 'f') || ('A' ≤ c && c ≤ 'F')) = true := by
  have hdigit : ∀ d < 16, (Nat.digitChar d).isDigit || ('a' ≤ Nat.digitChar d && Nat.digitChar d ≤ 'f') ||
      ('A' ≤ Nat.digitChar d && Nat.digitChar d ≤ 'F') := by decide
  induction n generalizing v with
  | zero => simp [hexDigits]
  | succ n ih =>
    intro c hc
    rw [hexDigits] at hc
    rcases mem_append.mp hc with hc | hc
    · exact ih _ c hc
    · rw [mem_singleton.mp hc]
      exact hdigit _ (Nat.mod_lt _ (by decide))

theorem nameOf_append (st : FileStore) (name : List Char) : st.nameOf (st.root ++ '/' :: name) = some name := by
  have hlen : (st.root ++ ['/']).length = st.root.length + 1 := by
    rw [length_append, length_singleton]
  rw [nameOf, append_cons, take_left' hlen, drop_left' hlen, if_pos rfl]

theorem nameOf_pathFor (st : FileStore) (id : ActorId) : st.nameOf (st.pathFor id) =
    some (hexDigits 16 id.type.value.toNat ++ '-' :: (hexDigits 16 id.key.toNat ++ ['.', 'q', 'w', 'a', 'l'])) :=
  nameOf_append st _

theorem isLogName_name (t k : Nat) :
    isLogName (hexDigits 16 t ++ '-' :: (hexDigits 16 k ++ ['.', 'q', 'w', 'a', 'l'])) = true := by
  have ht := hexDigits_length 16 t
  have hk := hexDigits_length 16 k
  have hdrop : (hexDigits 16 t ++ '-' :: (hexDigits 16 k ++ ['.', 'q', 'w', 'a', 'l'])).drop 17 =
      hexDigits 16 k ++ ['.', 'q', 'w', 'a', 'l'] := by
    rw [append_cons, drop_left' (by rw [length_append, ht, length_singleton])]
  have hsuffix : (hexDigits 16 t ++ '-' :: (hexDigits 16 k ++ ['.', 'q', 'w', 'a', 'l'])).drop 33 =
      ['.', 'q', 'w', 'a', 'l'] := by
    rw [show 33 = 17 + 16 from rfl, ← drop_drop, hdrop, drop_left' hk]
  have hdash : (hexDigits 16 t ++ '-' :: (hexDigits 16 k ++ ['.', 'q', 'w', 'a', 'l'])).getD 16 ' ' = '-' := by
    rw [getD_eq_getElem?_getD, getElem?_append_right ht.le, ht]
    rfl
  unfold isLogName
  rw [hsuffix, hdrop, hdash, take_left' ht, take_left' hk]
  have hhex : (hexDigits 16 t ++ hexDigits 16 k).all
      (fun c => c.isDigit || ('a' ≤ c && c ≤ 'f') || ('A' ≤ c && c ≤ 'F')) = true := by
    rw [all_append, Bool.and_eq_true]
    exact ⟨all_eq_true.mpr (hexDigits_hex 16 t), all_eq_true.mpr (hexDigits_hex 16 k)⟩
  rw [hhex]
  simp [ht, hk]

theorem empty_log (h : st.holdsLogs = false) (id : ActorId) : (st.disk.lookup (st.pathFor id)).getD [] = [] := by
  cases hfile : st.disk.lookup (st.pathFor id) with
  | none => rfl
  | some file =>
    have hmem : (⟨st.pathFor id, file⟩ : Sigma fun _ : List Char => List UInt8) ∈ st.disk.entries :=
      AList.mem_lookup_iff.mp hfile
    have hnot := any_eq_false.mp h _ hmem
    rw [nameOf_pathFor, any_some, isLogName_name, Bool.true_and] at hnot
    simpa using hnot

end

namespace Reader

def more (r : Reader) (q : List UInt8) : Reader := { r with rest := r.rest ++ q }

variable {r : Reader} (q : List UInt8)

theorem u32_more (h : r.u32.2.ok = true) : (r.more q).u32 = (r.u32.1, r.u32.2.more q) := by
  obtain ⟨hok, hlen⟩ := u32_rest h
  have hfit : 4 ≤ r.rest.length := by omega
  simp only [u32, need, more, hok, length_append, decide_eq_true (show 4 ≤ r.rest.length + q.length by omega),
    decide_eq_true hfit, Bool.and_self, if_true, getU32, take_append_of_le_length hfit,
    drop_append_of_le_length hfit]

theorem u64_more (h : r.u64.2.ok = true) : (r.more q).u64 = (r.u64.1, r.u64.2.more q) := by
  obtain ⟨hok, hlen⟩ := u64_rest h
  have hfit : 8 ≤ r.rest.length := by omega
  simp only [u64, need, more, hok, length_append, decide_eq_true (show 8 ≤ r.rest.length + q.length by omega),
    decide_eq_true hfit, Bool.and_self, if_true, getU64, take_append_of_le_length hfit,
    drop_append_of_le_length hfit]

theorem blob_more (h : r.blob.2.ok = true) : (r.more q).blob = (r.blob.1, r.blob.2.more q) := by
  simp only [blob] at h ⊢
  by_cases hn : (r.u32.2.ok && decide (r.u32.1.toNat ≤ r.u32.2.rest.length)) = true
  · obtain ⟨hok, hfit⟩ := (Bool.and_eq_true _ _).mp hn
    have hfit := of_decide_eq_true hfit
    have hmore : r.u32.1.toNat ≤ r.u32.2.rest.length + q.length := by omega
    rw [u32_more q hok]
    simp only [need, more, hok, length_append, decide_eq_true hmore, decide_eq_true hfit, Bool.and_self, if_true,
      take_append_of_le_length hfit, drop_append_of_le_length hfit]
  · simp [need, hn] at h

theorem done_more (hq : q ≠ []) : (r.more q).done = false := by
  cases q with
  | nil => exact absurd rfl hq
  | cons b q => simp [more, done]

end Reader

theorem readEvents_more {count : Nat} {r r' : Reader} {prev last : SeqNo} {evs evs' : List EventRecord}
    (h : readEvents count r prev evs = some (r', last, evs')) (hok : r'.ok = true) (q : List UInt8) :
    readEvents count (r.more q) prev evs = some (r'.more q, last, evs') := by
  induction count generalizing r prev evs with
  | zero =>
    cases h
    rfl
  | succ count ih =>
    have hr : r.ok = true := (readEvents_size h hok).1
    simp only [readEvents, hr, Bool.not_true, Bool.false_eq_true, if_false] at h ⊢
    split at h
    · next hbad =>
      cases h
      simp [hok] at hbad
    · split at h
      · cases h
      · next hrecord hless =>
        have hblob : r.u64.2.blob.2.ok = true := by simpa using hrecord
        have hmore := Reader.u64_more q (Reader.blob_rest hblob).1
        have hmore' := Reader.blob_more q hblob
        have hok' : (r.more q).ok = true := hr
        rw [hok', hmore]
        simp only [Bool.not_true, Bool.false_eq_true, if_false, hmore', hless]
        rw [if_neg (by simpa [Reader.more] using hrecord)]
        exact ih h

theorem applyRecord_prefix {e e' : StoreEntry} {p : List UInt8} (h : applyRecord e p = some e') {q : List UInt8}
    (hq : q ≠ []) : applyRecord e (p ++ q) = none := by
  cases p with
  | nil => simp [applyRecord, Reader.u8, Reader.need, kFence, kSnapshot, kBatch] at h
  | cons kind p =>
    have hmore : ({ rest := p ++ q } : Reader) = ({ rest := p } : Reader).more q := rfl
    have hnot : ∀ r : Reader, (!(r.more q).ok || !(r.more q).done) = true := fun r => by
      rw [Reader.done_more q hq]
      simp
    simp only [applyRecord, cons_append, Reader.u8_cons] at h ⊢
    rw [hmore]
    split at h
    · next hfence =>
      rw [if_pos hfence]
      split at h
      · cases h
      · next hdone =>
        simp only [Bool.or_eq_true, not_or, Bool.not_eq_true'] at hdone
        rw [Reader.u64_more q (by simpa using hdone.1)]
        exact if_pos (hnot _)
    · next hfence =>
      rw [if_neg hfence]
      split at h
      · next hsnap =>
        rw [if_pos hsnap]
        split at h
        · cases h
        · next hdone =>
          simp only [Bool.or_eq_true, not_or, Bool.not_eq_true'] at hdone
          have hblob : ({ rest := p } : Reader).u64.2.u64.2.blob.2.ok = true := by simpa using hdone.1
          have hthrough := (Reader.blob_rest hblob).1
          have hfencetok := (Reader.u64_rest hthrough).1
          rw [Reader.u64_more q hfencetok]
          dsimp only
          rw [Reader.u64_more q hthrough]
          dsimp only
          rw [Reader.blob_more q hblob]
          exact if_pos (hnot _)
      · next hsnap =>
        rw [if_neg hsnap]
        split at h
        · next hbatch =>
          rw [if_pos hbatch]
          split at h
          · cases h
          · next r prev evs hread =>
            split at h
            · cases h
            · next hdone =>
              simp only [Bool.or_eq_true, not_or, Bool.not_eq_true'] at hdone
              have hok : r.ok = true := by simpa using hdone.1
              have hcount := (readEvents_size hread hok).1
              rw [Reader.u32_more q hcount]
              dsimp only
              rw [readEvents_more hread hok q]
              exact if_pos (hnot _)
        · cases h

/-- The header of a record of 4 GiB or more announces only its beginning: the log is taken for corrupt. -/
theorem load_wrapped {bodies : List (List UInt8)} {e e' : StoreEntry} {body rest : List UInt8}
    (hb : ∀ b ∈ bodies, b.length < 2 ^ 32) (hr : bodies.foldlM applyRecord {} = some e)
    (hbody : applyRecord e body = some e') (hbig : 2 ^ 32 ≤ body.length) :
    (load {} (some (wal bodies ++ (frame body ++ rest)))).entry.corrupt = true := by
  have hpos := length_le_wal bodies
  obtain ⟨fuel, hfuel⟩ : ∃ fuel, (wal bodies ++ (frame body ++ rest)).length = fuel + 1 + bodies.length := by
    refine ⟨(wal bodies ++ (frame body ++ rest)).length - 1 - bodies.length, ?_⟩
    rw [length_append, length_append, frame_length]
    omega
  rw [(load_entry _).2, hfuel, replayLoop_wal hb hr]
  have hlen : (getU32 (frame body ++ rest)).toNat = body.length % 2 ^ 32 := by
    rw [frame, append_assoc, append_assoc, getU32_putU32, UInt32.toNat_ofNat']
  have htail : (frame body ++ rest).drop 8 = body ++ rest := by
    rw [frame, append_assoc (_ ++ _), drop_left' (by simp)]
  have hless : body.length % 2 ^ 32 < body.length := (Nat.mod_lt _ (by decide)).trans_le hbig
  unfold replayLoop
  dsimp only
  rw [hlen, htail, if_neg (by rw [length_append, frame_length]; omega), if_neg (by rw [length_append]; omega)]
  split
  · exact decide_eq_true (by rw [length_append]; omega)
  · have hcut : applyRecord e ((body ++ rest).take (body.length % 2 ^ 32)) = none := by
      rw [take_append_of_le_length hless.le]
      cases hshort : applyRecord e (body.take (body.length % 2 ^ 32)) with
      | none => rfl
      | some e'' =>
        have hdrop : body.drop (body.length % 2 ^ 32) ≠ [] := by
          intro hnil
          have hzero := congrArg List.length hnil
          rw [length_drop, length_nil] at hzero
          omega
        have hnone := applyRecord_prefix hshort hdrop
        rw [take_append_drop, hbody] at hnone
        cases hnone
    rw [hcut]

theorem load_wal {bodies : List (List UInt8)} {e : StoreEntry} (hb : ∀ b ∈ bodies, b.length < 2 ^ 32)
    (hr : bodies.foldlM applyRecord {} = some e) :
    (load {} (some (wal bodies))).entry.toStoreEntry = e ∧ (load {} (some (wal bodies))).entry.corrupt = false := by
  obtain ⟨hentry, hcorrupt⟩ := load_entry (wal bodies)
  have hpos := length_le_wal bodies
  obtain ⟨fuel, hfuel⟩ : ∃ fuel, (wal bodies).length = fuel + bodies.length :=
    ⟨(wal bodies).length - bodies.length, by omega⟩
  have hloop := replayLoop_wal hb hr fuel [] 0
  rw [append_nil, replayLoop_torn Torn.nil] at hloop
  rw [hentry, hcorrupt, hfuel, hloop]
  exact ⟨rfl, rfl⟩

end Quark.FileStore

namespace Quark

theorem StoreEntry.last_of_increasingFrom {xs : List EventRecord} {base last : SeqNo}
    (h : increasingFrom base xs = .ok last) : (xs.getLast?.map EventRecord.seq).getD base = last := by
  induction xs generalizing base with
  | nil =>
    cases h
    rfl
  | cons r xs ih =>
    simp only [increasingFrom] at h
    split at h
    · cases h
    · rw [← ih h]
      cases xs with
      | nil => rfl
      | cons r' xs =>
        rw [getLast?_cons_cons, getLast?_eq_some_getLast (cons_ne_nil r' xs)]
        rfl

/-- The log or the snapshot says what `last_seq` is, and no record outgrows its frame. -/
structure ActorBackup.Durable (a : ActorBackup) : Prop where
  last : a.lastSeq = (a.log.getLast?.map EventRecord.seq).getD 0 ∨
    a.snapshot.map SnapshotRecord.throughSeq = some a.lastSeq
  batch : (FileStore.batchBody a.log).length < 2 ^ 32
  snapshot : ∀ s ∈ a.snapshot, (FileStore.snapshotBody s).length < 2 ^ 32

namespace FileStore

open Bytes

section

variable {a : ActorBackup} {ep : FencingEpoch}

def restoredHead (a : ActorBackup) (ep : FencingEpoch) : List (List UInt8) :=
  fenceBody ep :: if a.log = [] then [] else [batchBody a.log]

theorem restoredHead_replays (hbatch : (batchBody a.log).length < 2 ^ 32) {last : SeqNo}
    (hinc : StoreEntry.increasingFrom 0 a.log = .ok last) : (∀ b ∈ restoredHead a ep, b.length < 2 ^ 32) ∧
    (restoredHead a ep).foldlM applyRecord {} = some { owner := ep, lastSeq := last, log := a.log } := by
  unfold restoredHead
  split
  · next hnil =>
    rw [hnil] at hinc
    cases hinc
    refine ⟨by simp, ?_⟩
    rw [foldlM_cons, applyRecord_fence, hnil]
    rfl
  · refine ⟨by simpa using hbatch, ?_⟩
    rw [foldlM_cons, applyRecord_fence, bind_eq_bind, bind_some, foldlM_cons,
      applyRecord_batch _ _ hbatch]
    simp only [StoreEntry.withOwner, hinc]
    rfl

theorem restoredFile_eq : restoredFile a ep =
    wal (restoredHead a ep) ++ wal (a.snapshot.map snapshotBody).toList := by
  rw [restoredFile, restoredBodies, restoredHead, wal, wal, ← flatMap_append, cons_append]

/-- The file of an actor reads back as its image just if the image is durable. -/
theorem load_restored (hvalid : a.Valid) (hsmall : a.Small) :
    ((load {} (some (restoredFile a ep))).entry.toStoreEntry = a.entry ep ∧
      (load {} (some (restoredFile a ep))).entry.corrupt = false) ↔ a.Durable := by
  obtain ⟨last, hinc, hlast⟩ := hvalid.increasing
  have htail := StoreEntry.last_of_increasingFrom hinc
  by_cases hbatch : (batchBody a.log).length < 2 ^ 32
  · obtain ⟨hbounded, hreplays⟩ := @restoredHead_replays a ep hbatch last hinc
    cases hsnap : a.snapshot with
    | none =>
      obtain ⟨hentry, hintact⟩ := load_wal hbounded hreplays
      have hfile : restoredFile a ep = wal (restoredHead a ep) := by
        rw [restoredFile_eq, hsnap]
        exact append_nil _
      rw [hfile, hentry]
      constructor
      · rintro ⟨hsame, -⟩
        exact ⟨.inl (by rw [htail]; exact (congrArg StoreEntry.lastSeq hsame).symm), hbatch, by simp [hsnap]⟩
      · intro hdurable
        have heq : a.lastSeq = last := by
          rw [← htail]
          exact hdurable.last.resolve_right (by simp [hsnap])
        refine ⟨?_, hintact⟩
        rw [ActorBackup.entry, heq, hsnap]
    | some s =>
      have hfile : restoredFile a ep = wal (restoredHead a ep) ++ (frame (snapshotBody s) ++ []) := by
        rw [restoredFile_eq, hsnap]
        rfl
      have hrecord := applyRecord_snapshot { owner := ep, lastSeq := last, log := a.log } s (hsmall.snapshot s hsnap)
      by_cases hs : (snapshotBody s).length < 2 ^ 32
      · have hall : ∀ b ∈ restoredHead a ep ++ [snapshotBody s], b.length < 2 ^ 32 := by
          intro b hb
          rcases mem_append.mp hb with hb | hb
          · exact hbounded b hb
          · rw [mem_singleton.mp hb]
            exact hs
        have hreplays' : (restoredHead a ep ++ [snapshotBody s]).foldlM applyRecord {} = some
            { owner := ep, lastSeq := if last < s.throughSeq then s.throughSeq else last, snapshot := some s,
              log := a.log } := by
          rw [foldlM_append, hreplays, bind_eq_bind, bind_some, foldlM_cons, hrecord]
          rfl
        obtain ⟨hentry, hintact⟩ := load_wal hall hreplays'
        have hwal : restoredFile a ep = wal (restoredHead a ep ++ [snapshotBody s]) := by
          rw [hfile, wal_snoc, append_nil]
        have hthrough := hvalid.subsumed s hsnap
        rw [hwal, hentry]
        constructor
        · rintro ⟨hsame, -⟩
          refine ⟨?_, hbatch, fun t ht => by cases hsnap.symm.trans ht; exact hs⟩
          have hseq : (if last < s.throughSeq then s.throughSeq else last) = a.lastSeq :=
            congrArg StoreEntry.lastSeq hsame
          split at hseq
          · exact .inr (by rw [hsnap, ← hseq]; rfl)
          · exact .inl (by rw [htail, hseq])
        · intro hdurable
          have hseq : (if last < s.throughSeq then s.throughSeq else last) = a.lastSeq := by
            obtain hlog | hsnapshot := hdurable.last
            · rw [htail] at hlog
              rw [hlog] at hthrough ⊢
              exact if_neg (UInt64.not_lt.mpr hthrough)
            · rw [hsnap] at hsnapshot
              have heq : s.throughSeq = a.lastSeq := some.inj hsnapshot
              rw [heq]
              split
              · rfl
              · next hnot => exact UInt64.le_antisymm hlast (UInt64.not_lt.mp hnot)
          refine ⟨?_, hintact⟩
          rw [hseq, ActorBackup.entry, hsnap]
      · refine iff_of_false (fun h => ?_) fun hdurable => hs (hdurable.snapshot s hsnap)
        rw [hfile, load_wrapped hbounded hreplays hrecord (not_lt.mp hs)] at h
        exact Bool.noConfusion h.2
  · refine iff_of_false (fun h => ?_) fun hdurable => hbatch hdurable.batch
    have hlog : a.log ≠ [] := fun hnil => hbatch (by rw [hnil]; decide)
    have hfile : restoredFile a ep =
        wal [fenceBody ep] ++ (frame (batchBody a.log) ++ wal (a.snapshot.map snapshotBody).toList) := by
      rw [restoredFile_eq, restoredHead, if_neg hlog, ← append_assoc]
      simp [wal]
    have hfence : [fenceBody ep].foldlM applyRecord {} = some ({ owner := ep } : StoreEntry) := by
      rw [foldlM_cons, applyRecord_fence]
      rfl
    have hbody := applyRecord_events { owner := ep } a.log hsmall.count hsmall.events
    rw [hinc] at hbody
    rw [hfile, load_wrapped (by simp) hfence hbody (not_lt.mp hbatch)] at h
    exact Bool.noConfusion h.2

end

/-- An image restored into an empty file store reads back after a reopening as it was restored in memory just if
each of its actors is durable. -/
theorem reopened_restore_iff (st : FileStore) (pal : ActorId → Pal) (img : BackupImage) (minEpoch : FencingEpoch)
    (hvalid : validateBackup img = .ok ()) (hsmall : ∀ a ∈ img.actors, a.Small) (htable : st.table.entries = [])
    (hdisk : st.holdsLogs = false) (hpal : Writes pal) :
    ((st.restoreFrom pal img minEpoch).1 = (({} : InMemoryStore).restoreFrom img minEpoch).1 ∧
      ∀ id, ((st.restoreFrom pal img minEpoch).2.reopen.entry {} id).entry.toStoreEntry =
          (({} : InMemoryStore).restoreFrom img minEpoch).2.entry id ∧
        ((st.restoreFrom pal img minEpoch).2.reopen.entry {} id).entry.corrupt = false) ↔
      ∀ a ∈ img.actors, a.Durable := by
  obtain ⟨hactors, hnodup⟩ := validateBackup_ok.mp hvalid
  obtain ⟨st', hst', hroot, hother, hsame⟩ :=
    @restoreActors_ok st pal (restoreEpoch img minEpoch) [] [] img.actors hpal
  have hrestore : st.restoreFrom pal img minEpoch = (.ok (restoreEpoch img minEpoch), st') := by
    unfold restoreFrom
    rw [if_neg (fun hne => hne htable), hvalid]
    dsimp only
    rw [hdisk, if_neg (by decide)]
    exact hst'
  rw [hrestore, InMemoryStore.restoreFrom_empty hvalid]
  have hreopen : ∀ id, st'.reopen.entry {} id = load {} (some ((st'.disk.lookup (st.pathFor id)).getD [])) := by
    intro id
    have hpath : st'.pathFor id = st.pathFor id := by rw [pathFor, pathFor, hroot]
    rw [← hpath]
    rfl
  have hmember : ∀ a ∈ img.actors, st'.reopen.entry {} a.id =
      load {} (some (restoredFile a (restoreEpoch img minEpoch))) := by
    intro a ha
    have hwrite : ∀ out : List UInt8, writeAt [] out 0 = out := fun out => by simp [writeAt]
    rw [hreopen, hsame hnodup a ha, empty_log hdisk, hwrite]
    rfl
  have hstranger : ∀ id, (∀ a ∈ img.actors, a.id ≠ id) → st'.reopen.entry {} id = load {} (some []) := by
    intro id hid
    rw [hreopen, hother id hid, empty_log hdisk]
  constructor
  · rintro ⟨-, hall⟩ a ha
    have hboth := hall a.id
    rw [hmember a ha, restored_entry hnodup ha] at hboth
    exact (load_restored (hactors a ha) (hsmall a ha)).mp hboth
  · intro hdurable
    refine ⟨rfl, fun id => ?_⟩
    by_cases hin : ∃ a ∈ img.actors, a.id = id
    · obtain ⟨a, ha, rfl⟩ := hin
      rw [hmember a ha, restored_entry hnodup ha]
      exact (load_restored (hactors a ha) (hsmall a ha)).mpr (hdurable a ha)
    · have hid : ∀ a ∈ img.actors, a.id ≠ id := fun a ha heq => hin ⟨a, ha, heq⟩
      rw [hstranger id hid, restored_other hid]
      exact ⟨rfl, rfl⟩

def oneEvent (lastSeq : SeqNo) : BackupImage where
  epoch := ⟨1⟩
  actors := [{ id := ⟨⟨7⟩, 1⟩, owner := ⟨1⟩, lastSeq, log := [⟨1, [10]⟩] }]

theorem oneEvent_small (lastSeq : SeqNo) : ∀ a ∈ (oneEvent lastSeq).actors, a.Small := by
  intro a ha
  rw [mem_singleton.mp ha]
  exact ⟨by simp, by simp, by simp⟩

theorem reopened_restore_one_event :
    ((({} : FileStore).restoreFrom (fun _ => {}) (oneEvent 1) ⟨0⟩).1 =
        (({} : InMemoryStore).restoreFrom (oneEvent 1) ⟨0⟩).1 ∧
      ∀ id, ((({} : FileStore).restoreFrom (fun _ => {}) (oneEvent 1) ⟨0⟩).2.reopen.entry {} id).entry.toStoreEntry =
          (({} : InMemoryStore).restoreFrom (oneEvent 1) ⟨0⟩).2.entry id ∧
        ((({} : FileStore).restoreFrom (fun _ => {}) (oneEvent 1) ⟨0⟩).2.reopen.entry
        {} id).entry.corrupt = false) := by
  refine (reopened_restore_iff {} (fun _ => {}) (oneEvent 1) ⟨0⟩ (by decide) (oneEvent_small 1) rfl rfl
    fun _ => ⟨rfl, rfl⟩).mpr fun a ha => ?_
  rw [mem_singleton.mp ha]
  exact ⟨by decide, by decide, by simp⟩

/-- The validator lets `last_seq` be ahead of the log; the reopened store has lost it. -/
theorem restored_last_seq_lost : validateBackup (oneEvent 5) = .ok () ∧
    ((({} : InMemoryStore).restoreFrom (oneEvent 5) ⟨0⟩).2.entry ⟨⟨7⟩, 1⟩).lastSeq = 5 ∧
    ((({} : FileStore).restoreFrom (fun _ => {}) (oneEvent 5) ⟨0⟩).2.reopen.entry {} ⟨⟨7⟩, 1⟩).entry.lastSeq = 1 := by
  decide +kernel

end FileStore

end Quark
