import Quark.FileStoreCompaction

/-! Tails with unwritten bytes. A crash may leave the file longer than what reached the disk, and the
missing bytes read as zero. What replay then makes of the end of the file, for any bytes there. -/
namespace Quark.FileStore

open List Bytes

/-- What is left of `bs` when the bytes at the `lost` offsets never reached the disk. -/
def unwritten (lost : Nat → Bool) (bs : List UInt8) : List UInt8 :=
  bs.mapIdx fun i b => if lost i then 0 else b

/-- A tail that replay passes over: whole records, if any, that leave the entry as it is, and after
them a torn one. -/
def Harmless (e : StoreEntry) (tail : List UInt8) : Prop :=
  ∃ bodies rest, tail = wal bodies ++ rest ∧ (∀ body ∈ bodies, body.length < 2 ^ 32) ∧
    bodies.foldlM applyRecord e = some e ∧ Torn rest

theorem frame_of_header {bs : List UInt8} (h8 : 8 ≤ bs.length)
    (hfit : (getU32 bs).toNat ≤ (bs.drop 8).length)
    (hcrc : crc32 ((bs.drop 8).take (getU32 bs).toNat) = getU32 (bs.drop 4)) :
    bs = frame ((bs.drop 8).take (getU32 bs).toNat) ++ (bs.drop 8).drop (getU32 bs).toNat := by
  have hlen : ((bs.drop 8).take (getU32 bs).toNat).length = (getU32 bs).toNat := by
    rw [length_take, Nat.min_eq_left hfit]
  have hsize : putU32 (getU32 bs) = bs.take 4 := putU32_getU32 (by omega)
  have hsum : putU32 (getU32 (bs.drop 4)) = (bs.drop 4).take 4 :=
    putU32_getU32 (by rw [length_drop]; omega)
  have hrest : (bs.drop 4).drop 4 = bs.drop 8 := drop_drop
  rw [frame, hlen, UInt32.ofNat_toNat, hcrc, hsize, hsum, append_assoc, append_assoc,
    take_append_drop, ← hrest, take_append_drop, take_append_drop]

/-- Where the replay loop stops without calling the log corrupt, whole records lie behind it and a
torn tail before it. -/
theorem replayLoop_clean {fuel : Nat} {e : StoreEntry} {bs : List UInt8} {off : Nat}
    (hfuel : bs.length ≤ fuel) (hclean : (replayLoop fuel e bs off).corrupt = false) :
    ∃ bodies rest, bs = wal bodies ++ rest ∧ (∀ body ∈ bodies, body.length < 2 ^ 32) ∧
      bodies.foldlM applyRecord e = some (replayLoop fuel e bs off).entry ∧ Torn rest := by
  induction fuel generalizing e bs off with
  | zero =>
    have hnil : bs = [] := length_eq_zero_iff.mp (by omega)
    exact ⟨[], bs, rfl, by simp, rfl, hnil ▸ Torn.nil⟩
  | succ fuel ih =>
    by_cases htorn : Torn bs
    · rw [replayLoop_torn htorn]
      exact ⟨[], bs, rfl, by simp, rfl, htorn⟩
    · have h8 : 8 ≤ bs.length := by
        by_contra hshort
        exact htorn (Or.inl (by omega))
      have hfit : (getU32 bs).toNat ≤ (bs.drop 8).length := by
        rw [length_drop]
        by_contra hshort
        exact htorn (Or.inl (by omega))
      by_cases hcrc : crc32 ((bs.drop 8).take (getU32 bs).toNat) = getU32 (bs.drop 4)
      · have hframe := frame_of_header h8 hfit hcrc
        generalize hbody : (bs.drop 8).take (getU32 bs).toNat = body at hframe
        generalize hrest : (bs.drop 8).drop (getU32 bs).toNat = rest at hframe
        have hlt : body.length < 2 ^ 32 := by
          have hle := (getU32 bs).toNat_lt
          rw [← hbody, length_take]
          omega
        subst hframe
        rw [replayLoop_frame hlt] at hclean ⊢
        cases ha : applyRecord e body with
        | none =>
          rw [ha] at hclean
          cases hclean
        | some e' =>
          rw [ha] at hclean
          have hshort : rest.length ≤ fuel := by
            rw [length_append, frame_length] at hfuel
            omega
          obtain ⟨bodies, tail, rfl, hb, hr, ht⟩ := ih hshort hclean
          refine ⟨body :: bodies, tail, ?_, ?_, ?_, ht⟩
          · simp only [wal, flatMap_cons, append_assoc]
          · intro b hmem
            rcases mem_cons.mp hmem with rfl | hmem
            · exact hlt
            · exact hb b hmem
          · simp only [foldlM_cons, ha]
            exact hr
      · -- the bytes after a wrong checksum are none: otherwise the log would be corrupt
        exfalso
        have hnot8 : ¬ bs.length < 8 := by omega
        have hnotfit : ¬ (bs.drop 8).length < (getU32 bs).toNat := by omega
        simp only [replayLoop, hnot8, hnotfit, if_false, ne_eq, hcrc, not_false_eq_true, if_true,
          decide_eq_false_iff_not] at hclean
        apply htorn
        right
        rw [length_drop] at hclean hfit
        refine ⟨by omega, ?_⟩
        rwa [take_of_length_le (by rw [length_drop]; omega)] at hcrc

structure Serves (loaded : Entry) (e : StoreEntry) : Prop where
  intact : loaded.corrupt = false
  entry_eq : loaded.toStoreEntry = e

theorem Slot.Holds.serves {s : Slot} {e : StoreEntry} {stale : List UInt8} (h : s.Holds e stale) :
    Serves s.entry e := ⟨h.intact, h.entry_eq⟩

/-- A file of whole records with anything behind them is served as the records alone would be exactly
when what is behind them is harmless. -/
theorem load_serves_iff {bodies : List (List UInt8)} {e : StoreEntry}
    (hbounded : ∀ body ∈ bodies, body.length < 2 ^ 32) (hreplays : bodies.foldlM applyRecord {} = some e)
    (tail : List UInt8) : Serves (load {} (some (wal bodies ++ tail))).entry e ↔ Harmless e tail := by
  have hfuel : (wal bodies ++ tail).length =
      ((wal bodies ++ tail).length - bodies.length) + bodies.length := by
    have hle := length_le_wal bodies
    rw [length_append]
    omega
  have hloop : replayLoop (wal bodies ++ tail).length {} (wal bodies ++ tail) 0 =
      replayLoop ((wal bodies ++ tail).length - bodies.length) e tail (0 + (wal bodies).length) := by
    conv_lhs => rw [hfuel]
    exact replayLoop_wal hbounded hreplays _ _ _
  have hload := load_entry (wal bodies ++ tail)
  rw [hloop] at hload
  constructor
  · rintro ⟨hintact, hentry⟩
    have hclean := hload.2.symm.trans hintact
    have hroom : tail.length ≤ (wal bodies ++ tail).length - bodies.length := by
      have hle := length_le_wal bodies
      rw [length_append]
      omega
    obtain ⟨more, rest, htail, hb, hr, ht⟩ := replayLoop_clean hroom hclean
    exact ⟨more, rest, htail, hb, by rw [hr, ← hload.1, hentry], ht⟩
  · rintro ⟨more, rest, rfl, hb, hr, ht⟩
    have hmore : (wal bodies ++ (wal more ++ rest)).length - bodies.length =
        ((wal bodies ++ (wal more ++ rest)).length - bodies.length - more.length) + more.length := by
      have hle := length_le_wal bodies
      have hle' := length_le_wal more
      rw [length_append, length_append]
      omega
    rw [hmore, replayLoop_wal hb hr, replayLoop_torn ht] at hload
    exact ⟨hload.2, hload.1⟩

/-- The records of a log are acknowledged and say `e`; one more frame was being written when the process
died, its first `k` bytes belong to the file and those at the `lost` offsets read as zero. The next
open serves `e` and does not call the log corrupt exactly when these bytes are harmless. -/
theorem unwritten_tail_dropped_iff (bodies : List (List UInt8)) (e : StoreEntry)
    (hbounded : ∀ body ∈ bodies, body.length < 2 ^ 32) (hreplays : bodies.foldlM applyRecord {} = some e)
    (body : List UInt8) (k : Nat) (lost : Nat → Bool) :
    Serves (load {} (some (wal bodies ++ unwritten lost ((frame body).take k)))).entry e ↔
      Harmless e (unwritten lost ((frame body).take k)) :=
  load_serves_iff hbounded hreplays _

/-- A log of one fence; of the next fence's frame eleven bytes, the third to the tenth of them lost. -/
theorem unwritten_tail_dropped_part :
    Serves (load {} (some (wal [fenceBody ⟨1⟩] ++
        unwritten (fun i => decide (2 ≤ i ∧ i < 10)) ((frame (fenceBody ⟨2⟩)).take 11)))).entry { owner := ⟨1⟩ } ↔
      Harmless { owner := ⟨1⟩ }
        (unwritten (fun i => decide (2 ≤ i ∧ i < 10)) ((frame (fenceBody ⟨2⟩)).take 11)) :=
  unwritten_tail_dropped_iff [fenceBody ⟨1⟩] { owner := ⟨1⟩ } (by simp)
    (by simp [applyRecord_fence, StoreEntry.withOwner])
    (fenceBody ⟨2⟩) 11 _

/-- A log of one fence. All bytes of the next fence's frame are lost: the header that reads as zero is a
frame of length 0 whose checksum matches, and the log is called corrupt. -/
theorem zeroed_tail_corrupts :
    [fenceBody ⟨1⟩].foldlM applyRecord {} = some { owner := ⟨1⟩ } ∧
      ¬ Serves (load {} (some (wal [fenceBody ⟨1⟩] ++
        unwritten (fun _ => true) ((frame (fenceBody ⟨2⟩)).take 17)))).entry { owner := ⟨1⟩ } := by
  refine ⟨by decide +kernel, fun hserves => ?_⟩
  have hcorrupt : (load {} (some (wal [fenceBody ⟨1⟩] ++
      unwritten (fun _ => true) ((frame (fenceBody ⟨2⟩)).take 17)))).entry.corrupt = true := by decide +kernel
  exact Bool.false_ne_true (hserves.intact.symm.trans hcorrupt)

/-- The process dies inside an append of the write `op`, and the store is opened again. -/
def crashUnwritten (st : FileStore) (id : ActorId) (op : StoreOp) (k : Nat) (lost : Nat → Bool) : FileStore :=
  let s := st.entry {} id
  let bs := unwritten lost ((frame (op.body s.entry.toStoreEntry)).take k)
  (st.put id { s with file := some (writeAt s.bytes bs s.entry.writeOff) }).reopen

/-- The same for every actor of a store, in every state that writes, reopens and crashes reach. -/
theorem crashUnwritten_serves_iff (root : List Char) (events : List Crash.Event)
    (hb : ∀ ev ∈ events, ev.Bounded) (id : ActorId) (op : StoreOp) (k : Nat) (lost : Nat → Bool) :
    (∀ other, Serves ((crashUnwritten (Crash.run { root := root } events) id op k lost).entry {} other).entry
        ((Crash.run { root := root } events).entry {} other).entry.toStoreEntry) ↔
      Harmless ((Crash.run { root := root } events).entry {} id).entry.toStoreEntry
        (unwritten lost ((frame (op.body
          ((Crash.run { root := root } events).entry {} id).entry.toStoreEntry)).take k)) := by
  obtain ⟨kept, _, hrun⟩ := (Crash.Mirrors.empty root).run hb
  generalize Crash.run { root := root } events = st at hrun
  generalize InMemoryStore.run {} kept = mem at hrun
  have hother : ∀ other, other ≠ id → Serves ((crashUnwritten st id op k lost).entry {} other).entry
      (st.entry {} other).entry.toStoreEntry := by
    intro other hne
    rw [crashUnwritten, reopen_put_ne _ _ _ hne, (hrun other).entry_eq]
    exact (hrun.reopen other).serves
  obtain ⟨bodies, hj, hfile, hoff⟩ := (hrun id).journaled
  rw [append_nil] at hfile
  rw [(hrun id).entry_eq]
  have hself : (crashUnwritten st id op k lost).entry {} id =
      load {} (some (wal bodies ++ unwritten lost ((frame (op.body (mem.entry id))).take k))) := by
    have hwrite := writeAt_append (wal bodies) [] (unwritten lost ((frame (op.body (mem.entry id))).take k))
    rw [append_nil, drop_nil, append_nil] at hwrite
    simp only [crashUnwritten, reopen_put, Slot.bytes, hfile, hoff, Option.getD_some, (hrun id).entry_eq, hwrite]
  have hiff := load_serves_iff hj.bounded hj.replays (unwritten lost ((frame (op.body (mem.entry id))).take k))
  constructor
  · intro h
    apply hiff.mp
    have hid := h id
    rwa [hself, (hrun id).entry_eq] at hid
  · intro h other
    by_cases hne : other = id
    · subst hne
      rw [hself, (hrun other).entry_eq]
      exact hiff.mpr h
    · exact hother other hne

theorem crashUnwritten_serves_iff_fenced :
    let id : ActorId := ⟨⟨7⟩, 1⟩
    let st := Crash.run {} [.call id .acquireFence]
    let lost (i : Nat) := decide (2 ≤ i)
    (∀ other, Serves ((crashUnwritten st id .acquireFence 11 lost).entry {} other).entry
    (st.entry {} other).entry.toStoreEntry) ↔
      Harmless (st.entry {} id).entry.toStoreEntry
        (unwritten lost ((frame (StoreOp.acquireFence.body (st.entry {} id).entry.toStoreEntry)).take 11)) :=
  crashUnwritten_serves_iff [] _ (by simp [Crash.Event.Bounded, StoreOp.Bounded, StoreOp.body]) _ _ 11 _

end Quark.FileStore
