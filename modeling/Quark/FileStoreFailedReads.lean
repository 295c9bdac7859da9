import Quark.BackupRestore

/-! Reads of a file store whose file layer fails to open or to read: what an entry is loaded with, and what every read
then makes of it. -/
namespace Quark.FileStore

open Function List Option FileStore AList

/-- The loop of `snapshot_to`, where the file layer may treat every log in its own way. -/
def backupAll (pal : ActorId → Pal) (st : FileStore) (done : List (Sigma fun _ : ActorId => StoreEntry)) :
    List ActorId → Result (List (Sigma fun _ : ActorId => StoreEntry)) × FileStore
  | [] => (.ok done, st)
  | id :: ids =>
    let s := st.entry (pal id) id
    if s.entry.corrupt then (corruptError, st.put id s)
    else backupAll pal (st.put id s) (done ++ [⟨id, s.entry.toStoreEntry⟩]) ids

def snapshotAll (pal : ActorId → Pal) (st : FileStore) : Result BackupImage × FileStore :=
  let r := st.backupAll pal [] st.actorIds
  (r.1.map imageOf, r.2)

inductive Read
  | lastSeq (id : ActorId)
  | loadSnapshot (id : ActorId)
  | readLog (id : ActorId) (from_ : SeqNo)
  | snapshotTo
  deriving DecidableEq, Repr

namespace Read

def after (pal : ActorId → Pal) (st : FileStore) : Read → FileStore
  | lastSeq id | loadSnapshot id | readLog id _ => st.touch (pal id) id
  | snapshotTo => (st.snapshotAll pal).2

def touches (st : FileStore) : Read → List ActorId
  | lastSeq id | loadSnapshot id | readLog id _ => [id]
  | snapshotTo => st.actorIds

end Read

/-- The records that lie within the first `k` bytes of a log. -/
def within : Nat → List (List UInt8) → List (List UInt8)
  | _, [] => []
  | k, body :: bodies =>
    if (frame body).length ≤ k then body :: within (k - (frame body).length) bodies else []

def seen (pal : Pal) (bodies : List (List UInt8)) : List (List UInt8) :=
  if pal.opens then
    match pal.readError with
    | none => bodies
    | some k => within k bodies
  else []

def told (bodies : List (List UInt8)) : StoreEntry := (bodies.foldlM applyRecord {}).getD {}

/-- A closed store, whose files hold the records and perhaps the torn rest of an append. -/
structure Directory (st : FileStore) (records : ActorId →
    List (List UInt8)) (acked : ActorId → StoreEntry) : Prop where
  closed : st.table = ∅
  named : ∀ path ∈ st.disk, ∃ id, path = st.pathFor id
  journaled : ∀ id, Journals (records id) (acked id)
  files : ∀ id, ∃ tail, Torn tail ∧ (st.disk.lookup (st.pathFor id)).getD [] = wal (records id) ++ tail

/-- A store, and the records that the first touch of an actor read. -/
structure Watch where
  store : FileStore
  held : ActorId → Option (List (List UInt8)) := fun _ => none

namespace Watch

variable (records : ActorId → List (List UInt8)) (pal : ActorId → Pal)

/-- What a read works with: what was read at the first touch, which may be this one. -/
def view (w : Watch) (id : ActorId) : List (List UInt8) := (w.held id).getD (seen (pal id) (records id))

def touch (w : Watch) (id : ActorId) : Watch where
  store := w.store.touch (pal id) id
  held := update w.held id (some (w.view records pal id))

def step (w : Watch) (c : Read × (ActorId → Pal)) : Option Watch :=
  some { store := c.1.after c.2 w.store
         held := ((c.1.touches w.store).foldl (touch records c.2) w).held }

end Watch

section

variable {pal : Pal} {bodies : List (List UInt8)} {e : StoreEntry} {tail : List UInt8} {k : Nat}

theorem within_prefix : within k bodies <+: bodies := by
  induction bodies generalizing k with
  | nil => exact prefix_rfl
  | cons body bodies ih =>
    unfold within
    split
    · exact prefix_cons_inj body |>.mpr ih
    · exact nil_prefix

theorem seen_prefix (pal : Pal) (bodies : List (List UInt8)) : seen pal bodies <+: bodies := by
  unfold seen
  split
  · cases pal.readError with
    | none => exact prefix_rfl
    | some k => exact within_prefix
  · exact nil_prefix

theorem Torn.take (h : Torn tail) (k : Nat) : Torn (tail.take k) := by
  by_cases hk : tail.length ≤ k
  · rw [take_of_length_le hk]
    exact h
  · have hlen : (tail.take k).length = k := by
      rw [length_take]
      omega
    refine .inl ?_
    by_cases h8 : k < 8
    · omega
    · have hhead : Bytes.getU32 (tail.take k) = Bytes.getU32 tail := by
        have htake : (tail.take k).take 4 = tail.take 4 := by rw [take_take, Nat.min_eq_left (by omega)]
        rw [Bytes.getU32, htake, ← Bytes.getU32]
      rw [hlen, hhead]
      rcases h with h | ⟨h, -⟩ <;> omega

theorem take_wal (hbounded : ∀ body ∈ bodies, body.length < 2 ^ 32) (htorn : Torn tail) (k : Nat) :
    ∃ rest, Torn rest ∧ (wal bodies ++ tail).take k = wal (within k bodies) ++ rest := by
  induction bodies generalizing k with
  | nil => exact ⟨tail.take k, htorn.take k, rfl⟩
  | cons body bodies ih =>
    have hwal : wal (body :: bodies) ++ tail = frame body ++ (wal bodies ++ tail) := by
      rw [← append_assoc]
      rfl
    unfold within
    split
    · next hfits =>
      obtain ⟨rest, hrest, heq⟩ := ih (fun b hb => hbounded b (mem_cons_of_mem _ hb)) (k - (frame body).length)
      refine ⟨rest, hrest, ?_⟩
      rw [hwal, take_append, take_of_length_le hfits, heq, ← append_assoc]
      rfl
    · next hcut =>
      refine ⟨(frame body).take k, .take_frame (hbounded body mem_cons_self) (Nat.lt_of_not_le hcut), ?_⟩
      rw [hwal, take_append_of_le_length (Nat.le_of_not_le hcut)]
      rfl

theorem told_of_front {bodies' : List (List UInt8)} (h : bodies.foldlM applyRecord {} = some e)
    (hfront : bodies' <+: bodies) :
    bodies'.foldlM applyRecord {} = some (told bodies') := by
  obtain ⟨rest, rfl⟩ := hfront
  rw [foldlM_append] at h
  obtain ⟨mid, hmid, -⟩ := bind_eq_some_iff.mp h
  rw [told, hmid, getD_some]

/-- Whatever fails, a log is never marked corrupt: the entry says what was read. -/
theorem load_seen (hj : Journals bodies e) (htorn : Torn tail) {file : Option (List UInt8)}
    (hfile : file.getD [] = wal bodies ++ tail) :
    (load pal file).entry.corrupt = false ∧ (load pal file).entry.toStoreEntry = told (seen pal bodies) := by
  unfold load seen
  cases hopens : pal.opens with
  | false => exact ⟨rfl, rfl⟩
  | true =>
    obtain ⟨rest, hrest, hdata⟩ : ∃ rest, Torn rest ∧ readAll pal (file.getD []) =
        wal (match pal.readError with | none => bodies | some k => within k bodies) ++ rest := by
      unfold readAll
      cases pal.readError with
      | none => exact ⟨tail, htorn, hfile⟩
      | some k =>
        rw [hfile]
        exact take_wal hj.bounded htorn k
    generalize hread : (match pal.readError with | none => bodies | some k => within k bodies) = read at hdata ⊢
    have hfront : read <+: bodies := by
      rw [← hread]
      cases pal.readError with
      | none => exact prefix_rfl
      | some k => exact within_prefix
    have hloop : replayLoop (wal read ++ rest).length {} (wal read ++ rest) 0 =
        { entry := told read, off := (wal read).length } := by
      have hle := length_le_wal read
      obtain ⟨fuel, hfuel⟩ : ∃ fuel, (wal read ++ rest).length = fuel + read.length :=
        ⟨(wal read ++ rest).length - read.length, by rw [length_append]; omega⟩
      rw [hfuel, replayLoop_wal (fun body hbody => hj.bounded body (hfront.subset hbody))
        (told_of_front hj.replays hfront), replayLoop_torn hrest, zero_add]
    rw [if_pos rfl, if_pos rfl, replay, hdata, hloop]
    exact ⟨rfl, rfl⟩

end

/-- What a run of reads keeps: an entry says what the first touch read, and a log that was not touched is as
it was. -/
structure Tracks (records : ActorId → List (List UInt8)) (w : Watch) : Prop where
  named : ∀ path ∈ w.store.disk, ∃ id, path = w.store.pathFor id
  present : ∀ id, records id ≠ [] → w.store.pathFor id ∈ w.store.disk
  loaded : ∀ id bodies, w.held id = some bodies → bodies <+: records id ∧
    ∃ e, w.store.table.lookup id = some e ∧ e.corrupt = false ∧ e.toStoreEntry = told bodies
  unloaded : ∀ id, w.held id = none → w.store.table.lookup id = none ∧
    ∃ tail, Torn tail ∧ (w.store.disk.lookup (w.store.pathFor id)).getD [] = wal (records id) ++ tail

section

variable {st : FileStore} {records : ActorId → List (List UInt8)} {acked : ActorId → StoreEntry} {w w' : Watch}
variable {pal : ActorId → Pal} {id : ActorId} {ids : List ActorId} {done : List (Sigma fun _ : ActorId => StoreEntry)}

theorem told_eq (hdir : Directory st records acked) (id : ActorId) : told (records id) = acked id := by
  rw [told, (hdir.journaled id).replays, getD_some]

theorem Directory.tracks (h : Directory st records acked) : Tracks records { store := st } where
  named := h.named
  present id hid := by
    by_contra hout
    obtain ⟨tail, -, hfile⟩ := h.files id
    rw [lookup_eq_none.mpr hout, getD_none] at hfile
    have hle := length_le_wal (records id)
    rw [(append_eq_nil_iff.mp hfile.symm).1, length_nil] at hle
    exact hid (length_eq_zero_iff.mp (Nat.le_zero.mp hle))
  loaded id bodies hheld := by cases hheld
  unloaded id _ := ⟨by rw [h.closed]; rfl, h.files id⟩

theorem Tracks.viewed (h : Tracks records w) (hdir : Directory st records acked) (pal : ActorId → Pal)
    (id : ActorId) : (w.store.entry (pal id) id).entry.corrupt = false ∧
      (w.store.entry (pal id) id).entry.toStoreEntry = told (w.view records pal id) ∧
      w.view records pal id <+: records id := by
  unfold Watch.view
  cases hheld : w.held id with
  | none =>
    obtain ⟨hnone, tail, htorn, hfile⟩ := h.unloaded id hheld
    obtain ⟨hintact, hentry⟩ := @load_seen (pal id) _ _ _ (hdir.journaled id) htorn _ hfile
    rw [entry, hnone]
    exact ⟨hintact, hentry, seen_prefix _ _⟩
  | some bodies =>
    obtain ⟨hfront, e, he, hintact, hentry⟩ := h.loaded id bodies hheld
    rw [entry, he]
    exact ⟨hintact, hentry, hfront⟩

theorem entry_file (pal : Pal) (h : st.pathFor id ∈ st.disk) : (st.entry pal id).file ≠ none := by
  obtain ⟨file, hfile⟩ := isSome_iff_exists.mp (lookup_isSome.mpr h)
  unfold entry
  rw [hfile]
  cases st.table.lookup id with
  | some e => exact some_ne_none _
  | none =>
    unfold load replay settle
    dsimp only
    split
    · split <;> exact some_ne_none _
    · exact some_ne_none _

theorem held_touch : (w.touch records pal id).held id = some (w.view records pal id) := update_self id _ w.held

theorem held_touch_ne {other : ActorId} (h : other ≠ id) : (w.touch records pal id).held other = w.held other :=
  update_of_ne h _ w.held

theorem Tracks.touch (h : Tracks records w) (hdir : Directory st records acked) (id : ActorId) :
    Tracks records (w.touch records pal id) := by
  obtain ⟨hintact, hentry, hfront⟩ := h.viewed hdir pal id
  refine ⟨fun path hpath => ?_, fun other hother => ?_, fun other bodies hheld => ?_, fun other hheld => ?_⟩
  · rcases mem_put hpath with rfl | hin
    · exact ⟨id, rfl⟩
    · exact h.named path hin
  · have hin := h.present other hother
    refine lookup_isSome.mp (isSome_iff_ne_none.mpr ?_)
    by_cases heq : other = id
    · subst heq
      change (w.store.put other _).disk.lookup (w.store.pathFor other) ≠ none
      rw [file_put]
      exact entry_file (pal other) hin
    · change (w.store.put id _).disk.lookup (w.store.pathFor other) ≠ none
      rw [file_put_ne w.store _ heq]
      exact isSome_iff_ne_none.mp (lookup_isSome.mpr hin)
  · by_cases heq : other = id
    · subst heq
      rw [held_touch] at hheld
      cases hheld
      exact ⟨hfront, _, table_put w.store other _, hintact, hentry⟩
    · rw [held_touch_ne heq] at hheld
      obtain ⟨hpre, e, he, hrest⟩ := h.loaded other bodies hheld
      exact ⟨hpre, e, (table_put_ne w.store _ heq).trans he, hrest⟩
  · by_cases heq : other = id
    · subst heq
      rw [held_touch] at hheld
      cases hheld
    · rw [held_touch_ne heq] at hheld
      obtain ⟨hnone, tail, htorn, hfile⟩ := h.unloaded other hheld
      exact ⟨(table_put_ne w.store _ heq).trans hnone, tail, htorn,
        (congrArg (·.getD []) (file_put_ne w.store _ heq)).trans hfile⟩

theorem Tracks.touches (h : Tracks records w) (hdir : Directory st records acked) (ids : List ActorId) :
    Tracks records (ids.foldl (Watch.touch records pal) w) := by
  induction ids generalizing w with
  | nil => exact h
  | cons id ids ih => exact ih (h.touch hdir id)

theorem view_touch {other : ActorId} :
    (w.touch records pal id).view records pal other = w.view records pal other := by
  by_cases heq : other = id
  · subst heq
    rw [Watch.view, held_touch, getD_some]
  · rw [Watch.view, held_touch_ne heq, ← Watch.view]

/-- No log is corrupt, so that `snapshot_to` goes through: it touches every actor listed. -/
theorem backupAll_ok (h : Tracks records w) (hdir : Directory st records acked) : w.store.backupAll pal done ids =
    (.ok (done ++ ids.map fun id => ⟨id, told (w.view records pal id)⟩),
    (ids.foldl (Watch.touch records pal) w).store) := by
  induction ids generalizing w done with
  | nil => rw [map_nil, append_nil, backupAll, foldl_nil]
  | cons id ids ih =>
    obtain ⟨hintact, hentry, -⟩ := h.viewed hdir pal id
    unfold backupAll
    dsimp only
    rw [hintact, if_neg Bool.false_ne_true, hentry]
    refine (ih (h.touch hdir id)).trans ?_
    rw [append_assoc, map_cons, foldl_cons]
    simp only [view_touch, singleton_append]

theorem Tracks.step (h : Tracks records w) (hdir : Directory st records acked) {c : Read × (ActorId → Pal)}
    (hstep : w.step records c = some w') : Tracks records w' := by
  cases hstep
  have htouched : Tracks records ((c.1.touches w.store).foldl (Watch.touch records c.2) w) := h.touches hdir _
  have hstore : c.1.after c.2 w.store = ((c.1.touches w.store).foldl (Watch.touch records c.2) w).store := by
    cases c.1 with
    | lastSeq id | loadSnapshot id | readLog id from_ => rfl
    | snapshotTo =>
      rw [Read.after, snapshotAll, backupAll_ok h hdir]
      rfl
  rw [hstore]
  exact htouched

/-- The image of `snapshot_to` is the cut of what was acknowledged exactly when all of it is what was read. -/
theorem cut_iff (h : Tracks records w) (hdir : Directory st records acked) :
    Cut acked (imageOf (w.store.actorIds.map fun id => ⟨id, told (w.view records pal id)⟩)) ↔
      ∀ id, told (w.view records pal id) = acked id := by
  obtain ⟨hnodup, hmem⟩ := mem_actorIds h.named
  have hids : (w.store.actorIds.map fun id => (⟨id, told (w.view records pal id)⟩ : Sigma fun _ : ActorId =>
    StoreEntry)).map
      Sigma.fst = w.store.actorIds := by
    rw [List.map_map]
    exact List.map_id _
  constructor
  · intro hcut id
    by_cases hid : records id = []
    · obtain ⟨-, -, hfront⟩ := h.viewed hdir pal id
      rw [hid, prefix_nil] at hfront
      rw [hfront, ← told_eq hdir, hid]
    · have hin : (backupOf id (told (w.view records pal id))) ∈
          (imageOf (w.store.actorIds.map fun id => ⟨id, told (w.view records pal id)⟩)).actors :=
        mem_map.mpr ⟨_, mem_map.mpr ⟨id, (hmem id).mpr (h.present id hid), rfl⟩, rfl⟩
      exact congrArg (fun a : ActorBackup => a.entry a.owner) (hcut.taken _ hin)
  · intro hall
    refine cut_imageOf (by rw [hids]; exact hnodup) (fun e he => ?_) fun id hid => ?_
    · obtain ⟨id, -, rfl⟩ := mem_map.mp he
      exact hall id
    · rw [hids, hmem] at hid
      by_contra hne
      refine hid (h.present id fun hnil => hne ?_)
      rw [← told_eq hdir, hnil]
      rfl

end

/-- An answer that is no error is a right one. -/
def Settles {α : Type} (r : Result α) (right : α → Prop) : Prop := ∀ v, r = .ok v → right v

/-- After any reads of a directory, whatever failed in them: a read answers with what was acknowledged, or
with an error, exactly when the records that the first touch of the actor could read say the same as all of
its records. -/
theorem reads_agree_iff {st : FileStore} {records : ActorId → List (List UInt8)}
    {acked : ActorId → StoreEntry} {w : Watch}
    (hdir : Directory st records acked) (hreach : Machine.Reachable (Watch.step records) { store := st } w)
    (pal : ActorId → Pal) :
    (∀ id, Settles (w.store.loadSnapshot (pal id) id) (fun snap => snap = (acked id).snapshot) ↔
      (told (w.view records pal id)).snapshot = (acked id).snapshot) ∧
    (∀ id from_, Settles (w.store.readLog (pal id) id from_) (fun evs => evs = (acked id).log.filter fun ev =>
      from_ ≤ ev.seq) ↔
      (told (w.view records pal id)).log.filter (fun ev => from_ ≤ ev.seq) = (acked id).log.filter fun ev =>
        from_ ≤ ev.seq) ∧
    (Settles (w.store.snapshotAll pal).1 (Cut acked) ↔ ∀ id, told (w.view records pal id) = acked id) := by
  have htracks : Tracks records w :=
    hreach.invariant hdir.tracks fun w c w' hw hstep => hw.step hdir hstep
  refine ⟨fun id => ?_, fun id from_ => ?_, ?_⟩
  · obtain ⟨hintact, hentry, -⟩ := htracks.viewed hdir pal id
    rw [Settles, loadSnapshot, hintact, if_neg Bool.false_ne_true, hentry]
    exact ⟨fun h => h _ rfl, fun h v hv => Except.ok.inj hv ▸ h⟩
  · obtain ⟨hintact, hentry, -⟩ := htracks.viewed hdir pal id
    rw [Settles, readLog, hintact, if_neg Bool.false_ne_true, hentry]
    exact ⟨fun h => h _ rfl, fun h v hv => Except.ok.inj hv ▸ h⟩
  · rw [snapshotAll, backupAll_ok htracks hdir, nil_append, ← cut_iff htracks hdir]
    exact ⟨fun h => h _ rfl, fun h v hv => Except.ok.inj hv ▸ h⟩

def oneLog : List (List UInt8) :=
  [fenceBody ⟨1⟩, batchBody [⟨1, [10]⟩], snapshotBody ⟨⟨1⟩, 1, [5]⟩]

def oneDirectory : FileStore where
  disk := (∅ : AList fun _ : List Char => List UInt8).insert (({} : FileStore).pathFor ⟨⟨7⟩, 1⟩) (wal oneLog)

def oneRecords (id : ActorId) : List (List UInt8) := if id = ⟨⟨7⟩, 1⟩ then oneLog else []

theorem oneDirectory_holds : Directory oneDirectory oneRecords fun id => told (oneRecords id) where
  closed := rfl
  named path hpath := by
    rcases (mem_insert _).mp hpath with rfl | hpath
    · exact ⟨⟨⟨7⟩, 1⟩, rfl⟩
    · exact absurd hpath (notMem_empty path)
  journaled id := by
    unfold oneRecords
    split
    · exact ⟨by decide, by decide +kernel, ⟨0, by decide +kernel⟩, by decide +kernel⟩
    · exact Journals.nil
  files id := by
    refine ⟨[], Torn.nil, ?_⟩
    rw [append_nil, oneRecords]
    split
    · next hid =>
      have hfile : oneDirectory.disk.lookup (oneDirectory.pathFor ⟨⟨7⟩, 1⟩) = some (wal oneLog) := lookup_insert ∅
      rw [hid, hfile, getD_some]
    · next hid =>
      have hpath : oneDirectory.pathFor id ≠ oneDirectory.pathFor ⟨⟨7⟩, 1⟩ :=
        fun h => hid (pathFor_injective oneDirectory h)
      have hfile : oneDirectory.disk.lookup (oneDirectory.pathFor id) = none := lookup_insert_ne hpath
      rw [hfile]
      rfl

/-- The first read opened and read the log: later ones do not depend on the file layer. -/
theorem reads_agree_opened : ∃ w, Watch.step oneRecords { store := oneDirectory }
    (.loadSnapshot ⟨⟨7⟩, 1⟩, fun _ => {}) = some w ∧
    Settles (w.store.loadSnapshot { opens := false } ⟨⟨7⟩, 1⟩) (fun snap => snap = some ⟨⟨1⟩, 1, [5]⟩) ∧
    Settles (w.store.snapshotAll fun _ => { opens := false }).1 (Cut fun id => told (oneRecords id)) := by
  obtain ⟨w, hw⟩ : ∃ w, Watch.step oneRecords { store := oneDirectory } (.loadSnapshot ⟨⟨7⟩, 1⟩,
      fun _ => {}) = some w :=
    ⟨_, rfl⟩
  have hheld : w.held = update (fun _ => none) ⟨⟨7⟩, 1⟩ (some oneLog) := by
    rw [← some.inj hw]
    rfl
  obtain ⟨hsnap, -, himage⟩ := reads_agree_iff oneDirectory_holds (.step .start trivial hw) fun _ =>
      { opens := false }
  have hread : ∀ id, told (w.view oneRecords (fun _ => { opens := false }) id) = told (oneRecords id) := by
    intro id
    unfold Watch.view oneRecords
    rw [hheld]
    by_cases hid : id = ⟨⟨7⟩, 1⟩
    · rw [hid, update_self, if_pos rfl, getD_some]
    · rw [if_neg hid, update_of_ne hid]
      rfl
  have hfive : (told (oneRecords ⟨⟨7⟩, 1⟩)).snapshot = some ⟨⟨1⟩, 1, [5]⟩ := by decide +kernel
  refine ⟨w, hw, ?_, himage.mpr hread⟩
  rw [← hfive]
  exact (hsnap ⟨⟨7⟩, 1⟩).mpr (congrArg StoreEntry.snapshot (hread ⟨⟨7⟩, 1⟩))

/-- The log cannot be opened at first: the actor has no snapshot and no events, in the image as well. -/
theorem unopened_reads_empty :
    oneDirectory.loadSnapshot { opens := false } ⟨⟨7⟩, 1⟩ = .ok none ∧
    oneDirectory.readLog { opens := false } ⟨⟨7⟩, 1⟩ 0 = .ok [] ∧
    (oneDirectory.snapshotAll fun _ => { opens := false }).1 = .ok { actors := [{ id := ⟨⟨7⟩, 1⟩ }] } ∧
    (oneDirectory.touch { opens := false } ⟨⟨7⟩, 1⟩).loadSnapshot {} ⟨⟨7⟩, 1⟩ = .ok none ∧
    told (oneRecords ⟨⟨7⟩, 1⟩) =
      { owner := ⟨1⟩, lastSeq := 1, snapshot := some ⟨⟨1⟩, 1, [5]⟩, log := [⟨1, [10]⟩] } := by
  decide +kernel

end Quark.FileStore
