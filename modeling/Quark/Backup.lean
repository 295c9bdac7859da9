import Quark.Persistence

/-! Backup images of `persistence.hpp`: what a store hands out at a cut, the check that an image must pass, and the
fencing epoch that a restore installs. -/
namespace Quark

open List

abbrev FencingEpoch := FenceToken

structure ActorBackup where
  id : ActorId
  owner : FenceToken := ⟨0⟩
  lastSeq : SeqNo := 0
  snapshot : Option SnapshotRecord := none
  log : List EventRecord := []
  deriving DecidableEq, Repr

structure BackupImage where
  epoch : FencingEpoch := ⟨0⟩
  actors : List ActorBackup := []
  deriving DecidableEq, Repr

/-- What a restore puts into the table. -/
def ActorBackup.entry (a : ActorBackup) (ep : FencingEpoch) : StoreEntry :=
  { owner := ep, lastSeq := a.lastSeq, snapshot := a.snapshot, log := a.log }

def ActorBackup.raise (a : ActorBackup) (m : UInt64) : UInt64 :=
  match a.snapshot with
  | none => max m a.owner.value
  | some s => max (max m a.owner.value) s.fence.value

def restoreEpoch (img : BackupImage) (minEpoch : FencingEpoch) : FencingEpoch :=
  ⟨img.actors.foldl (fun m a => a.raise m) (max img.epoch.value minEpoch.value) + 1⟩

def validateActor (a : ActorBackup) : Result Unit :=
  match StoreEntry.increasingFrom 0 a.log with
  | .error _ => fail .validation "backup: log seq not strictly increasing"
  | .ok prev =>
    if a.lastSeq < prev then fail .validation "backup: log ahead of last_seq"
    else if a.snapshot.any (fun s => a.lastSeq < s.throughSeq) then
      fail .validation "backup: snapshot ahead of last_seq"
    else .ok ()

def validateActors (seen : List ActorId) : List ActorBackup → Result Unit
  | [] => .ok ()
  | a :: actors =>
    if a.id ∈ seen then fail .validation "backup: duplicate actor id"
    else match validateActor a with
      | .error err => .error err
      | .ok () => validateActors (a.id :: seen) actors

def validateBackup (img : BackupImage) : Result Unit := validateActors [] img.actors

def backupOf (id : ActorId) (e : StoreEntry) : ActorBackup :=
  { id, owner := e.owner, lastSeq := e.lastSeq, snapshot := e.snapshot, log := e.log }

def imageOf (entries : List (Sigma fun _ : ActorId => StoreEntry)) : BackupImage where
  epoch := ⟨entries.foldl (fun m e => max m e.2.owner.value) 0⟩
  actors := entries.map fun e => backupOf e.1 e.2

namespace InMemoryStore

def SnapshotTo (st : InMemoryStore) (img : BackupImage) : Prop :=
  ∃ entries, entries.Perm st.table.entries ∧ img = imageOf entries

def restoreFrom (st : InMemoryStore) (img : BackupImage) (minEpoch : FencingEpoch) :
    Result FencingEpoch × InMemoryStore :=
  if st.table.entries ≠ [] then (fail .validation "restore_from: target store is not empty", st)
  else match validateBackup img with
    | .error err => (.error err, st)
    | .ok () =>
      (.ok (restoreEpoch img minEpoch),
        img.actors.foldl (fun st a => st.put a.id (a.entry (restoreEpoch img minEpoch))) st)

end InMemoryStore

/-- What the check of one actor asks for. -/
structure ActorBackup.Valid (a : ActorBackup) : Prop where
  increasing : ∃ last, StoreEntry.increasingFrom 0 a.log = .ok last ∧ last ≤ a.lastSeq
  subsumed : ∀ s ∈ a.snapshot, s.throughSeq ≤ a.lastSeq

theorem validateActor_ok {a : ActorBackup} : validateActor a = .ok () ↔ a.Valid := by
  unfold validateActor
  cases hlog : StoreEntry.increasingFrom 0 a.log with
  | error err =>
    refine iff_of_false nofun fun h => ?_
    obtain ⟨last, hinc, -⟩ := h.increasing
    cases hlog.symm.trans hinc
  | ok prev =>
    dsimp only
    by_cases hprev : a.lastSeq < prev
    · rw [if_pos hprev]
      refine iff_of_false nofun fun h => ?_
      obtain ⟨last, hinc, hle⟩ := h.increasing
      cases hlog.symm.trans hinc
      exact UInt64.not_le.mpr hprev hle
    · rw [if_neg hprev]
      have hsnap : a.snapshot.any (fun s => decide (a.lastSeq < s.throughSeq)) = true ↔
          ∃ s ∈ a.snapshot, a.lastSeq < s.throughSeq := by
        cases a.snapshot <;> simp
      split
      · next hahead =>
        obtain ⟨s, hs, hlt⟩ := hsnap.mp hahead
        exact iff_of_false nofun fun h => UInt64.not_le.mpr hlt (h.subsumed s hs)
      · next hbehind =>
        refine iff_of_true rfl ⟨⟨prev, hlog, UInt64.not_lt.mp hprev⟩, fun s hs => ?_⟩
        exact UInt64.not_lt.mp fun hlt => hbehind (hsnap.mpr ⟨s, hs, hlt⟩)

theorem validateActors_ok {actors : List ActorBackup} {seen : List ActorId} : validateActors seen actors = .ok () ↔
    (∀ a ∈ actors, a.Valid ∧ a.id ∉ seen) ∧ (actors.map ActorBackup.id).Nodup := by
  induction actors generalizing seen with
  | nil => simp [validateActors]
  | cons a actors ih =>
    rw [validateActors, map_cons, nodup_cons]
    by_cases hseen : a.id ∈ seen
    · rw [if_pos hseen]
      exact iff_of_false nofun fun h => (h.1 a mem_cons_self).2 hseen
    · rw [if_neg hseen]
      cases hvalid : validateActor a with
      | error err =>
        refine iff_of_false nofun fun h => ?_
        cases hvalid.symm.trans (validateActor_ok.mpr (h.1 a mem_cons_self).1)
      | ok u =>
        dsimp only
        rw [ih]
        constructor
        · rintro ⟨hall, hnodup⟩
          refine ⟨fun b hb => ?_, fun hin => ?_, hnodup⟩
          · rcases mem_cons.mp hb with rfl | hb
            · exact ⟨validateActor_ok.mp hvalid, hseen⟩
            · exact ⟨(hall b hb).1, fun hin => (hall b hb).2 (mem_cons_of_mem _ hin)⟩
          · obtain ⟨b, hb, heq⟩ := mem_map.mp hin
            exact (hall b hb).2 (by rw [heq]; exact mem_cons_self)
        · rintro ⟨hall, hnew, hnodup⟩
          refine ⟨fun b hb => ⟨(hall b (mem_cons_of_mem _ hb)).1, fun hin => ?_⟩, hnodup⟩
          rcases mem_cons.mp hin with heq | hin
          · exact hnew (mem_map.mpr ⟨b, hb, heq⟩)
          · exact (hall b (mem_cons_of_mem _ hb)).2 hin

theorem validateBackup_ok {img : BackupImage} : validateBackup img = .ok () ↔
    (∀ a ∈ img.actors, a.Valid) ∧ (img.actors.map ActorBackup.id).Nodup := by
  rw [validateBackup, validateActors_ok]
  simp

theorem restored_other {st : InMemoryStore} {actors : List ActorBackup} {ep : FencingEpoch} {id : ActorId}
    (h : ∀ a ∈ actors, a.id ≠ id) : (actors.foldl (fun st a => st.put a.id (a.entry ep)) st).entry id =
    st.entry id := by
  induction actors generalizing st with
  | nil => rfl
  | cons a actors ih =>
    rw [foldl_cons, ih fun b hb => h b (mem_cons_of_mem _ hb)]
    exact InMemoryStore.entry_put_ne st _ (Ne.symm (h a mem_cons_self))

theorem restored_entry {st : InMemoryStore} {actors : List ActorBackup} {ep : FencingEpoch} {a : ActorBackup}
    (hnodup : (actors.map ActorBackup.id).Nodup) (ha : a ∈ actors) :
    (actors.foldl (fun st a => st.put a.id (a.entry ep)) st).entry a.id = a.entry ep := by
  induction actors generalizing st with
  | nil => cases ha
  | cons b actors ih =>
    obtain ⟨hnew, hnodup⟩ := nodup_cons.mp hnodup
    rw [foldl_cons]
    rcases mem_cons.mp ha with rfl | ha
    · rw [restored_other fun c hc heq => hnew (mem_map.mpr ⟨c, hc, heq⟩)]
      exact InMemoryStore.entry_put st _ _
    · exact ih hnodup ha

theorem InMemoryStore.restoreFrom_empty {img : BackupImage} (h : validateBackup img = .ok ())
    (minEpoch : FencingEpoch) :
    ({} : InMemoryStore).restoreFrom img minEpoch = (.ok (restoreEpoch img minEpoch),
      img.actors.foldl (fun st a => st.put a.id (a.entry (restoreEpoch img minEpoch))) {}) := by
  unfold InMemoryStore.restoreFrom
  rw [if_neg (fun hne => hne rfl), h]

end Quark
