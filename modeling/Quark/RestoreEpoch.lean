import Quark.BackupRestore

/-! The fencing epoch of a restore: which tokens the restored store refuses from then on. -/
namespace Quark

open List UInt64

def highestOf (toks : List FenceToken) : Nat := (toks.map fun tok => tok.value.toNat).foldr max 0

def ActorBackup.tokens (a : ActorBackup) : List FenceToken := a.owner :: (a.snapshot.map SnapshotRecord.fence).toList

namespace BackupImage

variable (img : BackupImage) (minEpoch : FencingEpoch)

def tokens : List FenceToken := minEpoch :: img.epoch :: img.actors.flatMap ActorBackup.tokens

def highest : Nat := highestOf (img.tokens minEpoch)

/-- The owner of an actor for which `n` fences were acquired since the restore. -/
def ownerAfter (id : ActorId) (n : Nat) : Nat :=
  ((if id ∈ img.actors.map ActorBackup.id then img.highest minEpoch + 1 else 0) + n) % 2 ^ 64

end BackupImage

def acquired (id : ActorId) (issued : List (ActorId × FenceToken)) : Nat := (issued.map Prod.fst).count id

namespace InMemoryStore

def Refuses (st : InMemoryStore) (id : ActorId) (tok : FenceToken) : Prop :=
  (∀ op : StoreOp, op.token = some tok → (st.call id op).1 = fencedError) ∧
    ∀ throughSeq, (st.truncateLog id tok throughSeq).1 = fencedError

end InMemoryStore

section

variable {toks toks' : List FenceToken} {tok : FenceToken} {n : Nat} {m : UInt64} {img : BackupImage}
variable {minEpoch : FencingEpoch} {actors : List ActorBackup} {id : ActorId}

theorem highestOf_cons : highestOf (tok :: toks) = max tok.value.toNat (highestOf toks) := rfl

theorem highestOf_append : highestOf (toks ++ toks') = max (highestOf toks) (highestOf toks') := by
  induction toks with
  | nil => exact (Nat.zero_max _).symm
  | cons tok toks ih => rw [cons_append, highestOf_cons, highestOf_cons, ih, max_assoc]

theorem highestOf_lt (hn : 0 < n) : highestOf toks < n ↔ ∀ tok ∈ toks, tok.value.toNat < n := by
  induction toks with
  | nil => exact iff_of_true hn nofun
  | cons tok toks ih => rw [highestOf_cons, Nat.max_lt, ih, forall_mem_cons]

theorem ActorBackup.raise_toNat (a : ActorBackup) (m : UInt64) : (a.raise m).toNat = max m.toNat
    (highestOf a.tokens) := by
  unfold ActorBackup.raise ActorBackup.tokens
  cases a.snapshot with
  | none => simp [toNat_max, highestOf]
  | some s => simp [toNat_max, highestOf, max_assoc]

theorem raised_toNat : (actors.foldl (fun m a => a.raise m) m).toNat =
    max m.toNat (highestOf (actors.flatMap ActorBackup.tokens)) := by
  induction actors generalizing m with
  | nil => exact (Nat.max_zero _).symm
  | cons a actors ih => rw [foldl_cons, ih, a.raise_toNat, flatMap_cons, highestOf_append, max_assoc]

theorem restoreEpoch_toNat : (restoreEpoch img minEpoch).value.toNat = (img.highest minEpoch + 1) % 2 ^ 64 := by
  have hraised : (img.actors.foldl (fun m a => a.raise m) (max img.epoch.value minEpoch.value)).toNat =
      img.highest minEpoch := by
    rw [raised_toNat, toNat_max, BackupImage.highest, BackupImage.tokens, highestOf_cons, highestOf_cons]
    omega
  rw [restoreEpoch, UInt64.toNat_add, hraised, UInt64.toNat_one]

theorem highest_lt (img : BackupImage) (minEpoch : FencingEpoch) : img.highest minEpoch < 2 ^ 64 :=
  (highestOf_lt (by decide)).mpr fun tok _ => tok.value.toNat_lt

theorem below_epoch_iff : (∀ tok ∈ img.tokens minEpoch, tok.value < (restoreEpoch img minEpoch).value) ↔
    img.highest minEpoch < 2 ^ 64 - 1 := by
  have hlt := highest_lt img minEpoch
  simp only [lt_iff_toNat_lt]
  constructor
  · intro hall
    have hepoch : 0 < (restoreEpoch img minEpoch).value.toNat := Nat.zero_lt_of_lt (hall minEpoch mem_cons_self)
    have hbelow : img.highest minEpoch < (img.highest minEpoch + 1) % 2 ^ 64 := by
      rw [← restoreEpoch_toNat]
      exact (highestOf_lt hepoch).mpr hall
    omega
  · intro hsmall
    rw [restoreEpoch_toNat, Nat.mod_eq_of_lt (by omega)]
    exact (highestOf_lt (Nat.succ_pos _)).mp (Nat.lt_succ_self _)

theorem fencedOut_iff {e : StoreEntry} : (∀ tok ∈ toks, e.fencedOut tok = true) ↔
    highestOf toks = 0 ∨ highestOf toks < e.owner.value.toNat := by
  have hone : ∀ tok, e.fencedOut tok = true ↔ tok.value.toNat = 0 ∨
      tok.value.toNat < e.owner.value.toNat := fun tok => by
    rw [StoreEntry.fencedOut, Bool.or_eq_true, isUnfenced, beq_iff_eq, decide_eq_true_eq, UInt64.lt_iff_toNat_lt,
      ← UInt64.toNat_inj, UInt64.toNat_zero]
  simp only [hone]
  by_cases howner : 0 < e.owner.value.toNat
  · have hall : ∀ tok : FenceToken, (tok.value.toNat = 0 ∨ tok.value.toNat < e.owner.value.toNat) ↔
        tok.value.toNat < e.owner.value.toNat := fun tok => by omega
    simp only [hall]
    rw [← highestOf_lt howner]
    omega
  · have hall : ∀ tok : FenceToken, (tok.value.toNat = 0 ∨ tok.value.toNat < e.owner.value.toNat) ↔
        tok.value.toNat < 1 := fun tok => by omega
    simp only [hall]
    rw [← highestOf_lt Nat.one_pos]
    omega

end

theorem decodeBackup_valid {bs : List UInt8} {img : BackupImage} (h : decodeBackup bs = .ok img) :
    validateBackup img = .ok () := by
  unfold decodeBackup at h
  split at h
  · cases h
  · split at h
    · cases h
    · split at h
      · next img' hread =>
        cases hvalid : validateBackup img' with
        | error err =>
          rw [hvalid] at h
          cases h
        | ok u =>
          rw [hvalid] at h
          cases h
          exact hvalid
      · cases h

theorem restored_owner {img : BackupImage} {ep : FencingEpoch} (hvalid : validateBackup img = .ok ()) (id : ActorId) :
    ((img.actors.foldl (fun (st : InMemoryStore) a => st.put a.id (a.entry ep)) {}).entry id).owner =
      if id ∈ img.actors.map ActorBackup.id then ep else ⟨0⟩ := by
  split
  · next hin =>
    obtain ⟨a, ha, rfl⟩ := mem_map.mp hin
    rw [restored_entry (validateBackup_ok.mp hvalid).2 ha]
    rfl
  · next hout =>
    rw [restored_other fun a ha heq => hout (mem_map.mpr ⟨a, ha, heq⟩)]
    rfl

namespace InMemoryStore

variable {st : InMemoryStore} {s : Issuing InMemoryStore} {id : ActorId} {tok : FenceToken}

theorem refuses_iff : st.Refuses id tok ↔ (st.entry id).fencedOut tok = true := by
  constructor
  · intro hrefuses
    -- a batch of no events is taken from every owner
    have hbatch := hrefuses.1 (.appendBatch tok []) rfl
    rw [call_eq] at hbatch
    simp only [StoreEntry.apply, StoreEntry.admitBatch] at hbatch
    by_contra hout
    rw [if_neg hout] at hbatch
    cases hbatch
  · intro hout
    exact ⟨fun op hop => call_fenced hout hop, fun throughSeq => truncateLog_fenced hout⟩

theorem owner_reachable (h : Machine.Reachable step { store := st } s) : (s.store.entry id).owner.value.toNat =
    ((st.entry id).owner.value.toNat + acquired id s.issued) % 2 ^ 64 := by
  refine h.invariant (I := fun s => (s.store.entry id).owner.value.toNat =
    ((st.entry id).owner.value.toNat + acquired id s.issued) % 2 ^ 64) ?_ fun s c s' hinv hstep => ?_
  · exact (Nat.mod_eq_of_lt (st.entry id).owner.value.toNat_lt).symm
  · cases hstep
    obtain ⟨hserves, hother⟩ := serves_serve s.store c.1 c.2
    by_cases hid : id = c.1
    · subst hid
      obtain ⟨htoks, howner⟩ | ⟨htoks, howner⟩ := hserves.owner
      · rw [howner, hinv, htoks, map_nil, append_nil]
      · have hcount : acquired c.1 (s.issued ++ [(c.1, (s.store.entry c.1).nextOwner)]) =
            acquired c.1 s.issued + 1 := by
          rw [acquired, acquired, map_append, count_append, map_singleton, count_singleton_self]
        rw [howner, htoks, map_singleton, hcount, StoreEntry.nextOwner, UInt64.toNat_add, hinv, UInt64.toNat_one]
        omega
    · have hcount : acquired id (s.issued ++ (s.store.serve c.1 c.2).1.map fun tok => (c.1, tok)) =
          acquired id s.issued := by
        rw [acquired, acquired, map_append, count_append, map_map]
        refine Nat.add_eq_left.mpr (count_eq_zero.mpr fun hin => ?_)
        obtain ⟨tok, -, heq⟩ := mem_map.mp hin
        exact hid heq.symm
      rw [hother id hid, hcount, hinv]

end InMemoryStore

/-- A restore of an image that decodes succeeds. The epoch lies above every token of the image and above
`min_epoch`, and whatever runs on the restored store a write under one of them is refused, if and only if no
token is `2^64 - 1` and the owner of the actor is still above them. -/
theorem restore_fences_iff {bs : List UInt8} {img : BackupImage} (minEpoch : FencingEpoch)
    (hdecodes : decodeBackup bs = .ok img) : ∃ ep st, ({} : InMemoryStore).restoreFrom img minEpoch = (.ok ep, st) ∧
    ∀ s, Machine.Reachable InMemoryStore.step { store := st } s → ∀ id,
      ((∀ tok ∈ img.tokens minEpoch, tok.value < ep.value) ∧ ∀ tok ∈ img.tokens minEpoch, s.store.Refuses id tok) ↔
        img.highest minEpoch < 2 ^ 64 - 1 ∧
          (img.highest minEpoch = 0 ∨ img.highest minEpoch < img.ownerAfter minEpoch id (acquired id s.issued)) := by
  have hvalid := decodeBackup_valid hdecodes
  refine ⟨_, _, InMemoryStore.restoreFrom_empty hvalid minEpoch, fun s hreach id => ?_⟩
  have howner : (s.store.entry id).owner.value.toNat = img.ownerAfter minEpoch id (acquired id s.issued) := by
    rw [InMemoryStore.owner_reachable hreach, restored_owner hvalid, BackupImage.ownerAfter]
    split
    · rw [restoreEpoch_toNat, Nat.mod_add_mod]
    · rfl
  simp only [InMemoryStore.refuses_iff]
  rw [below_epoch_iff, fencedOut_iff, howner]
  rfl

/-- One actor that is owned by `tok`, with a snapshot of its first owner. -/
def ownedBy (tok : FenceToken) : BackupImage where
  epoch := tok
  actors := [{ id := ⟨⟨7⟩, 1⟩, owner := tok, snapshot := some ⟨⟨1⟩, 0, [5]⟩ }]

theorem ownedBy_decodes (tok : FenceToken) : decodeBackup (encodeBackup (ownedBy tok)) = .ok (ownedBy tok) := by
  refine decode_encode rfl (by simp [ownedBy]) fun a ha => ?_
  rw [mem_singleton.mp ha]
  exact ⟨by simp, by simp, by simp⟩

/-- Tokens 3 and 5: the epoch is 6. -/
theorem restore_fences_owned : ∃ ep st, ({} : InMemoryStore).restoreFrom (ownedBy ⟨3⟩) ⟨5⟩ = (.ok ep, st) ∧
    (∀ tok ∈ (ownedBy ⟨3⟩).tokens ⟨5⟩, tok.value < ep.value) ∧
    ∀ tok ∈ (ownedBy ⟨3⟩).tokens ⟨5⟩, st.Refuses ⟨⟨7⟩, 1⟩ tok := by
  obtain ⟨ep, st, hrestored, hfences⟩ := restore_fences_iff ⟨5⟩ (ownedBy_decodes ⟨3⟩)
  have habove : (ownedBy ⟨3⟩).highest ⟨5⟩ < 2 ^ 64 - 1 ∧ ((ownedBy ⟨3⟩).highest ⟨5⟩ = 0 ∨
      (ownedBy ⟨3⟩).highest ⟨5⟩ < (ownedBy ⟨3⟩).ownerAfter ⟨5⟩ ⟨⟨7⟩, 1⟩ 0) := by decide
  exact ⟨ep, st, hrestored, (hfences _ .start ⟨⟨7⟩, 1⟩).mpr habove⟩

/-- The highest token is `2^64 - 1`: the epoch wraps to 0 and every owner of old writes on. -/
theorem restored_epoch_wraps : decodeBackup (encodeBackup (ownedBy ⟨0xFFFFFFFFFFFFFFFF⟩)) = .ok
    (ownedBy ⟨0xFFFFFFFFFFFFFFFF⟩) ∧
    ∃ st, ({} : InMemoryStore).restoreFrom (ownedBy ⟨0xFFFFFFFFFFFFFFFF⟩) ⟨0⟩ = (.ok ⟨0⟩, st) ∧
      ∀ tok ∈ [⟨1⟩, (⟨0xFFFFFFFFFFFFFFFF⟩ : FenceToken)], tok ∈ (ownedBy ⟨0xFFFFFFFFFFFFFFFF⟩).tokens ⟨0⟩ ∧
        (st.append ⟨⟨7⟩, 1⟩ tok 1 [10]).1 = .ok () := by
  have hzero : restoreEpoch (ownedBy ⟨0xFFFFFFFFFFFFFFFF⟩) ⟨0⟩ = ⟨0⟩ := by decide
  have hrestored := InMemoryStore.restoreFrom_empty (decodeBackup_valid (ownedBy_decodes ⟨0xFFFFFFFFFFFFFFFF⟩)) ⟨0⟩
  rw [hzero] at hrestored
  exact ⟨ownedBy_decodes _, _, hrestored, by decide⟩

end Quark
