import Mathlib.Data.List.Sort
import Quark.FileStoreRestore
import Quark.Lib.Machine
import Quark.Lib.Table

/-! Backup and restore over whole runs of a store: the image of any reachable state restores to a store that
serves the same, that refuses every token issued before the cut, and that goes on from there. -/
namespace Quark

open Machine UInt64

/-- A call on one actor. -/
inductive StoreCall
  | write (op : StoreOp)
  | truncate (tok : FenceToken) (throughSeq : SeqNo)
  | read
  deriving DecidableEq, Repr

def StoreOp.token : StoreOp → Option FenceToken
  | .acquireFence => none
  | .saveSnapshot tok _ => some tok
  | .append tok _ _ => some tok
  | .appendBatch tok _ => some tok

/-- A store and the tokens that it issued. -/
structure Issuing (S : Type) where
  store : S
  issued : List (ActorId × FenceToken) := []

/-- What a store answers to the reads of the seam. -/
structure Served where
  loadSnapshot : ActorId → Result (Option SnapshotRecord)
  readLog : ActorId → SeqNo → Result (List EventRecord)
  lastSeq : ActorId → SeqNo

def Result.tokens (r : Result FenceToken) : List FenceToken :=
  match r with
  | .ok tok => [tok]
  | .error _ => []

namespace InMemoryStore

def served (st : InMemoryStore) : Served where
  loadSnapshot := st.loadSnapshot
  readLog := st.readLog
  lastSeq := st.lastSeq

def serve (st : InMemoryStore) (id : ActorId) : StoreCall → List FenceToken × InMemoryStore
  | .write .acquireFence => (Result.tokens (st.acquireFence id).1, (st.acquireFence id).2)
  | .write op => ([], (st.call id op).2)
  | .truncate tok throughSeq => ([], (st.truncateLog id tok throughSeq).2)
  | .read => ([], st)

def step (s : Issuing InMemoryStore) (c : ActorId × StoreCall) : Option (Issuing InMemoryStore) :=
  let r := s.store.serve c.1 c.2
  some { store := r.2, issued := s.issued ++ r.1.map fun tok => (c.1, tok) }

end InMemoryStore

namespace FileStore

def Slot.serve (pal : Pal) (s : Slot) : StoreCall → List FenceToken × Slot
  | .write .acquireFence => (Result.tokens (s.acquireFence pal).1, (s.acquireFence pal).2)
  | .write op => ([], (s.call pal op).2)
  | .truncate tok throughSeq => ([], (s.truncateLog pal tok throughSeq).2)
  | .read => ([], s)

def served (pal : Pal) (st : FileStore) : Served where
  loadSnapshot := st.loadSnapshot pal
  readLog := st.readLog pal
  lastSeq := st.lastSeq pal

def serve (pal : Pal) (st : FileStore) (id : ActorId) (c : StoreCall) : List FenceToken × FileStore :=
  let r := (st.entry pal id).serve pal c
  (r.1, st.put id r.2)

/-- The file layer may fail in any way but one: that the log is gone after a compaction. -/
def step (s : Issuing FileStore) (c : ActorId × StoreCall × Pal) : Option (Issuing FileStore) :=
  if c.2.2.reopens then
    let r := s.store.serve c.2.2 c.1 c.2.1
    some { store := r.2, issued := s.issued ++ r.1.map fun tok => (c.1, tok) }
  else none

def hexValue (c : Char) : Nat :=
  if c.isDigit then c.toNat - 48 else if 'a' ≤ c && c ≤ 'f' then c.toNat - 87 else c.toNat - 55

def hexNat (digits : List Char) : Nat := digits.foldl (fun v c => 16 * v + hexValue c) 0

def parseName (name : List Char) : Option ActorId :=
  if isLogName name then some ⟨⟨UInt64.ofNat (hexNat (name.take 16))⟩, UInt64.ofNat (hexNat ((name.drop 17).take 16))⟩
  else none

def idLe (a b : ActorId) : Bool :=
  if a.type.value ≠ b.type.value then decide (a.type.value ≤ b.type.value) else decide (a.key ≤ b.key)

/-- The actors whose logs stand in the directory, in order. -/
def actorIds (st : FileStore) : List ActorId :=
  (st.disk.entries.filterMap fun f => (st.nameOf f.1).bind parseName).insertionSort fun a b => idLe a b = true

def backupIds (pal : Pal) (st : FileStore) (done : List (Sigma fun _ : ActorId => StoreEntry)) :
    List ActorId → Result (List (Sigma fun _ : ActorId => StoreEntry)) × FileStore
  | [] => (.ok done, st)
  | id :: ids =>
    let s := st.entry pal id
    if s.entry.corrupt then (corruptError, st.put id s)
    else backupIds pal (st.put id s) (done ++ [⟨id, s.entry.toStoreEntry⟩]) ids

def snapshotTo (pal : Pal) (st : FileStore) : Result BackupImage × FileStore :=
  let r := st.backupIds pal [] st.actorIds
  (r.1.map imageOf, r.2)

end FileStore

/-- Sizes and tokens that the restored store can go on from. -/
structure Fits (img : BackupImage) (issued : List (ActorId × FenceToken)) (minEpoch : FencingEpoch) : Prop where
  count : img.actors.length < 2 ^ 32
  small : ∀ a ∈ img.actors, a.Small
  issued : ∀ t ∈ issued, t.2.value.toNat < 2 ^ 64 - 2
  fences : ∀ a ∈ img.actors, ∀ s ∈ a.snapshot, s.fence.value.toNat < 2 ^ 64 - 2
  minEpoch : minEpoch.value.toNat < 2 ^ 64 - 2

/-- The store serves what was served at the cut, refuses the tokens issued before it, and goes on from there. -/
structure Restored (served : Served) (issued : List (ActorId × FenceToken)) (img : BackupImage) (st : InMemoryStore) :
    Prop where
  served : st.served = served
  fenced : ∀ t ∈ issued, ∀ id, (id = t.1 ∨ id ∈ img.actors.map ActorBackup.id) →
    (∀ op : StoreOp, op.token = some t.2 → (st.call id op).1 = fencedError) ∧
      ∀ throughSeq, (st.truncateLog id t.2 throughSeq).1 = fencedError
  next : ∀ id, (st.lastSeq id).toNat < 2 ^ 64 - 1 → ∃ tok, (st.acquireFence id).1 = .ok tok ∧
    ∀ bytes, ((st.acquireFence id).2.append id tok (st.lastSeq id + 1) bytes).1 = .ok ()

def Restores (served : Served) (issued : List (ActorId × FenceToken)) (img : BackupImage) (minEpoch : FencingEpoch) :
    Prop :=
  decodeBackup (encodeBackup img) = .ok img ∧
    ∃ ep st, ({} : InMemoryStore).restoreFrom img minEpoch = (.ok ep, st) ∧ Restored served issued img st

section

variable {a b : UInt64} {m : UInt64} {actors : List ActorBackup} {n : Nat}

theorem toNat_max (a b : UInt64) : (max a b).toNat = max a.toNat b.toNat := by
  change (if a ≤ b then b else a).toNat = _
  split
  · next hle => exact (Nat.max_eq_right (le_iff_toNat_le.mp hle)).symm
  · next hgt => exact (Nat.max_eq_left (le_iff_toNat_le.mp (UInt64.le_of_lt (UInt64.not_le.mp hgt)))).symm

def ActorBackup.Below (n : Nat) (a : ActorBackup) : Prop :=
  a.owner.value.toNat < n ∧ ∀ s ∈ a.snapshot, s.fence.value.toNat < n

theorem ActorBackup.raise_bounds (a : ActorBackup) (m : UInt64) : m.toNat ≤ (a.raise m).toNat ∧
    a.owner.value.toNat ≤ (a.raise m).toNat ∧ (m.toNat < n → a.Below n → (a.raise m).toNat < n) := by
  unfold ActorBackup.raise ActorBackup.Below
  cases a.snapshot with
  | none =>
    simp only [toNat_max]
    exact ⟨le_max_left _ _, le_max_right _ _, fun hm hbelow => Nat.max_lt.mpr ⟨hm, hbelow.1⟩⟩
  | some s =>
    simp only [toNat_max]
    refine ⟨by omega, by omega, fun hm hbelow => ?_⟩
    have hs := hbelow.2 s rfl
    omega

theorem raised_bounds : m.toNat ≤ (actors.foldl (fun m a => a.raise m) m).toNat ∧
    (∀ a ∈ actors, a.owner.value.toNat ≤ (actors.foldl (fun m a => a.raise m) m).toNat) ∧
    (m.toNat < n → (∀ a ∈ actors, a.Below n) → (actors.foldl (fun m a => a.raise m) m).toNat < n) := by
  induction actors generalizing m with
  | nil => exact ⟨le_rfl, by simp, fun hm _ => hm⟩
  | cons a actors ih =>
    obtain ⟨hm, howner, hbelow⟩ := @ActorBackup.raise_bounds n a m
    obtain ⟨hrest, howners, hbelows⟩ := @ih (a.raise m)
    rw [List.foldl_cons]
    refine ⟨hm.trans hrest, fun b hb => ?_, fun hlt hall => ?_⟩
    · rcases List.mem_cons.mp hb with rfl | hb
      · exact howner.trans hrest
      · exact howners b hb
    · exact hbelows (hbelow hlt (hall a List.mem_cons_self)) fun b hb => hall b (List.mem_cons_of_mem _ hb)

theorem epoch_below {entries : List (Sigma fun _ : ActorId => StoreEntry)} (hm : m.toNat < n)
    (h : ∀ e ∈ entries, e.2.owner.value.toNat < n) :
    (entries.foldl (fun m e => max m e.2.owner.value) m).toNat < n := by
  induction entries generalizing m with
  | nil => exact hm
  | cons e entries ih =>
    rw [List.foldl_cons]
    refine ih ?_ fun e' he' => h e' (List.mem_cons_of_mem _ he')
    rw [toNat_max]
    exact Nat.max_lt.mpr ⟨hm, h e List.mem_cons_self⟩

end

/-- What one call makes of the entry of its actor, and the tokens that it hands out. -/
inductive Serves (e : StoreEntry) : List FenceToken → StoreEntry → Prop
  | idle : Serves e [] e
  | fence : Serves e [e.nextOwner] (e.withOwner e.nextOwner)
  | snapshot {snap : SnapshotRecord} (hle : snap.throughSeq ≤ e.lastSeq) : Serves e [] (e.withSnapshot snap)
  | batch {batch : List EventRecord} {last : SeqNo} (hinc : StoreEntry.increasingFrom e.lastSeq batch = .ok last) :
      Serves e [] (e.withBatch batch last)
  | cut (n : Nat) : Serves e [] (e.eraseFront n)

theorem serves_apply {e e' : StoreEntry} {op : StoreOp} {r : Result Unit} (hop : op ≠ .acquireFence)
    (h : e.apply op = (r, e')) : Serves e [] e' := by
  cases r with
  | error err =>
    rw [StoreEntry.apply_error h]
    exact .idle
  | ok u =>
    cases op with
    | acquireFence => exact absurd rfl hop
    | saveSnapshot tok snap =>
      obtain ⟨hle, rfl⟩ := StoreEntry.apply_saveSnapshot h
      exact @Serves.snapshot e { snap with fence := tok } hle
    | append tok seq bytes | appendBatch tok batch =>
      obtain ⟨last, hinc, rfl⟩ := StoreEntry.admitted_batch h
      exact .batch hinc

theorem increasingFrom_lower {xs : List EventRecord} {base base' last : SeqNo} (hle : base' ≤ base)
    (h : StoreEntry.increasingFrom base xs = .ok last) :
    ∃ last', StoreEntry.increasingFrom base' xs = .ok last' ∧ last' ≤ last := by
  cases xs with
  | nil =>
    cases h
    exact ⟨base', rfl, hle⟩
  | cons r xs =>
    refine ⟨last, StoreEntry.increasingFrom_rebase h (List.cons_ne_nil r xs) fun q hq => ?_, UInt64.le_refl _⟩
    exact UInt64.lt_of_le_of_lt hle (StoreEntry.lt_of_increasingFrom h q hq)

theorem Serves.valid {e e' : StoreEntry} {toks : List FenceToken} (h : Serves e toks e') {id : ActorId}
    (hvalid : (backupOf id e).Valid) : (backupOf id e').Valid := by
  obtain ⟨last, hlog, hlast⟩ := hvalid.increasing
  cases h with
  | idle => exact hvalid
  | fence => exact ⟨hvalid.increasing, hvalid.subsumed⟩
  | snapshot hle =>
    refine ⟨hvalid.increasing, fun s hs => ?_⟩
    cases hs
    exact hle
  | batch hinc =>
    obtain ⟨last', hinc', hle⟩ := increasingFrom_lower hlast hinc
    refine ⟨⟨last', StoreEntry.increasingFrom_append hlog hinc', hle⟩, fun s hs => ?_⟩
    exact UInt64.le_trans (hvalid.subsumed s hs) (StoreEntry.le_of_increasingFrom hinc)
  | cut n =>
    obtain ⟨mid, -, hdrop⟩ := StoreEntry.increasingFrom_drop n hlog
    obtain ⟨last', hinc, hle⟩ := increasingFrom_lower UInt64.zero_le hdrop
    exact ⟨⟨last', hinc, UInt64.le_trans hle hlast⟩, hvalid.subsumed⟩

/-- What every run keeps of the entries and of the tokens issued. -/
structure Kept (E : ActorId → StoreEntry) (issued : List (ActorId × FenceToken)) : Prop where
  valid : ∀ id, (backupOf id (E id)).Valid
  owned : ∀ id, (E id).owner = ⟨0⟩ ∨ (id, (E id).owner) ∈ issued
  outranked : (∀ t ∈ issued, t.2.value.toNat < 2 ^ 64 - 2) → ∀ t ∈ issued, t.2.value.toNat ≤ (E t.1).owner.value.toNat

theorem kept_empty : Kept (fun _ => {}) [] where
  valid := fun _ => ⟨⟨0, rfl, UInt64.le_refl _⟩, by simp [backupOf]⟩
  owned := fun _ => .inl rfl
  outranked := by simp

theorem Serves.owner {e e' : StoreEntry} {toks : List FenceToken} (h : Serves e toks e') :
    (toks = [] ∧ e'.owner = e.owner) ∨ (toks = [e.nextOwner] ∧ e'.owner = e.nextOwner) := by
  cases h with
  | fence => exact .inr ⟨rfl, rfl⟩
  | idle | snapshot hle | batch hinc | cut n => exact .inl ⟨rfl, rfl⟩

theorem Kept.serve {E E' : ActorId → StoreEntry} {issued : List (ActorId × FenceToken)} {id : ActorId}
    {toks : List FenceToken} (h : Kept E issued) (hserves : Serves (E id) toks (E' id))
    (hother : ∀ other, other ≠ id → E' other = E other) : Kept E' (issued ++ toks.map fun tok => (id, tok)) := by
  refine ⟨fun other => ?_, fun other => ?_, fun hsmall t ht => ?_⟩
  · by_cases heq : other = id
    · rw [heq]
      exact hserves.valid (h.valid id)
    · rw [hother other heq]
      exact h.valid other
  · by_cases heq : other = id
    · rw [heq]
      obtain ⟨rfl, howner⟩ | ⟨rfl, howner⟩ := hserves.owner
      · rw [howner, List.map_nil, List.append_nil]
        exact h.owned id
      · rw [howner]
        exact .inr (List.mem_append_right _ (List.mem_singleton.mpr rfl))
    · rw [hother other heq]
      exact (h.owned other).imp_right (List.mem_append_left _)
  · have hold := h.outranked fun t ht => hsmall t (List.mem_append_left _ ht)
    obtain ⟨rfl, howner⟩ | ⟨rfl, howner⟩ := hserves.owner
    · rw [List.map_nil, List.append_nil] at ht
      by_cases heq : t.1 = id
      · rw [heq, howner, ← heq]
        exact hold t ht
      · rw [hother t.1 heq]
        exact hold t ht
    · -- the owner before was 0 or issued, so the next token does not wrap
      have hlow : (E id).owner.value.toNat < 2 ^ 64 - 2 := by
        obtain hzero | hissued := h.owned id
        · rw [hzero]
          decide
        · exact hsmall _ (List.mem_append_left _ hissued)
      have hnext : (E id).nextOwner.value.toNat = (E id).owner.value.toNat + 1 := by
        rw [StoreEntry.nextOwner, UInt64.toNat_add]
        exact Nat.mod_eq_of_lt (by rw [UInt64.toNat_one]; omega)
      rcases List.mem_append.mp ht with ht | ht
      · by_cases heq : t.1 = id
        · have hle := hold t ht
          rw [heq] at hle ⊢
          rw [howner, hnext]
          omega
        · rw [hother t.1 heq]
          exact hold t ht
      · rw [List.map_singleton, List.mem_singleton] at ht
        rw [ht, howner]

/-- What the image says of the entries. -/
structure Cut (E : ActorId → StoreEntry) (img : BackupImage) : Prop where
  nodup : (img.actors.map ActorBackup.id).Nodup
  taken : ∀ a ∈ img.actors, a = backupOf a.id (E a.id)
  rest : ∀ id, id ∉ img.actors.map ActorBackup.id → E id = {}
  epoch : ∀ n, 0 < n → (∀ id, (E id).owner.value.toNat < n) → img.epoch.value.toNat < n

theorem cut_imageOf {E : ActorId → StoreEntry} {entries : List (Sigma fun _ : ActorId => StoreEntry)}
    (hnodup : (entries.map Sigma.fst).Nodup) (hentries : ∀ e ∈ entries, e.2 = E e.1)
    (hrest : ∀ id, id ∉ entries.map Sigma.fst → E id = {}) : Cut E (imageOf entries) := by
  have hids : (imageOf entries).actors.map ActorBackup.id = entries.map Sigma.fst := by
    rw [imageOf, List.map_map]
    rfl
  refine ⟨by rw [hids]; exact hnodup, fun a ha => ?_, fun id hid => hrest id (by rwa [hids] at hid),
    fun n hn hall => ?_⟩
  · obtain ⟨e, he, rfl⟩ := List.mem_map.mp ha
    rw [hentries e he]
    rfl
  · exact epoch_below hn fun e he => by rw [hentries e he]; exact hall e.1

def servedBy (E : ActorId → StoreEntry) : Served where
  loadSnapshot := fun id => .ok (E id).snapshot
  readLog := fun id from_ => .ok ((E id).log.filter fun ev => from_ ≤ ev.seq)
  lastSeq := fun id => (E id).lastSeq

namespace InMemoryStore

variable {st : InMemoryStore} {id : ActorId} {tok : FenceToken}

theorem served_eq (st : InMemoryStore) : st.served = servedBy st.entry := rfl

theorem call_fenced {op : StoreOp} (h : (st.entry id).fencedOut tok = true) (hop : op.token = some tok) :
    (st.call id op).1 = fencedError := by
  rw [call_eq]
  cases op with
  | acquireFence => cases hop
  | saveSnapshot tok' snap =>
    cases hop
    simp only [StoreEntry.apply, StoreEntry.admitSnapshot, h, if_true, fencedError, fail]
  | append tok' seq bytes | appendBatch tok' batch =>
    cases hop
    simp only [StoreEntry.apply, StoreEntry.admitBatch, h, if_true, fencedError, fail]

theorem truncateLog_fenced {throughSeq : SeqNo} (h : (st.entry id).fencedOut tok = true) :
    (st.truncateLog id tok throughSeq).1 = fencedError := by
  simp only [truncateLog, StoreEntry.admitTruncate, h, if_true, fencedError, fail]

/-- The next owner appends behind the log, unless a counter is at its end. -/
theorem append_next (howner : (st.entry id).owner.value.toNat < 2 ^ 64 - 1)
    (hlast : (st.lastSeq id).toNat < 2 ^ 64 - 1) : ∃ tok, (st.acquireFence id).1 = .ok tok ∧
      ∀ bytes, ((st.acquireFence id).2.append id tok (st.lastSeq id + 1) bytes).1 = .ok () := by
  refine ⟨(st.entry id).nextOwner, rfl, fun bytes => ?_⟩
  have hentry : (st.acquireFence id).2.entry id = (st.entry id).withOwner (st.entry id).nextOwner := entry_put st id _
  have hnext : (st.entry id).nextOwner.value.toNat = (st.entry id).owner.value.toNat + 1 := by
    rw [StoreEntry.nextOwner, UInt64.toNat_add]
    exact Nat.mod_eq_of_lt (by rw [UInt64.toNat_one]; omega)
  have hseq : (st.lastSeq id + 1).toNat = (st.lastSeq id).toNat + 1 := by
    rw [UInt64.toNat_add]
    exact Nat.mod_eq_of_lt (by rw [UInt64.toNat_one]; omega)
  have howned : ((st.entry id).withOwner (st.entry id).nextOwner).fencedOut (st.entry id).nextOwner = false := by
    refine Bool.or_eq_false_iff.mpr ⟨beq_eq_false_iff_ne.mpr fun hzero => ?_, decide_eq_false (UInt64.lt_irrefl _)⟩
    rw [hzero] at hnext
    cases hnext
  have hbehind : ¬ st.lastSeq id + 1 ≤ ((st.entry id).withOwner (st.entry id).nextOwner).lastSeq := by
    rw [le_iff_toNat_le, hseq]
    exact Nat.not_succ_le_self _
  unfold append
  dsimp only
  rw [hentry, howned, if_neg Bool.false_ne_true, if_neg hbehind]

end InMemoryStore

/-- The image of a cut restores, whatever store it was taken from. -/
theorem Cut.restores {E : ActorId → StoreEntry} {issued : List (ActorId × FenceToken)} {img : BackupImage}
    {minEpoch : FencingEpoch} (hcut : Cut E img) (hkept : Kept E issued) (hfits : Fits img issued minEpoch) :
    Restores (servedBy E) issued img minEpoch := by
  have hvalid : validateBackup img = .ok () := by
    refine validateBackup_ok.mpr ⟨fun a ha => ?_, hcut.nodup⟩
    rw [hcut.taken a ha]
    exact hkept.valid a.id
  have howners : ∀ id, (E id).owner.value.toNat < 2 ^ 64 - 2 := fun id => by
    obtain hzero | hissued := hkept.owned id
    · rw [hzero]
      decide
    · exact hfits.issued _ hissued
  have hbelow : ∀ a ∈ img.actors, a.Below (2 ^ 64 - 2) := fun a ha => by
    refine ⟨?_, hfits.fences a ha⟩
    rw [hcut.taken a ha]
    exact howners a.id
  obtain ⟨-, hraised, hbound⟩ := @raised_bounds (max img.epoch.value minEpoch.value) img.actors (2 ^ 64 - 2)
  have hstart : (max img.epoch.value minEpoch.value).toNat < 2 ^ 64 - 2 := by
    rw [toNat_max]
    exact Nat.max_lt.mpr ⟨hcut.epoch _ (by decide) howners, hfits.minEpoch⟩
  have hbound := hbound hstart hbelow
  have hep : (restoreEpoch img minEpoch).value.toNat =
      (img.actors.foldl (fun m a => a.raise m) (max img.epoch.value minEpoch.value)).toNat + 1 := by
    rw [restoreEpoch, UInt64.toNat_add]
    exact Nat.mod_eq_of_lt (by rw [UInt64.toNat_one]; omega)
  refine ⟨decode_encode hvalid hfits.count hfits.small, restoreEpoch img minEpoch, _,
    InMemoryStore.restoreFrom_empty hvalid minEpoch, ?_⟩
  generalize hst : img.actors.foldl (fun (st : InMemoryStore) a =>
    st.put a.id (a.entry (restoreEpoch img minEpoch))) {} = st
  have hmember : ∀ id ∈ img.actors.map ActorBackup.id, st.entry id =
      (E id).withOwner (restoreEpoch img minEpoch) := by
    intro id hid
    obtain ⟨a, ha, rfl⟩ := List.mem_map.mp hid
    rw [← hst, restored_entry hcut.nodup ha]
    conv => lhs; rw [hcut.taken a ha]
    rfl
  have hstranger : ∀ id, id ∉ img.actors.map ActorBackup.id → st.entry id = E id := by
    intro id hid
    rw [← hst, restored_other fun a ha heq => hid (List.mem_map.mpr ⟨a, ha, heq⟩), hcut.rest id hid]
    rfl
  have hread : ∀ id, ∃ owner, st.entry id = (E id).withOwner owner := fun id => by
    by_cases hid : id ∈ img.actors.map ActorBackup.id
    · exact ⟨_, hmember id hid⟩
    · exact ⟨(E id).owner, hstranger id hid⟩
  refine ⟨?_, fun t ht id hid => ?_, fun id hlast => ?_⟩
  · rw [InMemoryStore.served_eq]
    unfold servedBy
    congr 1
    · funext id
      obtain ⟨owner, heq⟩ := hread id
      rw [heq]
      rfl
    · funext id from_
      obtain ⟨owner, heq⟩ := hread id
      rw [heq]
      rfl
    · funext id
      obtain ⟨owner, heq⟩ := hread id
      rw [heq]
      rfl
  · have hrank := hkept.outranked hfits.issued t ht
    have hout : (st.entry id).fencedOut t.2 = true := by
      by_cases hown : t.1 ∈ img.actors.map ActorBackup.id
      · have hin : id ∈ img.actors.map ActorBackup.id := by
          rcases hid with rfl | hid
          · exact hown
          · exact hid
        obtain ⟨a, ha, heq⟩ := List.mem_map.mp hown
        have hle := hraised a ha
        rw [hcut.taken a ha, heq] at hle
        refine Bool.or_eq_true_iff.mpr (.inr (decide_eq_true (lt_iff_toNat_lt.mpr ?_)))
        rw [hmember id hin]
        exact lt_of_le_of_lt (hrank.trans hle) (by rw [StoreEntry.withOwner, hep]; exact Nat.lt_succ_self _)
      · rw [hcut.rest t.1 hown] at hrank
        have hzero : t.2.value = 0 := UInt64.toNat_inj.mp (Nat.le_zero.mp hrank)
        exact Bool.or_eq_true_iff.mpr (.inl (beq_iff_eq.mpr hzero))
    exact ⟨fun op hop => InMemoryStore.call_fenced hout hop, fun throughSeq => InMemoryStore.truncateLog_fenced hout⟩
  · refine InMemoryStore.append_next ?_ hlast
    by_cases hid : id ∈ img.actors.map ActorBackup.id
    · rw [hmember id hid, StoreEntry.withOwner, hep]
      omega
    · rw [hstranger id hid]
      have hlow := howners id
      omega

namespace InMemoryStore

theorem serves_serve (st : InMemoryStore) (id : ActorId) (c : StoreCall) :
    Serves (st.entry id) (st.serve id c).1 ((st.serve id c).2.entry id) ∧
      ∀ other, other ≠ id → (st.serve id c).2.entry other = st.entry other := by
  have hwrite : ∀ op, op ≠ .acquireFence → Serves (st.entry id) [] ((st.call id op).2.entry id) ∧
      ∀ other, other ≠ id → (st.call id op).2.entry other = st.entry other := fun op hop => by
    rw [call_entry]
    exact ⟨serves_apply hop rfl, fun other hne => call_entry_ne st op hne⟩
  cases c with
  | write op =>
    cases op with
    | acquireFence =>
      refine ⟨?_, fun other hne => entry_put_ne st _ hne⟩
      change Serves (st.entry id) _ ((st.put id _).entry id)
      rw [entry_put]
      exact .fence
    | saveSnapshot tok snap | append tok seq bytes | appendBatch tok batch => exact hwrite _ (by simp)
  | truncate tok throughSeq =>
    simp only [serve, truncateLog]
    cases (st.entry id).admitTruncate tok throughSeq with
    | error err =>
      refine ⟨?_, fun other hne => entry_put_ne st _ hne⟩
      simp only [entry_put]
      exact .idle
    | ok u =>
      refine ⟨?_, fun other hne => entry_put_ne st _ hne⟩
      simp only [entry_put]
      exact .cut _
  | read => exact ⟨.idle, fun _ _ => rfl⟩

theorem kept_of_reachable {s : Issuing InMemoryStore} (h : Reachable step { store := {} } s) :
    Kept s.store.entry s.issued := by
  refine h.invariant (I := fun s => Kept s.store.entry s.issued) kept_empty fun s c s' hinv hstep => ?_
  cases hstep
  obtain ⟨hserves, hother⟩ := serves_serve s.store c.1 c.2
  exact hinv.serve hserves hother

theorem cut_of_snapshotTo {st : InMemoryStore} {img : BackupImage} (h : st.SnapshotTo img) : Cut st.entry img := by
  obtain ⟨entries, hperm, rfl⟩ := h
  have hkeys : (entries.map Sigma.fst).Perm st.table.keys := hperm.map _
  refine cut_imageOf (hkeys.nodup_iff.mpr st.table.keys_nodup) (fun e he => ?_) fun id hid => ?_
  · have hlookup : st.table.lookup e.1 = some e.2 := Table.mem_entries_iff.mp (hperm.mem_iff.mp he)
    rw [entry, hlookup, Option.getD_some]
  · have hlookup : st.table.lookup id = none := AList.lookup_eq_none.mpr fun hin => hid (hkeys.mem_iff.mpr hin)
    rw [entry, hlookup, Option.getD_none]

end InMemoryStore

namespace FileStore

section

variable {pal : Pal} {s : Slot} {st : FileStore}

/-- An actor whose log could not be opened has no entry to speak of. -/
def Slot.Clean (s : Slot) : Prop :=
  s.entry.corrupt = false ∧ (s.file = none → s.entry.fd = false ∧ s.entry.toStoreEntry = {})

theorem clean_load (pal : Pal) : (load pal none).Clean ∧ (load pal none).entry.toStoreEntry = {} := by
  have hread : readAll pal [] = [] := by
    unfold readAll
    cases pal.readError with
    | none => rfl
    | some at_ => exact List.take_nil
  unfold load
  split
  · rw [Option.getD_none, replay, hread]
    refine ⟨⟨rfl, fun hfile => ?_⟩, rfl⟩
    cases hfile
  · exact ⟨⟨rfl, fun _ => ⟨rfl, rfl⟩⟩, rfl⟩

theorem Slot.Clean.durableAppend (h : s.Clean) (pal : Pal) (body : List UInt8) : (s.durableAppend pal body).2.Clean ∧
    ((s.durableAppend pal body).1 = true → ∀ e, ((s.durableAppend pal body).2.withEntry e).Clean) := by
  unfold Slot.durableAppend
  split
  · refine ⟨h, fun hok => ?_⟩
    cases hok
  · cases pal.append with
    | flushed =>
      refine ⟨⟨h.1, fun hfile => ?_⟩, fun _ e => ⟨h.1, fun hfile => ?_⟩⟩
      · cases hfile
      · cases hfile
    | failed k =>
      refine ⟨⟨h.1, fun hfile => ?_⟩, fun hok => ?_⟩
      · cases hfile
      · cases hok

theorem Slot.Clean.call (h : s.Clean) (pal : Pal) {op : StoreOp} (hop : op ≠ .acquireFence) :
    (s.call pal op).2.Clean ∧ Serves s.entry.toStoreEntry [] (s.call pal op).2.entry.toStoreEntry := by
  rw [Slot.call_eq pal h.1 op]
  cases happ : s.entry.toStoreEntry.apply op with
  | mk r e' =>
    cases r with
    | error err => exact ⟨h, .idle⟩
    | ok u =>
      obtain ⟨hclean, hwith⟩ := h.durableAppend pal (op.body s.entry.toStoreEntry)
      have hentry := Slot.durableAppend_entry pal s (op.body s.entry.toStoreEntry)
      generalize s.durableAppend pal (op.body s.entry.toStoreEntry) = r at hclean hwith hentry
      rcases r with ⟨ok, s'⟩
      cases ok with
      | false =>
        refine ⟨hclean, ?_⟩
        change Serves _ _ s'.entry.toStoreEntry
        rw [hentry]
        exact .idle
      | true => exact ⟨hwith rfl e', serves_apply hop happ⟩

theorem Slot.Clean.acquireFence (h : s.Clean) (pal : Pal) : (s.acquireFence pal).2.Clean ∧
    Serves s.entry.toStoreEntry (Result.tokens (s.acquireFence pal).1) (s.acquireFence pal).2.entry.toStoreEntry := by
  obtain ⟨hclean, hwith⟩ := h.durableAppend pal (fenceBody s.entry.nextOwner)
  have hentry := Slot.durableAppend_entry pal s (fenceBody s.entry.nextOwner)
  unfold Slot.acquireFence
  rw [h.1, if_neg Bool.false_ne_true]
  dsimp only
  generalize s.durableAppend pal (fenceBody s.entry.nextOwner) = r at hclean hwith hentry
  rcases r with ⟨ok, s'⟩
  cases ok with
  | false =>
    refine ⟨hclean, ?_⟩
    change Serves _ [] s'.entry.toStoreEntry
    rw [hentry]
    exact .idle
  | true =>
    refine ⟨hwith rfl _, ?_⟩
    change Serves _ _ (s'.entry.toStoreEntry.withOwner _)
    rw [hentry]
    exact .fence

theorem Slot.Clean.truncateLog (h : s.Clean) (hreopens : pal.reopens = true) (tok : FenceToken) (throughSeq : SeqNo) :
    (s.truncateLog pal tok throughSeq).2.Clean ∧
      Serves s.entry.toStoreEntry [] (s.truncateLog pal tok throughSeq).2.entry.toStoreEntry := by
  unfold Slot.truncateLog
  rw [h.1, if_neg Bool.false_ne_true]
  split
  · exact ⟨h, .idle⟩
  · exact ⟨h, .idle⟩
  · dsimp only
    split
    · exact ⟨h, .idle⟩
    · split
      · exact ⟨h, .idle⟩
      · rw [hreopens, Bool.not_true, if_neg Bool.false_ne_true]
        refine ⟨⟨h.1, fun hfile => ?_⟩, .cut _⟩
        cases hfile

theorem Slot.Clean.serve (h : s.Clean) (hreopens : pal.reopens = true) (c : StoreCall) : (s.serve pal c).2.Clean ∧
    Serves s.entry.toStoreEntry (s.serve pal c).1 (s.serve pal c).2.entry.toStoreEntry := by
  cases c with
  | write op =>
    cases op with
    | acquireFence => exact h.acquireFence pal
    | saveSnapshot tok snap | append tok seq bytes | appendBatch tok batch => exact h.call pal (by simp)
  | truncate tok throughSeq => exact h.truncateLog hreopens tok throughSeq
  | read => exact ⟨h, .idle⟩

def held (st : FileStore) (id : ActorId) : StoreEntry := ((st.table.lookup id).map Entry.toStoreEntry).getD {}

/-- A store whose files were all opened by it. -/
structure Clean (st : FileStore) : Prop where
  named : ∀ path ∈ st.disk, ∃ id, path = st.pathFor id ∧ st.table.lookup id ≠ none
  slots : ∀ id e, st.table.lookup id = some e → Slot.Clean { file := st.disk.lookup (st.pathFor id), entry := e }

theorem clean_entry (h : Clean st) (pal : Pal) (id : ActorId) :
    (st.entry pal id).Clean ∧ (st.entry pal id).entry.toStoreEntry = st.held id := by
  unfold FileStore.entry held
  cases hlookup : st.table.lookup id with
  | some e => exact ⟨h.slots id e hlookup, rfl⟩
  | none =>
    have hfile : st.disk.lookup (st.pathFor id) = none := AList.lookup_eq_none.mpr fun hin => by
      obtain ⟨other, hpath, hknown⟩ := h.named _ hin
      rw [← pathFor_injective st hpath] at hknown
      exact hknown hlookup
    rw [hfile]
    exact clean_load pal

theorem table_put (st : FileStore) (id : ActorId) (s : Slot) : (st.put id s).table.lookup id = some s.entry :=
  AList.lookup_insert _

theorem table_put_ne (st : FileStore) {id other : ActorId} (s : Slot) (h : other ≠ id) :
    (st.put id s).table.lookup other = st.table.lookup other := AList.lookup_insert_ne h

theorem mem_put {id : ActorId} {path : List Char} (h : path ∈ (st.put id s).disk) :
    path = st.pathFor id ∨ path ∈ st.disk := by
  cases hfile : s.file with
  | some file =>
    simp only [FileStore.put, hfile] at h
    exact (AList.mem_insert st.disk).mp h
  | none =>
    simp only [FileStore.put, hfile] at h
    exact .inr (AList.mem_erase.mp h).2

theorem Clean.put (h : Clean st) {id : ActorId} (hs : s.Clean) : Clean (st.put id s) := by
  refine ⟨fun path hpath => ?_, fun other e hlookup => ?_⟩
  · rcases mem_put hpath with rfl | hin
    · refine ⟨id, rfl, ?_⟩
      rw [table_put]
      exact Option.some_ne_none _
    · obtain ⟨other, rfl, hknown⟩ := h.named path hin
      refine ⟨other, rfl, ?_⟩
      by_cases heq : other = id
      · rw [heq, table_put]
        exact Option.some_ne_none _
      · rw [table_put_ne st s heq]
        exact hknown
  · change Slot.Clean { file := (st.put id s).disk.lookup (st.pathFor other), entry := e }
    by_cases heq : other = id
    · rw [heq, table_put] at hlookup
      cases hlookup
      rw [heq, file_put]
      exact hs
    · rw [table_put_ne st s heq] at hlookup
      rw [file_put_ne st s heq]
      exact h.slots other e hlookup

theorem clean_of_reachable {root : List Char} {s : Issuing FileStore}
    (h : Reachable step { store := { root } } s) : Clean s.store ∧ Kept s.store.held s.issued := by
  refine h.invariant (I := fun s => Clean s.store ∧ Kept s.store.held s.issued)
    ⟨⟨fun path hpath => ?_, fun id e hlookup => ?_⟩, kept_empty⟩ fun s c s' hinv hstep => ?_
  · exact absurd hpath (AList.notMem_empty path)
  · cases hlookup
  · obtain ⟨hclean, hkept⟩ := hinv
    unfold step at hstep
    split at hstep
    · next hreopens =>
      cases hstep
      obtain ⟨hslot, hheld⟩ := clean_entry hclean c.2.2 c.1
      obtain ⟨hslot', hserves⟩ := hslot.serve hreopens c.2.1
      refine ⟨hclean.put hslot', hkept.serve ?_ fun other hne => ?_⟩
      · rw [← hheld]
        change Serves _ _ (((s.store.put c.1 _).table.lookup c.1).map Entry.toStoreEntry |>.getD {})
        rw [table_put]
        exact hserves
      · unfold held
        rw [serve, table_put_ne s.store _ hne]
    · cases hstep

theorem hexNat_hexDigits (n v : Nat) : hexNat (hexDigits n v) = v % 16 ^ n := by
  have hdigit : ∀ d < 16, hexValue (Nat.digitChar d) = d := by decide
  induction n generalizing v with
  | zero =>
    rw [pow_zero, Nat.mod_one]
    rfl
  | succ n ih =>
    have hlast : hexNat (hexDigits n (v / 16) ++ [Nat.digitChar (v % 16)]) =
        16 * hexNat (hexDigits n (v / 16)) + hexValue (Nat.digitChar (v % 16)) := List.foldl_append
    rw [hexDigits, hlast, ih, hdigit _ (Nat.mod_lt _ (by decide)), pow_succ, mul_comm (16 ^ n), Nat.mod_mul]
    exact add_comm _ _

theorem ofNat_hexNat (v : UInt64) : UInt64.ofNat (hexNat (hexDigits 16 v.toNat)) = v := by
  rw [hexNat_hexDigits, Nat.mod_eq_of_lt (show v.toNat < 16 ^ 16 from v.toNat_lt)]
  exact UInt64.ofNat_toNat

theorem parseName_name (id : ActorId) : parseName (hexDigits 16 id.type.value.toNat ++
    '-' :: (hexDigits 16 id.key.toNat ++ ['.', 'q', 'w', 'a', 'l'])) = some id := by
  have ht := hexDigits_length 16 id.type.value.toNat
  have hk := hexDigits_length 16 id.key.toNat
  unfold parseName
  rw [isLogName_name, if_pos rfl, List.take_left' ht, List.append_cons,
    List.drop_left' (by rw [List.length_append, ht, List.length_singleton]), List.take_left' hk,
    ofNat_hexNat, ofNat_hexNat]

theorem pathFor_parsed {files : List (Sigma fun _ : List Char => List UInt8)}
    (h : ∀ f ∈ files, ∃ id, f.1 = st.pathFor id) :
    (files.filterMap fun f => (st.nameOf f.1).bind parseName).map st.pathFor = files.map Sigma.fst := by
  induction files with
  | nil => rfl
  | cons f files ih =>
    obtain ⟨id, hpath⟩ := h f List.mem_cons_self
    have hid : (st.nameOf f.1).bind parseName = some id := by
      rw [hpath, nameOf_pathFor, Option.bind_some, parseName_name]
    simp only [List.filterMap_cons, hid, List.map_cons]
    rw [ih fun f' hf' => h f' (List.mem_cons_of_mem _ hf'), hpath]

theorem mem_actorIds (h : ∀ path ∈ st.disk, ∃ id, path = st.pathFor id) :
    st.actorIds.Nodup ∧ ∀ id, id ∈ st.actorIds ↔ st.pathFor id ∈ st.disk := by
  have hpaths : (st.disk.entries.filterMap fun f => (st.nameOf f.1).bind parseName).map st.pathFor = st.disk.keys :=
    pathFor_parsed fun f hf => h f.1 (List.mem_map.mpr ⟨f, hf, rfl⟩)
  have hperm := List.perm_insertionSort (fun a b => idLe a b = true)
    (st.disk.entries.filterMap fun f => (st.nameOf f.1).bind parseName)
  refine ⟨hperm.nodup_iff.mpr (List.Nodup.of_map st.pathFor ?_), fun id => ?_⟩
  · rw [hpaths]
    exact st.disk.keys_nodup
  · rw [AList.mem_keys, ← hpaths, List.mem_map_of_injective (pathFor_injective st)]
    exact hperm.mem_iff

theorem backupIds_ok {E : ActorId → StoreEntry} {done : List (Sigma fun _ : ActorId => StoreEntry)}
    {ids : List ActorId}
    (h : ∀ id ∈ ids, ∃ e, st.table.lookup id = some e ∧ e.corrupt = false ∧ e.toStoreEntry = E id) :
    (st.backupIds pal done ids).1 = .ok (done ++ ids.map fun id => ⟨id, E id⟩) := by
  induction ids generalizing st done with
  | nil =>
    rw [List.map_nil, List.append_nil]
    rfl
  | cons id ids ih =>
    obtain ⟨e, hlookup, hintact, heq⟩ := h id List.mem_cons_self
    have hentry : st.entry pal id = { file := st.disk.lookup (st.pathFor id), entry := e } := by
      rw [FileStore.entry, hlookup]
    have hrest : ∀ other ∈ ids, ∃ e',
        (st.put id { file := st.disk.lookup (st.pathFor id), entry := e }).table.lookup other =
        some e' ∧ e'.corrupt = false ∧ e'.toStoreEntry = E other := by
      intro other hother
      by_cases hsame : other = id
      · rw [hsame, table_put]
        exact ⟨e, rfl, hintact, heq⟩
      · rw [table_put_ne st _ hsame]
        exact h other (List.mem_cons_of_mem _ hother)
    unfold backupIds
    dsimp only
    rw [hentry]
    dsimp only
    rw [hintact, if_neg Bool.false_ne_true, ih hrest, heq, List.append_assoc]
    rfl

theorem cut_of_clean (h : Clean st) (pal : Pal) :
    ∃ img, (st.snapshotTo pal).1 = .ok img ∧ Cut st.held img := by
  obtain ⟨hnodup, hmem⟩ := mem_actorIds fun path hpath => (h.named path hpath).imp fun id hid => hid.1
  have hids : (st.actorIds.map fun id => (⟨id, st.held id⟩ : Sigma fun _ : ActorId => StoreEntry)).map Sigma.fst =
      st.actorIds := by
    rw [List.map_map]
    exact List.map_id _
  have hknown : ∀ id ∈ st.actorIds, ∃ e, st.table.lookup id = some e ∧ e.corrupt = false ∧
      e.toStoreEntry = st.held id := by
    intro id hid
    obtain ⟨other, hpath, hlookup⟩ := h.named _ ((hmem id).mp hid)
    rw [← pathFor_injective st hpath] at hlookup
    obtain ⟨e, he⟩ := Option.ne_none_iff_exists'.mp hlookup
    refine ⟨e, he, (h.slots id e he).1, ?_⟩
    rw [held, he]
    rfl
  refine ⟨_, ?_, @cut_imageOf st.held (st.actorIds.map fun id => ⟨id, st.held id⟩) ?_
    (fun e he => ?_) fun id hid => ?_⟩
  · rw [snapshotTo, backupIds_ok hknown]
    rfl
  · rw [hids]
    exact hnodup
  · obtain ⟨id, -, rfl⟩ := List.mem_map.mp he
    rfl
  · rw [hids, hmem] at hid
    unfold held
    cases hlookup : st.table.lookup id with
    | none => rfl
    | some e => exact ((h.slots id e hlookup).2 (AList.lookup_eq_none.mpr hid)).2

theorem served_eq (h : Clean st) (pal : Pal) : st.served pal = servedBy st.held := by
  unfold served servedBy
  congr 1
  · funext id
    obtain ⟨hslot, hheld⟩ := clean_entry h pal id
    rw [loadSnapshot, hslot.1, if_neg Bool.false_ne_true, ← hheld]
  · funext id from_
    obtain ⟨hslot, hheld⟩ := clean_entry h pal id
    rw [readLog, hslot.1, if_neg Bool.false_ne_true, ← hheld]
  · funext id
    obtain ⟨-, hheld⟩ := clean_entry h pal id
    rw [lastSeq, ← hheld]

end

end FileStore

/-- From any reachable state of either store, the image taken restores into an empty store that serves the
same, refuses every token issued before the cut, and goes on behind the log. -/
theorem backup_restores :
    (∀ (s : Issuing InMemoryStore) (img : BackupImage) (minEpoch : FencingEpoch),
      Reachable InMemoryStore.step { store := {} } s → s.store.SnapshotTo img → Fits img s.issued minEpoch →
        Restores s.store.served s.issued img minEpoch) ∧
    ∀ (root : List Char) (s : Issuing FileStore) (pal : Pal),
      Reachable FileStore.step { store := { root } } s → ∃ img, (s.store.snapshotTo pal).1 = .ok img ∧
        ∀ minEpoch, Fits img s.issued minEpoch → Restores (s.store.served pal) s.issued img minEpoch := by
  constructor
  · intro s img minEpoch hreach hsnap hfits
    exact (InMemoryStore.cut_of_snapshotTo hsnap).restores (InMemoryStore.kept_of_reachable hreach) hfits
  · intro root s pal hreach
    obtain ⟨hclean, hkept⟩ := FileStore.clean_of_reachable hreach
    obtain ⟨img, himg, hcut⟩ := FileStore.cut_of_clean hclean pal
    refine ⟨img, himg, fun minEpoch hfits => ?_⟩
    rw [FileStore.served_eq hclean pal]
    exact hcut.restores hkept hfits

def compactedCalls : List (ActorId × StoreCall) :=
  [.write .acquireFence, .write (.append ⟨1⟩ 1 [10]), .write (.append ⟨1⟩ 2 [11]),
    .write (.saveSnapshot ⟨1⟩ { throughSeq := 1, record := [5] }), .truncate ⟨1⟩ 1, .write .acquireFence, .read].map
      fun c => (⟨⟨7⟩, 1⟩, c)

def compactedImage : BackupImage where
  epoch := ⟨2⟩
  actors := [{ id := ⟨⟨7⟩, 1⟩, owner := ⟨2⟩, lastSeq := 2, snapshot := some ⟨⟨1⟩, 1, [5]⟩, log := [⟨2, [11]⟩] }]

theorem compacted_fits : Fits compactedImage [(⟨⟨7⟩, 1⟩, ⟨1⟩), (⟨⟨7⟩, 1⟩, ⟨2⟩)] ⟨0⟩ where
  count := by decide
  small := by
    intro a ha
    rw [List.mem_singleton.mp ha]
    exact ⟨by simp, by simp, by simp⟩
  issued := by decide
  fences := by decide
  minEpoch := by decide

theorem backup_restores_compacted :
    Restores (InMemoryStore.served
    ((Machine.run InMemoryStore.step { store := {} } compactedCalls).map Issuing.store |>.getD {}))
        [(⟨⟨7⟩, 1⟩, ⟨1⟩), (⟨⟨7⟩, 1⟩, ⟨2⟩)] compactedImage ⟨0⟩ ∧
      ∃ s, Reachable FileStore.step { store := {} } s ∧
        Restores (s.store.served {}) [(⟨⟨7⟩, 1⟩, ⟨1⟩), (⟨⟨7⟩, 1⟩, ⟨2⟩)] compactedImage ⟨0⟩ := by
  constructor
  · obtain ⟨s, hs, hfacts⟩ := Option.map_eq_some_iff.mp
      (show (Machine.run InMemoryStore.step { store := {} } compactedCalls).map
        (fun s => decide (imageOf s.store.table.entries = compactedImage ∧
          s.issued = [(⟨⟨7⟩, 1⟩, ⟨1⟩), (⟨⟨7⟩, 1⟩, ⟨2⟩)])) = some true by decide +kernel)
    obtain ⟨himg, hissued⟩ := of_decide_eq_true hfacts
    rw [hs, Option.map_some, Option.getD_some]
    have hall := backup_restores.1 s compactedImage ⟨0⟩ (reachable_of_run hs) ⟨_, List.Perm.refl _, himg.symm⟩
    rw [hissued] at hall
    exact hall compacted_fits
  · obtain ⟨s, hs, hfacts⟩ := Option.map_eq_some_iff.mp
      (show (Machine.run FileStore.step { store := {} } (compactedCalls.map fun c => (c.1, c.2, {}))).map
        (fun s => decide ((s.store.snapshotTo {}).1 = .ok compactedImage ∧
          s.issued = [(⟨⟨7⟩, 1⟩, ⟨1⟩), (⟨⟨7⟩, 1⟩, ⟨2⟩)])) = some true by decide +kernel)
    obtain ⟨himg, hissued⟩ := of_decide_eq_true hfacts
    have hreach := reachable_of_run hs
    obtain ⟨img, himg', hall⟩ := backup_restores.2 [] s {} hreach
    cases himg.symm.trans himg'
    rw [hissued] at hall
    exact ⟨s, hreach, hall ⟨0⟩ compacted_fits⟩

/-- A snapshot saved under a token of `2^64 - 2`: the next fence after the restore wraps to 0 and nothing can be
appended under it. An actor that the source does not know takes the token of another. -/
theorem restored_token_wraps : ∃ s img ep st, Reachable InMemoryStore.step { store := {} } s ∧
    s.store.SnapshotTo img ∧ (∀ t ∈ s.issued, t.2.value.toNat < 2 ^ 64 - 1) ∧
    (∀ a ∈ img.actors, a.Below (2 ^ 64 - 1) ∧ a.Small) ∧ img.actors.length < 2 ^ 32 ∧
    ({} : InMemoryStore).restoreFrom img ⟨0⟩ = (.ok ep, st) ∧
    (st.acquireFence ⟨⟨7⟩, 1⟩).1 = .ok ⟨0⟩ ∧
    ((st.acquireFence ⟨⟨7⟩, 1⟩).2.append ⟨⟨7⟩, 1⟩ ⟨0⟩ (st.lastSeq ⟨⟨7⟩, 1⟩ + 1) [10]).1 = fencedError ∧
    (⟨⟨7⟩, 1⟩, ⟨1⟩) ∈ s.issued ∧ (st.append ⟨⟨7⟩, 2⟩ ⟨1⟩ 1 [10]).1 = .ok () := by
  obtain ⟨s, hs, hfacts⟩ := Option.map_eq_some_iff.mp
    (show (Machine.run InMemoryStore.step { store := {} } [(⟨⟨7⟩, 1⟩, .write .acquireFence),
        (⟨⟨7⟩, 1⟩, .write (.saveSnapshot ⟨0xFFFFFFFFFFFFFFFE⟩ {}))]).map
      (fun s => decide (imageOf s.store.table.entries =
        { epoch := ⟨1⟩
          actors := [{ id := ⟨⟨7⟩, 1⟩, owner := ⟨1⟩, snapshot := some ⟨⟨0xFFFFFFFFFFFFFFFE⟩, 0, []⟩ }] } ∧
        s.issued = [(⟨⟨7⟩, 1⟩, ⟨1⟩)])) = some true by decide +kernel)
  obtain ⟨himg, hissued⟩ := of_decide_eq_true hfacts
  refine ⟨s, _, ⟨0xFFFFFFFFFFFFFFFF⟩, _, reachable_of_run hs, ⟨_, List.Perm.refl _, himg.symm⟩, ?_,
    fun a ha => ?_, ?_, rfl, ?_, ?_, ?_, ?_⟩
  · rw [hissued]
    decide
  · rw [List.mem_singleton.mp ha]
    exact ⟨by unfold ActorBackup.Below; decide, by simp, by simp, by simp⟩
  · decide
  · decide
  · decide
  · rw [hissued]
    exact List.mem_singleton.mpr rfl
  · decide

end Quark
