import Quark.FileStoreCompaction

/-! Failed appends. A failed `durable_append` leaves its bytes past the append offset, and a later
shorter record covers only their head. What stays is harmless while replay takes it for a torn tail. -/
namespace Quark

namespace FileStore.Slot

def stale (s : Slot) : List UInt8 := s.bytes.drop s.entry.writeOff

theorem Holds.stale_eq {s : Slot} {e : StoreEntry} {stale : List UInt8} (h : s.Holds e stale) :
    s.stale = stale := by
  obtain ⟨bodies, _, hf, hoff⟩ := h.journaled
  rw [Slot.stale, bytes, hf, Option.getD_some, hoff, List.drop_left' rfl]

theorem Holds.call_failed {s : Slot} {e : StoreEntry} {stale : List UInt8} {k : Nat}
    (h : s.Holds e stale) (op : StoreOp) (pal : Pal) (hp : pal.append = .failed k) :
    (s.call pal op).1 ≠ .ok () ∧ ∃ stale', (s.call pal op).2.Holds e stale' := by
  rw [call_eq pal h.intact op, h.entry_eq]
  cases happ : e.apply op with
  | mk res e' =>
    cases res with
    | error err => exact ⟨by simp, stale, h⟩
    | ok u =>
      obtain ⟨hfail, hholds⟩ := h.durableAppend_failed pal hp (op.body e)
      revert hfail hholds
      rcases s.durableAppend pal (op.body e) with ⟨ok, s'⟩
      rintro rfl hholds
      exact ⟨by simp, _, hholds⟩

theorem truncateLog_refused {s : Slot} {tok : FenceToken} {throughSeq : SeqNo}
    (h : (s.truncateLog {} tok throughSeq).1 ≠ .ok ()) : (s.truncateLog {} tok throughSeq).2 = s := by
  simp only [truncateLog] at h ⊢
  split
  · rfl
  · next hc =>
    simp only [hc] at h
    split
    · rfl
    · rfl
    · next hadm hsnap =>
      simp only [hadm, hsnap] at h
      by_cases hn : s.entry.dropCount throughSeq = 0
      · rw [if_pos hn]
      · rw [if_neg hn] at h
        exact absurd rfl h

theorem truncateLog_admitted {s : Slot} {pal : Pal} {tok : FenceToken} {throughSeq : SeqNo}
    (hok : (s.truncateLog pal tok throughSeq).1 = .ok ()) : s.entry.admitTruncate tok throughSeq = .ok () := by
  simp only [truncateLog] at hok
  split at hok
  · cases hok
  · cases hadm : s.entry.admitTruncate tok throughSeq with
    | error err =>
      rw [hadm] at hok
      cases hok
    | ok u => rfl

end FileStore.Slot

namespace InMemoryStore

theorem truncateLog_entry {st : InMemoryStore} {id : ActorId} {tok : FenceToken} {throughSeq : SeqNo}
    (h : (st.entry id).admitTruncate tok throughSeq = .ok ()) :
    (st.truncateLog id tok throughSeq).2.entry id =
      (st.entry id).eraseFront ((st.entry id).dropCount throughSeq) := by
  simp only [truncateLog, h, entry_put]

theorem truncateLog_entry_ne {st : InMemoryStore} {id other : ActorId} {tok : FenceToken} {throughSeq : SeqNo}
    (h : other ≠ id) : (st.truncateLog id tok throughSeq).2.entry other = st.entry other := by
  simp only [truncateLog]
  split <;> exact entry_put_ne _ _ h

end InMemoryStore

namespace FileStore.Failure

/-- Each write comes with the fate of its append; the process goes on after a failure. -/
inductive Event
  | call (id : ActorId) (op : StoreOp) (fate : AppendFate)
  | truncate (id : ActorId) (tok : FenceToken) (throughSeq : SeqNo)
  | read (id : ActorId)
  | reopen

/-- The file store, and the reference store that runs what the file store acknowledged. -/
structure Pair where
  st : FileStore := {}
  mem : InMemoryStore := {}

def step (p : Pair) : Event → Pair
  | .call id op fate =>
    let r := p.st.call { append := fate } id op
    { st := r.2, mem := if r.1 = .ok () then (p.mem.call id op).2 else p.mem }
  | .truncate id tok throughSeq =>
    let r := p.st.truncateLog {} id tok throughSeq
    { st := r.2, mem := if r.1 = .ok () then (p.mem.truncateLog id tok throughSeq).2 else p.mem }
  | .read id => { p with st := p.st.touch {} id }
  | .reopen => { p with st := p.st.reopen }

def run (p : Pair) (events : List Event) : Pair := events.foldl step p

/-- The steps that do not meet the defect: records have a length that fits their header, a compaction
fits, and a store is closed only when replay will take what failed appends left behind for a torn tail. -/
def Safe (p : Pair) : Event → Prop
  | .call _ op _ => op.Bounded
  | .truncate id tok throughSeq =>
    (p.st.truncateLog {} id tok throughSeq).1 = .ok () →
      CutFits (p.st.entry {} id).entry.toStoreEntry throughSeq
  | .read _ => True
  | .reopen => ∀ id, p.st.table.lookup id ≠ none → Torn (p.st.entry {} id).stale

def SafeRun (p : Pair) : List Event → Prop
  | [] => True
  | ev :: events => Safe p ev ∧ SafeRun (step p ev) events

/-- Every actor is what the reference store has for it, whatever its file has past the append offset. -/
def Follows (p : Pair) : Prop := ∀ id, ∃ stale, (p.st.entry {} id).Holds (p.mem.entry id) stale

theorem Follows.call {p : Pair} (h : Follows p) (id : ActorId) {op : StoreOp} (fate : AppendFate)
    (hb : op.Bounded) : Follows (step p (.call id op fate)) := by
  obtain ⟨stale, hid⟩ := h id
  have hsound : Sound { append := fate } := ⟨rfl, rfl, rfl⟩
  have hentry : p.st.entry { append := fate } id = p.st.entry {} id := entry_sound hsound p.st id
  intro other
  by_cases hne : other = id
  · subst hne
    simp only [step, FileStore.call, hentry, entry_put]
    cases hfate : fate with
    | flushed =>
      obtain ⟨hres, n, hholds⟩ := hid.call_flushed { append := .flushed } rfl hb
      refine ⟨stale.drop n, ?_⟩
      split
      · rw [InMemoryStore.call_entry]
        exact hholds
      · next hrej =>
        rw [hres] at hrej
        cases happ : (p.mem.entry other).apply op with
        | mk res e' =>
          cases res with
          | error err =>
            rw [happ, StoreEntry.apply_error happ] at hholds
            exact hholds
          | ok u => simp [happ] at hrej
    | failed k =>
      obtain ⟨hres, stale', hholds⟩ := hid.call_failed op { append := .failed k } rfl
      refine ⟨stale', ?_⟩
      rw [if_neg hres]
      exact hholds
  · obtain ⟨stale', hother⟩ := h other
    refine ⟨stale', ?_⟩
    have hmem : (step p (.call id op fate)).mem.entry other = p.mem.entry other := by
      simp only [step]
      split
      · exact InMemoryStore.call_entry_ne _ _ hne
      · rfl
    rw [hmem]
    simp only [step, FileStore.call, entry_put_ne _ _ _ hne]
    exact hother

theorem Follows.truncate {p : Pair} (h : Follows p) (id : ActorId) (tok : FenceToken) (throughSeq : SeqNo)
    (hfits : (p.st.truncateLog {} id tok throughSeq).1 = .ok () →
      CutFits (p.st.entry {} id).entry.toStoreEntry throughSeq) :
    Follows (step p (.truncate id tok throughSeq)) := by
  intro other
  by_cases hne : other = id
  · subst hne
    obtain ⟨stale, hid⟩ := h other
    have hslot : (step p (.truncate other tok throughSeq)).st.entry {} other =
        ((p.st.entry {} other).truncateLog {} tok throughSeq).2 := entry_put _ _ _ _
    rw [hslot]
    by_cases hok : (p.st.truncateLog {} other tok throughSeq).1 = .ok ()
    · have hmem : (step p (.truncate other tok throughSeq)).mem = (p.mem.truncateLog other tok throughSeq).2 :=
        if_pos hok
      have hfits := hfits hok
      have hadm := Slot.truncateLog_admitted hok
      rw [hid.entry_eq] at hfits hadm
      obtain ⟨stale', _, hholds⟩ := hid.truncateLog hok hfits
      refine ⟨stale', ?_⟩
      rw [hmem, InMemoryStore.truncateLog_entry hadm]
      exact hholds
    · have hmem : (step p (.truncate other tok throughSeq)).mem = p.mem := if_neg hok
      rw [hmem, Slot.truncateLog_refused hok]
      exact ⟨stale, hid⟩
  · obtain ⟨stale', hother⟩ := h other
    refine ⟨stale', ?_⟩
    have hmem : (step p (.truncate id tok throughSeq)).mem.entry other = p.mem.entry other := by
      simp only [step]
      split
      · exact InMemoryStore.truncateLog_entry_ne hne
      · rfl
    rw [hmem]
    simp only [step, FileStore.truncateLog, entry_put_ne _ _ _ hne]
    exact hother

theorem Follows.step {p : Pair} (h : Follows p) {ev : Event} (hs : Safe p ev) : Follows (step p ev) := by
  cases ev with
  | call id op fate => exact h.call id fate hs
  | truncate id tok throughSeq => exact h.truncate id tok throughSeq hs
  | read id =>
    intro other
    by_cases hne : other = id
    · subst hne
      simp only [Failure.step, touch, entry_put]
      exact h other
    · simp only [Failure.step, touch, entry_put_ne _ _ _ hne]
      exact h other
  | reopen =>
    intro id
    obtain ⟨stale, hid⟩ := h id
    obtain ⟨stale', _, hholds⟩ := reopen_holds hid fun hloaded => by
      rw [← hid.stale_eq]
      exact hs id hloaded
    exact ⟨stale', hholds⟩

theorem Follows.run {p : Pair} (h : Follows p) {events : List Event} (hs : SafeRun p events) :
    Follows (run p events) := by
  induction events generalizing p with
  | nil => exact h
  | cons ev events ih => exact ih (h.step hs.1) hs.2

/-- In a run whose steps are all safe, every reopen serves, for every actor, exactly what the
acknowledged operations left in the reference store. -/
theorem reopened_serves_acknowledged_after_failures (root : List Char) (events : List Event)
    (hs : SafeRun { st := { root := root } } (events ++ [.reopen])) (id : ActorId) :
    ((run { st := { root := root } } (events ++ [.reopen])).st.entry {} id).entry.corrupt = false ∧
      ((run { st := { root := root } } (events ++ [.reopen])).st.entry {} id).entry.toStoreEntry =
        (run { st := { root := root } } (events ++ [.reopen])).mem.entry id := by
  have hstart : Follows { st := { root := root } } := fun id =>
    ⟨[], load_holds healthy Recovers.empty Torn.nil⟩
  obtain ⟨stale, hholds⟩ := hstart.run hs id
  exact ⟨hholds.intact, hholds.entry_eq⟩

/-- A fence; an append of an empty event that fails after `k` bytes of its frame; a read. -/
def failedAppend (k : Nat) : List Event :=
  [.call ⟨⟨7⟩, 1⟩ .acquireFence .flushed, .call ⟨⟨7⟩, 1⟩ (.append ⟨1⟩ 1 []) (.failed k), .read ⟨⟨7⟩, 1⟩]

theorem bounded_acquireFence : StoreOp.Bounded .acquireFence := by simp [StoreOp.Bounded, StoreOp.body]

theorem bounded_emptyAppend : StoreOp.Bounded (.append ⟨1⟩ 1 []) := by
  simp [StoreOp.Bounded, StoreOp.body, putEvents]

/-- Eleven bytes of the failed append are left at the end of the file when the store is closed. -/
theorem reopened_serves_acknowledged_after_short_write :
    ((run { st := { root := [] } } (failedAppend 11 ++ [.reopen])).st.entry {} ⟨⟨7⟩, 1⟩).entry.corrupt = false ∧
      ((run { st := { root := [] } } (failedAppend 11 ++ [.reopen])).st.entry {} ⟨⟨7⟩, 1⟩).entry.toStoreEntry =
        (run { st := { root := [] } } (failedAppend 11 ++ [.reopen])).mem.entry ⟨⟨7⟩, 1⟩ := by
  refine reopened_serves_acknowledged_after_failures [] (failedAppend 11)
    ⟨bounded_acquireFence, bounded_emptyAppend, trivial, fun id hloaded => ?_, trivial⟩ ⟨⟨7⟩, 1⟩
  have hkeys : (run { st := { root := [] } } (failedAppend 11)).st.table.keys = [⟨⟨7⟩, 1⟩] := by decide +kernel
  have hid : id ∈ (run { st := { root := [] } } (failedAppend 11)).st.table.keys := by
    rw [← AList.mem_keys]
    by_contra hnot
    exact hloaded (AList.lookup_eq_none.mpr hnot)
  rw [hkeys, List.mem_singleton] at hid
  have htorn : Torn ((run { st := { root := [] } } (failedAppend 11)).st.entry {} ⟨⟨7⟩, 1⟩).stale := by
    decide +kernel
  rw [hid]
  exact htorn

/-- The whole frame of an append is on disk when its flush fails, and the next fence covers only its
first seventeen bytes: the eight zero bytes left over are a frame of their own with a checksum that
matches, and the next open refuses the log with its two acknowledged fences. -/
theorem covered_append_corrupts :
    ((run {} [.call ⟨⟨7⟩, 1⟩ .acquireFence .flushed, .call ⟨⟨7⟩, 1⟩ (.append ⟨1⟩ 1 []) (.failed 25),
        .call ⟨⟨7⟩, 1⟩ .acquireFence .flushed]).mem.entry ⟨⟨7⟩, 1⟩).owner = ⟨2⟩ ∧
      ((run {} [.call ⟨⟨7⟩, 1⟩ .acquireFence .flushed, .call ⟨⟨7⟩, 1⟩ (.append ⟨1⟩ 1 []) (.failed 25),
        .call ⟨⟨7⟩, 1⟩ .acquireFence .flushed, .reopen]).st.entry {} ⟨⟨7⟩, 1⟩).entry.corrupt = true := by
  decide +kernel

end FileStore.Failure

end Quark
