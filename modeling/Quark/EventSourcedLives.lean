import Quark.EventLog

/-! Any number of lives of one event-sourced actor over a shared store: each acquires a fence, recovers and works on a
log of its own, and their store calls interleave. -/
namespace Quark

open Machine Function List Option UInt64 Wire

variable {P : EventSourced}

/-- Where a life is: between the two store calls of its recovery, between the two of a compaction, or with a log. -/
inductive Life (P : EventSourced)
  | unborn
  | fenced (tok : FenceToken)
  | loaded (tok : FenceToken) (snap : Option (RecoveredSnapshot P))
  | recovered (tok : FenceToken) (r : RecoveredState P)
  | running (log : EventLog P)
  | truncating (log : EventLog P) (last : SeqNo)
  | ended

namespace Life

def token : Life P → Option FenceToken
  | .unborn | .ended => none
  | .fenced tok | .loaded tok _ | .recovered tok _ => some tok
  | .running log | .truncating log _ => some log.fence

def log : Life P → Option (EventLog P)
  | .running log | .truncating log _ => some log
  | _ => none

def staged (l : Life P) : List P.event.Obj := (l.log.map EventLog.staged).getD []

def result : Life P → Option (FenceToken × P.state.Val × SeqNo)
  | .recovered tok r => some (tok, r.state, r.lastSeq)
  | _ => none

end Life

/-- `committed` is what the commits that succeeded appended, in order, with the sequence number of each. -/
structure Lives (P : EventSourced) (A : Type) where
  store : InMemoryStore := {}
  life : A → Life P := fun _ => .unborn
  committed : List (SeqNo × P.event.Obj) := []

inductive LifeLabel (P : EventSourced) (A : Type)
  | acquire (a : A) (fault : Option Error)
  | load (a : A) (fault : Option Error)
  | replay (a : A) (fault : Option Error)
  | build (a : A) (fromStore : Bool)
  | stage (a : A) (ev : P.event.Obj)
  | rollback (a : A)
  | setLastSnapshotSeq (a : A) (s : SeqNo)
  | commit (a : A) (fault : Option Error)
  | compactSave (a : A) (every : UInt64) (state : P.state.Obj) (fault : Option Error)
  | compactTruncate (a : A) (fault : Option Error)
  | end_ (a : A)

def numbered (seq : SeqNo) : List P.event.Obj → List (SeqNo × P.event.Obj)
  | [] => []
  | ev :: rest => (seq, ev) :: numbered (seq + 1) rest

def EventSourced.fold (P : EventSourced) (events : List P.event.Obj) : P.state.Val :=
  events.foldl (fun st ev => P.apply st ev.1) P.initial

namespace Lives

variable {A : Type}

def events (s : Lives P A) : List P.event.Obj := s.committed.map Prod.snd

def entry (s : Lives P A) : StoreEntry := s.store.entry P.id

def recovery (s : Lives P A) : RecoveredState P where
  state := P.fold s.events
  lastSeq := (s.committed.getLast?.map Prod.fst).getD 0
  fence := (s.entry.snapshot.map SnapshotRecord.fence).getD ⟨0⟩

variable [DecidableEq A]

def at_ (s : Lives P A) (a : A) (l : Life P) : Lives P A := { s with life := update s.life a l }

def onLog (s : Lives P A) (a : A) (f : EventLog P → EventLog P) : Option (Lives P A) :=
  match s.life a with
  | .running log => some (s.at_ a (.running (f log)))
  | _ => none

def step (s : Lives P A) : LifeLabel P A → Option (Lives P A)
  | .acquire a fault =>
    match s.life a with
    | .unborn =>
      match s.store.attempt fault fun st => st.acquireFence P.id with
      | (.error _, store) => some { s with store }
      | (.ok tok, store) => some ({ s with store }.at_ a (.fenced tok))
    | _ => none
  | .load a fault =>
    match s.life a with
    | .fenced tok =>
      match P.loadSnapshotMigrated P.id fault s.store with
      | .error _ => some s
      | .ok snap => some (s.at_ a (.loaded tok snap))
    | _ => none
  | .replay a fault =>
    match s.life a with
    | .loaded tok snap =>
      match P.recoverFrom P.id snap fault s.store with
      | .error _ => some (s.at_ a (.fenced tok))
      | .ok r => some (s.at_ a (.recovered tok r))
    | _ => none
  | .build a fromStore =>
    match s.life a with
    | .recovered tok r =>
      let last := if fromStore then s.store.lastSeq P.id else r.lastSeq
      some (s.at_ a (.running (EventLog.create P.id tok (last + 1))))
    | _ => none
  | .stage a ev => s.onLog a fun log => log.stage ev
  | .rollback a => s.onLog a EventLog.rollback
  | .setLastSnapshotSeq a n => s.onLog a fun log => log.setLastSnapshotSeq n
  | .commit a fault =>
    match s.life a with
    | .running log =>
      match log.commit fault s.store with
      | (.error _, log', store) => some ({ s with store }.at_ a (.running log'))
      | (.ok _, log', store) =>
        some ({ s with store, committed := s.committed ++ numbered log.nextSeq log.staged }.at_ a (.running log'))
    | _ => none
  | .compactSave a every state fault =>
    match s.life a with
    | .running log =>
      match log.compactSave every state.1 fault s.store with
      | (.ok (some last), log', store) => some ({ s with store }.at_ a (.truncating log' last))
      | (_, log', store) => some ({ s with store }.at_ a (.running log'))
    | _ => none
  | .compactTruncate a fault =>
    match s.life a with
    | .truncating log last =>
      some ({ s with store := (log.compactTruncate last fault s.store).2 }.at_ a (.running log))
    | _ => none
  | .end_ a => some (s.at_ a .ended)

/-- `compactIfDue` is the two halves of a compaction with nothing between them. -/
theorem compactIfDue_run {s : Lives P A} {a : A} {log : EventLog P} (h : s.life a = .running log) (every : UInt64)
    (state : P.state.Obj) (saveFault truncateFault : Option Error) :
    ∃ rest, (rest = [] ∨ rest = [.compactTruncate a truncateFault]) ∧
      Machine.run step s (.compactSave a every state saveFault :: rest) =
        some ({ s with store := (log.compactIfDue every state.1 saveFault truncateFault s.store).2.2 }.at_ a
          (.running (log.compactIfDue every state.1 saveFault truncateFault s.store).2.1)) := by
  unfold EventLog.compactIfDue
  rcases hsave : log.compactSave every state.1 saveFault s.store with ⟨err | _ | last, log', store⟩
  · exact ⟨[], .inl rfl, run_cons.mpr ⟨_, by simp only [step, h, hsave], rfl⟩⟩
  · exact ⟨[], .inl rfl, run_cons.mpr ⟨_, by simp only [step, h, hsave], rfl⟩⟩
  · have hsaved : s.step (.compactSave a every state saveFault) =
        some ({ s with store }.at_ a (.truncating log' last)) := by
      simp only [step, h, hsave]
    refine ⟨[.compactTruncate a truncateFault], .inr rfl, run_cons.mpr ⟨_, hsaved, run_cons.mpr ⟨_, ?_, rfl⟩⟩⟩
    simp only [step, at_, update_self, update_idem]

/-- The token counter does not wrap, the sequence numbers stay below the last one there is, and a life that is not
fenced out compacts with the fold of the committed events. -/
def Sound (s : Lives P A) : LifeLabel P A → Prop
  | .acquire _ _ => s.entry.owner.value + 1 ≠ 0
  | .commit a _ => s.committed.length + (s.life a).staged.length + 1 < 2 ^ 64
  | .compactSave a _ state _ => (s.life a).token = some s.entry.owner → state.1 = P.fold s.events
  | _ => True

end Lives


/-! Numbered records. -/

section

variable {seq : SeqNo} {recs : List (List UInt8)} {evs : List P.event.Obj}

attribute [local simp] numberFrom numbered

theorem ofNat_add_one (n : Nat) : UInt64.ofNat n + 1 = UInt64.ofNat (n + 1) := (ofNat_add n 1).symm

theorem numberFrom_append (n : Nat) (xs ys : List (List UInt8)) :
    numberFrom (UInt64.ofNat n) (xs ++ ys) =
      numberFrom (UInt64.ofNat n) xs ++ numberFrom (UInt64.ofNat (n + xs.length)) ys := by
  induction xs generalizing n with
  | nil => rfl
  | cons x xs ih =>
    rw [cons_append, numberFrom, numberFrom, ofNat_add_one, ih, length_cons, add_right_comm]
    rfl

theorem drop_numberFrom (n k : Nat) :
    (numberFrom (UInt64.ofNat n) recs).drop k = numberFrom (UInt64.ofNat (n + k)) (recs.drop k) := by
  induction recs generalizing n k with
  | nil => cases k <;> rfl
  | cons x xs ih =>
    cases k with
    | zero => rfl
    | succ k =>
      rw [numberFrom, ofNat_add_one, drop_succ_cons, drop_succ_cons, ih, add_assoc, add_comm 1]

theorem increasingFrom_numbered (n : Nat) (hsmall : n + recs.length < 2 ^ 64) :
    StoreEntry.increasingFrom (UInt64.ofNat n) (numberFrom (UInt64.ofNat (n + 1)) recs) =
      .ok (UInt64.ofNat (n + recs.length)) := by
  induction recs generalizing n with
  | nil => rfl
  | cons x xs ih =>
    rw [length_cons] at hsmall
    have hlt : ¬ UInt64.ofNat (n + 1) ≤ UInt64.ofNat n := by
      rw [le_iff_toNat_le, toNat_ofNat', toNat_ofNat', Nat.mod_eq_of_lt (by omega),
        Nat.mod_eq_of_lt (by omega)]
      omega
    rw [numberFrom, StoreEntry.increasingFrom, if_neg hlt, ofNat_add_one, ih (n + 1) (by omega), length_cons,
      add_right_comm, add_assoc]

theorem toNat_ofNat_of_lt {n : Nat} (h : n < 2 ^ 64) : (UInt64.ofNat n).toNat = n :=
  toNat_ofNat_of_lt' h

theorem le_of_mem_numberFrom {n : Nat} {r : EventRecord} (hsmall : n + recs.length ≤ 2 ^ 64)
    (h : r ∈ numberFrom (UInt64.ofNat n) recs) : n ≤ r.seq.toNat := by
  induction recs generalizing n with
  | nil => cases h
  | cons x xs ih =>
    rw [length_cons] at hsmall
    rw [numberFrom, ofNat_add_one] at h
    rcases mem_cons.mp h with rfl | h
    · exact (toNat_ofNat_of_lt (by omega)).ge
    · have hle := ih (by omega) h
      omega

theorem filter_numberFrom_self {n : Nat} (hsmall : n + recs.length ≤ 2 ^ 64) (hn : n < 2 ^ 64) :
    ((numberFrom (UInt64.ofNat n) recs).filter fun r => UInt64.ofNat n ≤ r.seq) = numberFrom
    (UInt64.ofNat n) recs := by
  rw [filter_eq_self]
  intro r hr
  rw [decide_eq_true_eq, le_iff_toNat_le, toNat_ofNat_of_lt hn]
  exact le_of_mem_numberFrom hsmall hr

theorem filter_numberFrom {n k : Nat} (hnk : n ≤ k) (hk : k + 1 < 2 ^ 64) (hsmall : n + recs.length < 2 ^ 64) :
    ((numberFrom (UInt64.ofNat (n + 1)) recs).filter fun r => UInt64.ofNat (k + 1) ≤ r.seq) =
      numberFrom (UInt64.ofNat (k + 1)) (recs.drop (k - n)) := by
  induction recs generalizing n with
  | nil => simp [numberFrom]
  | cons x xs ih =>
    rw [length_cons] at hsmall
    by_cases heq : k = n
    · subst heq
      rw [Nat.sub_self, drop_zero]
      exact filter_numberFrom_self (by rw [length_cons]; omega) hk
    · have hlt : ¬ UInt64.ofNat (k + 1) ≤ UInt64.ofNat (n + 1) := by
        rw [le_iff_toNat_le, toNat_ofNat_of_lt hk, toNat_ofNat_of_lt (by omega)]
        omega
      rw [numberFrom, ofNat_add_one, filter_cons]
      simp only [hlt, decide_false, Bool.false_eq_true, if_false]
      rw [ih (by omega) (by omega), show k - n = (k - (n + 1)) + 1 by omega, drop_succ_cons]

theorem takeWhile_numberFrom {n k : Nat} (hk : k < 2 ^ 64) (hsmall : n + recs.length < 2 ^ 64) :
    ((numberFrom (UInt64.ofNat (n + 1)) recs).takeWhile fun r => r.seq ≤ UInt64.ofNat k).length =
      min (k - n) recs.length := by
  induction recs generalizing n with
  | nil => simp [numberFrom]
  | cons x xs ih =>
    rw [length_cons] at hsmall
    have hle : UInt64.ofNat (n + 1) ≤ UInt64.ofNat k ↔ n + 1 ≤ k := by
      rw [le_iff_toNat_le, toNat_ofNat_of_lt hk, toNat_ofNat_of_lt (by omega)]
    rw [numberFrom, ofNat_add_one, takeWhile_cons]
    simp only [hle, decide_eq_true_eq]
    split
    · rw [length_cons, ih (by omega), length_cons]
      omega
    · rw [length_nil, length_cons]
      omega

theorem map_snd_numbered : (numbered seq evs).map Prod.snd = evs := by
  induction evs generalizing seq with
  | nil => rfl
  | cons ev rest ih => rw [numbered, map_cons, ih]

theorem numbered_append (n : Nat) (xs ys : List P.event.Obj) :
    numbered (UInt64.ofNat n) (xs ++ ys) =
      numbered (UInt64.ofNat n) xs ++ numbered (UInt64.ofNat (n + xs.length)) ys := by
  induction xs generalizing n with
  | nil => rfl
  | cons x xs ih =>
    rw [cons_append, numbered, numbered, ofNat_add_one, ih, length_cons, add_right_comm]
    rfl

theorem last_numbered (evs : List P.event.Obj) :
    ((numbered (UInt64.ofNat 1) evs).getLast?.map Prod.fst).getD 0 = UInt64.ofNat evs.length := by
  rcases eq_nil_or_concat evs with rfl | ⟨xs, x, rfl⟩
  · rfl
  · rw [concat_eq_append, numbered_append, numbered, numbered, getLast?_append, getLast?_singleton, some_or,
      map_some, getD_some, length_append, length_singleton, add_comm]

end

/-! What the store holds of the committed events. -/

section

variable {events : List P.event.Obj} {e : StoreEntry}

def StoreEntry.through (e : StoreEntry) : Nat := (e.snapshot.map fun s => s.throughSeq.toNat).getD 0

/-- A snapshot of a prefix, and of the events the ones after some point in it. -/
structure Holds (P : EventSourced) (events : List P.event.Obj) (e : StoreEntry) : Prop where
  small : events.length + 1 < 2 ^ 64
  lastSeq : e.lastSeq = UInt64.ofNat events.length
  log : ∃ d, d ≤ e.through ∧ e.log = numberFrom (UInt64.ofNat (d + 1)) ((events.drop d).map P.event.record)
  snapshot : ∀ snap, e.snapshot = some snap → snap.throughSeq.toNat ≤ events.length ∧
    ∃ st : P.state.Obj, snap.record = P.state.record st ∧ st.1 = P.fold (events.take snap.throughSeq.toNat)

theorem Holds.through_le (h : Holds P events e) : e.through ≤ events.length := by
  unfold StoreEntry.through
  cases hs : e.snapshot with
  | none => exact Nat.zero_le _
  | some snap => exact (h.snapshot snap hs).1

theorem Holds.appended {recs : List EventRecord} {more : List P.event.Obj} {last : SeqNo} (h : Holds P events e)
    (hrecs : recs = numberFrom (UInt64.ofNat (events.length + 1)) (more.map P.event.record))
    (hlast : last = UInt64.ofNat (events.length + more.length)) (hsmall : events.length + more.length + 1 < 2 ^ 64) :
    Holds P (events ++ more) (e.withBatch recs last) := by
  obtain ⟨d, hd, hlog⟩ := h.log
  have hle := h.through_le
  refine ⟨by rw [length_append]; exact hsmall, by rw [length_append]; exact hlast, ⟨d, hd, ?_⟩, ?_⟩
  · rw [StoreEntry.withBatch, hlog, hrecs, drop_append_of_le_length (le_trans hd hle), map_append,
      numberFrom_append, length_map, length_drop, show d + 1 + (events.length - d) = events.length + 1 by omega]
  · intro snap hsnap
    obtain ⟨hthrough, st, hrecord, hfold⟩ := h.snapshot snap hsnap
    refine ⟨by rw [length_append]; omega, st, hrecord, ?_⟩
    rw [take_append_of_le_length hthrough]
    exact hfold

theorem Holds.saved {st : P.state.Obj} {fence : FenceToken} (h : Holds P events e) (hst : st.1 = P.fold events) :
    Holds P events (e.withSnapshot ⟨fence, UInt64.ofNat events.length, P.state.record st⟩) := by
  obtain ⟨d, hd, hlog⟩ := h.log
  have hnat : (UInt64.ofNat events.length).toNat = events.length := toNat_ofNat_of_lt (Nat.lt_of_succ_lt h.small)
  refine ⟨h.small, h.lastSeq, ⟨d, ?_, hlog⟩, ?_⟩
  · change d ≤ (UInt64.ofNat events.length).toNat
    rw [hnat]
    exact le_trans hd h.through_le
  · intro snap hsnap
    cases hsnap
    rw [hnat, take_length]
    exact ⟨le_rfl, st, rfl, hst⟩

theorem Holds.truncated {last : SeqNo} (h : Holds P events e) (hlast : last.toNat ≤ e.through) :
    Holds P events (e.eraseFront (e.dropCount last)) := by
  obtain ⟨d, hd, hlog⟩ := h.log
  have hle := h.through_le
  have hsmall := h.small
  have hcount : e.dropCount last = min (last.toNat - d) (events.length - d) := by
    have hlen : d + ((events.drop d).map P.event.record).length < 2 ^ 64 := by
      rw [length_map, length_drop]
      omega
    have htake := takeWhile_numberFrom (k := last.toNat) last.toNat_lt hlen
    rw [UInt64.ofNat_toNat, length_map, length_drop] at htake
    rw [StoreEntry.dropCount, hlog]
    exact htake
  refine ⟨h.small, h.lastSeq, ⟨d + e.dropCount last, ?_, ?_⟩, h.snapshot⟩
  · change _ ≤ e.through
    rw [hcount]
    omega
  · rw [StoreEntry.eraseFront, hlog, drop_numberFrom, ← map_drop, drop_drop, add_right_comm]

theorem replayEach_numberFrom (evs : List P.event.Obj) (state : P.state.Val) (n : Nat) :
    P.replayEach state (UInt64.ofNat n) (numberFrom (UInt64.ofNat (n + 1)) (evs.map P.event.record)) =
      .ok (evs.foldl (fun st ev => P.apply st ev.1) state, UInt64.ofNat (n + evs.length)) := by
  induction evs generalizing state n with
  | nil => rfl
  | cons ev evs ih =>
    rw [map_cons, numberFrom, EventSourced.replayEach]
    dsimp only
    rw [readMigrated_record]
    dsimp only
    rw [ofNat_add_one, ih, foldl_cons, length_cons, add_right_comm, add_assoc]

end

section

variable {events : List P.event.Obj} {store : InMemoryStore}

def snapshotOf (P : EventSourced) (events : List P.event.Obj) (e : StoreEntry) : Option (RecoveredSnapshot P) :=
  e.snapshot.map fun s =>
    { state := P.fold (events.take s.throughSeq.toNat), throughSeq := s.throughSeq, fence := s.fence }

theorem loadSnapshotMigrated_eq (h : Holds P events (store.entry P.id)) :
    P.loadSnapshotMigrated P.id none store = .ok (snapshotOf P events (store.entry P.id)) := by
  unfold EventSourced.loadSnapshotMigrated attemptRead InMemoryStore.loadSnapshot snapshotOf
  cases hs : (store.entry P.id).snapshot with
  | none => rfl
  | some snap =>
    obtain ⟨-, st, hrecord, hfold⟩ := h.snapshot snap hs
    dsimp only
    rw [hrecord, readMigrated_record]
    dsimp only
    rw [hfold]
    rfl

theorem recoverFrom_eq (h : Holds P events (store.entry P.id)) :
    P.recoverFrom P.id (snapshotOf P events (store.entry P.id)) none store = .ok
      { state := P.fold events
        lastSeq := UInt64.ofNat events.length
        fence := ((store.entry P.id).snapshot.map SnapshotRecord.fence).getD ⟨0⟩ } := by
  obtain ⟨d, hd, hlog⟩ := h.log
  have hle := h.through_le
  have hsmall := h.small
  let t := (store.entry P.id).through
  have hfrom : ((snapshotOf P events (store.entry P.id)).map (·.throughSeq)).getD 0 = UInt64.ofNat t := by
    unfold snapshotOf t StoreEntry.through
    cases (store.entry P.id).snapshot with
    | none => rfl
    | some snap => exact (UInt64.ofNat_toNat).symm
  have hstate : ((snapshotOf P events (store.entry P.id)).map (·.state)).getD P.initial = P.fold (events.take t) := by
    unfold snapshotOf t StoreEntry.through
    cases (store.entry P.id).snapshot with
    | none => rfl
    | some snap => rfl
  have hfence : ((snapshotOf P events (store.entry P.id)).map (·.fence)).getD ⟨0⟩ =
      ((store.entry P.id).snapshot.map SnapshotRecord.fence).getD ⟨0⟩ := by
    unfold snapshotOf
    rw [Option.map_map]
    rfl
  have htail : P.replayTail P.id (UInt64.ofNat t) (P.fold (events.take t)) none store =
      .ok (P.fold events, UInt64.ofNat events.length) := by
    have hread : store.readLog P.id (UInt64.ofNat t + 1) =
        .ok (numberFrom (UInt64.ofNat (t + 1)) ((events.drop t).map P.event.record)) := by
      have hlen : d + ((events.drop d).map P.event.record).length < 2 ^ 64 := by
        rw [length_map, length_drop]
        omega
      rw [InMemoryStore.readLog, hlog, ofNat_add_one, filter_numberFrom hd (by omega) hlen, ← map_drop,
        drop_drop, Nat.add_sub_cancel' hd]
    unfold EventSourced.replayTail attemptRead
    dsimp only
    rw [hread]
    dsimp only
    rw [replayEach_numberFrom, EventSourced.fold, ← foldl_append, take_append_drop, length_drop,
      Nat.add_sub_cancel' hle]
    rfl
  unfold EventSourced.recoverFrom
  dsimp only
  rw [hfrom, hstate, hfence, htail]

end

/-! What a log does to the store. -/

namespace EventLog

variable {log : EventLog P} {store : InMemoryStore} {fault : Option Error}

theorem batchFrom_eq (n : Nat) (evs : List P.event.Obj) :
    batchFrom (UInt64.ofNat n) evs =
      .ok (numberFrom (UInt64.ofNat n) (evs.map P.event.record), UInt64.ofNat (n + evs.length)) := by
  induction evs generalizing n with
  | nil => rfl
  | cons ev rest ih =>
    rw [batchFrom, encodeDurable_obj]
    dsimp only
    rw [ofNat_add_one, ih, length_cons, add_right_comm, add_assoc, map_cons, numberFrom,
      ofNat_add_one]
    rfl

theorem commit_cases (log : EventLog P) (fault : Option Error) (store : InMemoryStore) {n : Nat}
    (hnext : log.nextSeq = UInt64.ofNat n) :
    (∃ err store', log.commit fault store = (.error err, log, store') ∧ store'.entry log.id = store.entry log.id) ∨
    (log.staged = [] ∧ log.commit fault store = (.ok log.last, log, store)) ∨
    ∃ r store' last, log.commit fault store =
        (.ok r, { log with nextSeq := UInt64.ofNat (n + log.staged.length), staged := [] }, store') ∧
      (store.entry log.id).fencedOut log.fence = false ∧
      StoreEntry.increasingFrom (store.entry log.id).lastSeq
        (numberFrom (UInt64.ofNat n) (log.staged.map P.event.record)) = .ok last ∧
      store'.entry log.id = (store.entry log.id).withBatch
        (numberFrom (UInt64.ofNat n) (log.staged.map P.event.record)) last := by
  unfold commit
  by_cases hstaged : log.staged = []
  · exact .inr (.inl ⟨hstaged, by rw [hstaged]; rfl⟩)
  · rw [if_neg (by rwa [List.isEmpty_iff]), hnext, batchFrom_eq]
    dsimp only
    cases fault with
    | some err => exact .inl ⟨err, store, rfl, rfl⟩
    | none =>
      simp only [InMemoryStore.attempt]
      obtain ⟨err, st, happend, hentry⟩ | ⟨last, hfenced, hincr, happend⟩ := InMemoryStore.appendBatch_cases store
        log.id log.fence (numberFrom (UInt64.ofNat n) (log.staged.map P.event.record))
      · rw [happend]
        exact .inl ⟨err, st, rfl, hentry⟩
      · rw [happend]
        exact .inr (.inr ⟨_, _, last, rfl, hfenced, hincr, InMemoryStore.entry_put _ _ _⟩)

theorem saveSnapshot_cases (store : InMemoryStore) (id : ActorId) (tok : FenceToken) (snap : SnapshotRecord) :
    (∃ err st', store.saveSnapshot id tok snap = (.error err, st') ∧ st'.entry id = store.entry id) ∨
    (store.entry id).fencedOut tok = false ∧ ∃ st', store.saveSnapshot id tok snap = (.ok (), st') ∧
      st'.entry id = (store.entry id).withSnapshot { snap with fence := tok } := by
  unfold InMemoryStore.saveSnapshot
  cases hadm : (store.entry id).admitSnapshot tok snap with
  | error err => exact .inl ⟨err, store.put id (store.entry id), by simp only [hadm], InMemoryStore.entry_put _ _ _⟩
  | ok u =>
    refine .inr ⟨?_, store.put id ((store.entry id).withSnapshot { snap with fence := tok }), by simp only [hadm],
      InMemoryStore.entry_put _ _ _⟩
    unfold StoreEntry.admitSnapshot at hadm
    split at hadm
    · cases hadm
    · next hfenced => exact Bool.eq_false_iff.mpr hfenced

theorem compactSave_cases (log : EventLog P) (every : UInt64) (state : P.state.Obj) (fault : Option Error)
    (store : InMemoryStore) :
    (∃ r store', log.compactSave every state.1 fault store = (r, log, store') ∧ r.toOption.join = none ∧
      store'.entry log.id = store.entry log.id) ∨
    (store.entry log.id).fencedOut log.fence = false ∧ ∃ store',
      log.compactSave every state.1 fault store = (.ok (some log.last), { log with snapSeq := log.last }, store') ∧
      store'.entry log.id = (store.entry log.id).withSnapshot ⟨log.fence, log.last, P.state.record state⟩ := by
  unfold compactSave
  split
  · exact .inl ⟨_, _, rfl, rfl, rfl⟩
  · unfold EventSourced.saveSnapshot
    rw [encodeDurable_obj]
    dsimp only
    cases fault with
    | some err => exact .inl ⟨_, _, rfl, rfl, rfl⟩
    | none =>
      simp only [InMemoryStore.attempt]
      obtain ⟨err, st, hsave, hentry⟩ | ⟨hfenced, st, hsave, hentry⟩ :=
        saveSnapshot_cases store log.id log.fence ⟨log.fence, log.last, P.state.record state⟩
      · rw [hsave]
        exact .inl ⟨_, _, rfl, rfl, hentry⟩
      · rw [hsave]
        exact .inr ⟨hfenced, _, rfl, hentry⟩

theorem compactTruncate_cases (log : EventLog P) (last : SeqNo) (fault : Option Error) (store : InMemoryStore) :
    ((log.compactTruncate last fault store).2.entry log.id = store.entry log.id) ∨
    (store.entry log.id).fencedOut log.fence = false ∧ last.toNat ≤ (store.entry log.id).through ∧
      (log.compactTruncate last fault store).2.entry log.id =
        (store.entry log.id).eraseFront ((store.entry log.id).dropCount last) := by
  unfold compactTruncate
  cases fault with
  | some err => exact .inl rfl
  | none =>
    simp only [InMemoryStore.attempt, InMemoryStore.truncateLog]
    cases hadm : (store.entry log.id).admitTruncate log.fence last with
    | error err => exact .inl (InMemoryStore.entry_put _ _ _)
    | ok u =>
      refine .inr ⟨?_, ?_, InMemoryStore.entry_put _ _ _⟩
      · unfold StoreEntry.admitTruncate at hadm
        split at hadm
        · cases hadm
        · next hfenced => exact Bool.eq_false_iff.mpr hfenced
      · unfold StoreEntry.admitTruncate at hadm
        split at hadm
        · cases hadm
        · split at hadm
          · cases hadm
          · next hsubsumed =>
            unfold StoreEntry.through
            cases hs : (store.entry log.id).snapshot with
            | none => simp [hs] at hsubsumed
            | some snap => simpa [hs, le_iff_toNat_le] using hsubsumed

end EventLog

namespace Lives

variable {A : Type} {s : Lives P A} {a b : A} {l : Life P}

def LifeOk (P : EventSourced) (events : List P.event.Obj) (e : StoreEntry) : Life P → Prop
  | .loaded _ snap => snap = snapshotOf P events e
  | .recovered _ r =>
    r = {
      state := P.fold events
      lastSeq := UInt64.ofNat events.length
      fence := (e.snapshot.map SnapshotRecord.fence).getD ⟨0⟩ }
  | .running log | .truncating log _ => log.nextSeq = UInt64.ofNat (events.length + 1)
  | _ => True

structure Kept (s : Lives P A) : Prop where
  numbers : s.committed = numbered (UInt64.ofNat 1) s.events
  holds : Holds P s.events s.entry
  token : ∀ a tok, (s.life a).token = some tok → tok.value ≠ 0 ∧ tok.value ≤ s.entry.owner.value
  distinct : ∀ a b tok, (s.life a).token = some tok → (s.life b).token = some tok → a = b
  logId : ∀ a log, (s.life a).log = some log → log.id = P.id
  ok : ∀ a, (s.life a).token = some s.entry.owner → LifeOk P s.events s.entry (s.life a)

theorem kept_start : Kept ({} : Lives P A) where
  numbers := rfl
  holds := {
    small := show (0 : Nat) + 1 < 2 ^ 64 by decide
    lastSeq := rfl
    log := ⟨0, le_rfl, rfl⟩
    snapshot := fun _ h => by cases h }
  token := nofun
  distinct := nofun
  logId := nofun
  ok := nofun

theorem Kept.owner {tok : FenceToken} (h : Kept s) (htok : (s.life a).token = some tok)
    (hfenced : s.entry.fencedOut tok = false) : tok = s.entry.owner := by
  rw [StoreEntry.fencedOut, Bool.or_eq_false_iff, decide_eq_false_iff_not, UInt64.not_lt] at hfenced
  have heq := UInt64.le_antisymm (h.token a tok htok).2 hfenced.2
  cases tok
  cases hown : s.entry.owner
  rw [hown] at heq
  exact congrArg FenceToken.mk heq

theorem Kept.onLog {log : EventLog P} (h : Kept s) (hlog : (s.life a).log = some log) :
    (s.life a).token = some log.fence ∧ log.id = P.id ∧
      (some log.fence = some s.entry.owner → log.nextSeq = UInt64.ofNat (s.events.length + 1)) := by
  have hid := h.logId a log hlog
  have hok := h.ok a
  cases hlife : s.life a with
  | running l | truncating l last =>
    rw [hlife] at hlog hok
    cases hlog
    exact ⟨rfl, hid, hok⟩
  | _ =>
    rw [hlife] at hlog
    cases hlog

section

variable [DecidableEq A] {store : InMemoryStore}

attribute [local simp] step

@[simp] theorem life_at : (s.at_ a l).life a = l := update_self _ _ _

@[simp] theorem life_at_ne (h : b ≠ a) : (s.at_ a l).life b = s.life b := update_of_ne h _ _

/-- A step of one life, which keeps its token or has none: nothing is written, or it is the owner that writes. -/
theorem Kept.moved {s' : Lives P A} (h : Kept s) (hlife : s'.life = update s.life a l)
    (howner : s'.entry.owner = s.entry.owner)
    (hnumbers : s'.committed = numbered (UInt64.ofNat 1) s'.events) (hholds : Holds P s'.events s'.entry)
    (htoken : ∀ tok, l.token = some tok → (s.life a).token = some tok)
    (hlog : ∀ log, l.log = some log → log.id = P.id)
    (hok : l.token = some s.entry.owner → LifeOk P s'.events s'.entry l)
    (hwrote : (s'.events = s.events ∧ s'.entry = s.entry) ∨ (s.life a).token = some s.entry.owner) : Kept s' := by
  have hsame : ∀ b tok, (s'.life b).token = some tok → (s.life b).token = some tok := by
    intro b tok hb
    rw [hlife] at hb
    by_cases hba : b = a
    · subst hba
      rw [update_self] at hb
      exact htoken tok hb
    · rwa [update_of_ne hba] at hb
  refine ⟨hnumbers, hholds, ?_, ?_, ?_, ?_⟩
  · intro b tok hb
    rw [howner]
    exact h.token b tok (hsame b tok hb)
  · exact fun b c tok hb hc => h.distinct b c tok (hsame b tok hb) (hsame c tok hc)
  · intro b log hb
    rw [hlife] at hb
    by_cases hba : b = a
    · subst hba
      rw [update_self] at hb
      exact hlog log hb
    · rw [update_of_ne hba] at hb
      exact h.logId b log hb
  · intro b hb
    rw [howner] at hb
    by_cases hba : b = a
    · subst hba
      rw [hlife, update_self] at hb ⊢
      exact hok hb
    · have hb' := hsame b _ hb
      rw [hlife, update_of_ne hba]
      rcases hwrote with ⟨hevents, hentry⟩ | hother
      · rw [hevents, hentry]
        exact h.ok b hb'
      · exact absurd (h.distinct b a _ hb' hother) hba

theorem Kept.read (h : Kept s) (hentry : store.entry P.id = s.entry)
    (htoken : ∀ tok, l.token = some tok → (s.life a).token = some tok)
    (hlog : ∀ log, l.log = some log → log.id = P.id)
    (hok : l.token = some s.entry.owner → LifeOk P s.events s.entry l) : Kept ({ s with store }.at_ a l) := by
  have hentry' : ({ s with store }.at_ a l : Lives P A).entry = s.entry := hentry
  refine h.moved rfl (by rw [hentry']) h.numbers ?_ htoken hlog ?_ (.inl ⟨rfl, hentry'⟩)
  · rw [hentry']
    exact h.holds
  · rw [hentry']
    exact hok

theorem Kept.acquire (h : Kept s) (hunborn : s.life a = .unborn) (hwrap : s.entry.owner.value + 1 ≠ 0) :
    Kept ({ s with store := (s.store.acquireFence P.id).2 }.at_ a (.fenced s.entry.nextOwner)) := by
  have hentry : ({ s with store := (s.store.acquireFence P.id).2 }.at_ a (.fenced s.entry.nextOwner) :
    Lives P A).entry =
      s.entry.withOwner s.entry.nextOwner := InMemoryStore.entry_put _ _ _
  have hlt : s.entry.owner.value < s.entry.owner.value + 1 := by
    grind -ring -linarith
  have hother : ∀ b tok, b ≠ a → (s.life b).token = some tok → tok.value < s.entry.owner.value + 1 :=
    fun b tok _ hb => UInt64.lt_of_le_of_lt (h.token b tok hb).2 hlt
  refine ⟨h.numbers, ?_, ?_, ?_, ?_, ?_⟩
  · rw [hentry]
    exact ⟨h.holds.small, h.holds.lastSeq, h.holds.log, h.holds.snapshot⟩
  · intro b tok hb
    rw [hentry]
    by_cases hba : b = a
    · subst hba
      rw [life_at] at hb
      cases hb
      exact ⟨hwrap, UInt64.le_refl _⟩
    · rw [life_at_ne hba] at hb
      exact ⟨(h.token b tok hb).1, UInt64.le_of_lt (hother b tok hba hb)⟩
  · intro b c tok hb hc
    by_cases hba : b = a
    · by_cases hca : c = a
      · rw [hba, hca]
      · subst hba
        rw [life_at] at hb
        rw [life_at_ne hca] at hc
        cases hb
        exact absurd (hother c _ hca hc) (UInt64.lt_irrefl _)
    · rw [life_at_ne hba] at hb
      by_cases hca : c = a
      · subst hca
        rw [life_at] at hc
        cases hc
        exact absurd (hother b _ hba hb) (UInt64.lt_irrefl _)
      · rw [life_at_ne hca] at hc
        exact h.distinct b c tok hb hc
  · intro b log hb
    by_cases hba : b = a
    · subst hba
      rw [life_at] at hb
      cases hb
    · rw [life_at_ne hba] at hb
      exact h.logId b log hb
  · intro b hb
    rw [hentry] at hb ⊢
    by_cases hba : b = a
    · subst hba
      rw [life_at]
      trivial
    · rw [life_at_ne hba] at hb
      exact absurd (hother b _ hba hb) (UInt64.lt_irrefl _)

theorem Kept.commit {s' : Lives P A} {fault : Option Error} (h : Kept s)
    (hsmall : s.committed.length + (s.life a).staged.length + 1 < 2 ^ 64)
    (hstep : step s (.commit a fault) = some s') : Kept s' := by
  simp only [step] at hstep
  split at hstep
  · next log hlife =>
    obtain ⟨htok, hid, hok⟩ := h.onLog (by rw [hlife]; rfl)
    have hlog : ∀ l, some log = some l → l.id = P.id := fun l hl => by cases hl; exact hid
    have hstaged : (s.life a).staged = log.staged := by rw [hlife]; rfl
    have hlen : s.committed.length = s.events.length := (length_map _).symm
    rw [hstaged, hlen] at hsmall
    by_cases howner : log.fence = s.entry.owner
    · have hnext := hok (congrArg some howner)
      obtain ⟨err, store, hcommit, hentry⟩ | ⟨hnone, hcommit⟩ | ⟨r, store, last, hcommit, -, hincr, hentry⟩ :=
        log.commit_cases fault s.store hnext
      · rw [hcommit] at hstep
        cases hstep
        rw [hid] at hentry
        exact h.read hentry (fun tok ht => htok.trans ht) hlog hok
      · rw [hcommit] at hstep
        cases hstep
        rw [hnone, numbered, append_nil]
        exact h.read rfl (fun tok ht => htok.trans ht) hlog hok
      · rw [hcommit] at hstep
        cases hstep
        rw [hid] at hentry hincr
        have hevents : (s.committed ++ numbered log.nextSeq log.staged).map Prod.snd = s.events ++ log.staged := by
          rw [map_append, map_snd_numbered, events]
        have hlast : last = UInt64.ofNat (s.events.length + log.staged.length) := by
          rw [show (s.store.entry P.id).lastSeq = UInt64.ofNat s.events.length from h.holds.lastSeq,
            increasingFrom_numbered _ (by rw [length_map]; omega), length_map] at hincr
          exact (Except.ok.inj hincr).symm
        refine h.moved (a := a) rfl ?_ ?_ ?_ (fun tok ht => htok.trans ht) (fun l hl => by cases hl; exact hid) ?_
          (.inr (htok.trans (congrArg some howner)))
        · change (store.entry P.id).owner = _
          rw [hentry]
          rfl
        · change s.committed ++ numbered log.nextSeq log.staged =
            numbered (UInt64.ofNat 1) ((s.committed ++ numbered log.nextSeq log.staged).map Prod.snd)
          rw [hevents, numbered_append, ← h.numbers, hnext, add_comm]
        · change Holds P ((s.committed ++ numbered log.nextSeq log.staged).map Prod.snd) (store.entry P.id)
          rw [hevents, hentry]
          exact h.holds.appended rfl hlast (by omega)
        · intro _
          change UInt64.ofNat (s.events.length + 1 + log.staged.length) = UInt64.ofNat
            (((s.committed ++ numbered log.nextSeq log.staged).map Prod.snd).length + 1)
          rw [hevents, length_append, add_right_comm]
    · obtain ⟨err, store, hcommit, hentry⟩ | ⟨hnone, hcommit⟩ | ⟨r, store, last, hcommit, hfenced, -⟩ :=
        log.commit_cases fault s.store (UInt64.ofNat_toNat (x := log.nextSeq)).symm
      · rw [hcommit] at hstep
        cases hstep
        rw [hid] at hentry
        exact h.read hentry (fun tok ht => htok.trans ht) hlog hok
      · rw [hcommit] at hstep
        cases hstep
        rw [hnone, numbered, append_nil]
        exact h.read rfl (fun tok ht => htok.trans ht) hlog hok
      · rw [hid] at hfenced
        exact absurd (h.owner htok hfenced) howner
  · cases hstep

theorem Kept.compactSave {s' : Lives P A} {every : UInt64} {state : P.state.Obj} {fault : Option Error} (h : Kept s)
    (hstate : (s.life a).token = some s.entry.owner → state.1 = P.fold s.events)
    (hstep : step s (.compactSave a every state fault) = some s') : Kept s' := by
  simp only [step] at hstep
  split at hstep
  · next log hlife =>
    obtain ⟨htok, hid, hok⟩ := h.onLog (by rw [hlife]; rfl)
    have hlog : ∀ l, some log = some l → l.id = P.id := fun l hl => by cases hl; exact hid
    obtain ⟨r, store, hsave, hnone, hentry⟩ | ⟨hfenced, store, hsave, hentry⟩ :=
      log.compactSave_cases every state fault s.store
    · rw [hsave] at hstep
      rw [hid] at hentry
      rcases r with err | (_ | last)
      · cases hstep
        exact h.read hentry (fun tok ht => htok.trans ht) hlog hok
      · cases hstep
        exact h.read hentry (fun tok ht => htok.trans ht) hlog hok
      · cases hnone
    · rw [hsave] at hstep
      cases hstep
      rw [hid] at hfenced hentry
      have howner := h.owner htok hfenced
      have hnext := hok (congrArg some howner)
      have hlast : log.last = UInt64.ofNat s.events.length := by
        have hne : UInt64.ofNat (s.events.length + 1) ≠ 0 := by
          intro heq
          have hnat := congrArg UInt64.toNat heq
          rw [toNat_ofNat_of_lt h.holds.small] at hnat
          cases hnat
        rw [EventLog.last, hnext, if_neg hne, ← ofNat_add_one, UInt64.add_sub_cancel]
      rw [hlast] at hentry
      refine h.moved (a := a) rfl ?_ h.numbers ?_ (fun tok ht => htok.trans ht)
        (fun l hl => by cases hl; exact hid) ?_
        (.inr (htok.trans (congrArg some howner)))
      · change (store.entry P.id).owner = _
        rw [hentry]
        rfl
      · change Holds P s.events (store.entry P.id)
        rw [hentry]
        exact h.holds.saved (hstate (htok.trans (congrArg some howner)))
      · exact fun _ => hnext
  · cases hstep

theorem Kept.compactTruncate {s' : Lives P A} {fault : Option Error} (h : Kept s)
    (hstep : step s (.compactTruncate a fault) = some s') : Kept s' := by
  simp only [step] at hstep
  split at hstep
  · next log last hlife =>
    cases hstep
    obtain ⟨htok, hid, hok⟩ := h.onLog (by rw [hlife]; rfl)
    have hlog : ∀ l, some log = some l → l.id = P.id := fun l hl => by cases hl; exact hid
    obtain hentry | ⟨hfenced, hthrough, hentry⟩ := log.compactTruncate_cases last fault s.store
    · rw [hid] at hentry
      exact h.read hentry (fun tok ht => htok.trans ht) hlog hok
    · rw [hid] at hfenced hthrough hentry
      have howner := h.owner htok hfenced
      refine h.moved (a := a) rfl ?_ h.numbers ?_ (fun tok ht => htok.trans ht) hlog hok
        (.inr (htok.trans (congrArg some howner)))
      · change ((log.compactTruncate last fault s.store).2.entry P.id).owner = _
        rw [hentry]
        rfl
      · change Holds P s.events ((log.compactTruncate last fault s.store).2.entry P.id)
        rw [hentry]
        exact h.holds.truncated hthrough
  · cases hstep

theorem Kept.edited {s' : Lives P A} {f : EventLog P → EventLog P} (h : Kept s)
    (hf : ∀ log, (f log).id = log.id ∧ (f log).fence = log.fence ∧ (f log).nextSeq = log.nextSeq)
    (hstep : s.onLog a f = some s') : Kept s' := by
  unfold Lives.onLog at hstep
  split at hstep
  · next log hlife =>
    cases hstep
    obtain ⟨htok, hid, hok⟩ := h.onLog (by rw [hlife]; rfl)
    obtain ⟨hfid, hffence, hfnext⟩ := hf log
    refine h.read rfl ?_ ?_ ?_
    · intro tok ht
      exact htok.trans ((congrArg some hffence).symm.trans ht)
    · intro l hl
      cases hl
      exact hfid.trans hid
    · intro howner
      exact hfnext.trans (hok ((congrArg some hffence).symm.trans howner))
  · cases hstep

theorem kept_step {s' : Lives P A} {label : LifeLabel P A} (h : Kept s) (hsound : Sound s label)
    (hstep : step s label = some s') : Kept s' := by
  cases label with
  | acquire a fault =>
    simp only [step] at hstep
    split at hstep
    · next hunborn =>
      cases fault with
      | some err =>
        cases hstep
        exact h
      | none =>
        cases hstep
        exact h.acquire hunborn hsound
    · cases hstep
  | load a fault =>
    simp only [step] at hstep
    split at hstep
    · next tok hlife =>
      cases fault with
      | some err =>
        cases hstep
        exact h
      | none =>
        rw [loadSnapshotMigrated_eq h.holds] at hstep
        cases hstep
        exact h.read rfl (fun t ht => by rw [hlife]; exact ht) nofun fun _ => rfl
    · cases hstep
  | replay a fault =>
    simp only [step] at hstep
    split at hstep
    · next tok snap hlife =>
      split at hstep
      · cases hstep
        exact h.read rfl (fun t ht => by rw [hlife]; exact ht) nofun fun _ => trivial
      · next r hrecover =>
        cases hstep
        refine h.read rfl (fun t ht => by rw [hlife]; exact ht) nofun ?_
        intro howner
        have hok := h.ok a (by rw [hlife]; exact howner)
        rw [hlife] at hok
        subst hok
        cases fault with
        | some err => cases hrecover
        | none =>
          have heq := recoverFrom_eq h.holds
          exact Except.ok.inj (hrecover.symm.trans heq)
    · cases hstep
  | build a fromStore =>
    simp only [step] at hstep
    split at hstep
    · next tok r hlife =>
      cases hstep
      refine h.read rfl (fun t ht => by rw [hlife]; exact ht) (fun l hl => by cases hl; rfl) ?_
      intro howner
      have hok := h.ok a (by rw [hlife]; exact howner)
      rw [hlife] at hok
      have hlast : s.store.lastSeq P.id = UInt64.ofNat s.events.length := h.holds.lastSeq
      subst hok
      change (if fromStore = true then s.store.lastSeq P.id else UInt64.ofNat s.events.length) + 1 = _
      rw [hlast, ite_self, ofNat_add_one]
    · cases hstep
  | stage a ev => exact h.edited (f := fun log => log.stage ev) (fun _ => ⟨rfl, rfl, rfl⟩) hstep
  | rollback a => exact h.edited (f := EventLog.rollback) (fun _ => ⟨rfl, rfl, rfl⟩) hstep
  | setLastSnapshotSeq a n =>
    exact h.edited (f := fun log => log.setLastSnapshotSeq n) (fun _ => ⟨rfl, rfl, rfl⟩) hstep
  | commit a fault => exact h.commit hsound hstep
  | compactSave a every state fault => exact h.compactSave hsound hstep
  | compactTruncate a fault => exact h.compactTruncate hstep
  | end_ a =>
    cases hstep
    exact h.read rfl nofun nofun fun _ => trivial

/-- A recovery returns the fold of the committed events and the sequence number of the last of them: in one piece at
any moment, and in the two store calls of a life that is not fenced out between them. -/
theorem recover_returns_fold (h : Reach step Sound ({} : Lives P A) s) :
    P.recoverEventSourced P.id none none s.store = .ok s.recovery ∧
      (∀ a tok snap, s.life a = .loaded tok snap → tok = s.entry.owner →
        P.recoverFrom P.id snap none s.store = .ok s.recovery) ∧
      ∀ a tok r, s.life a = .recovered tok r → tok = s.entry.owner → r = s.recovery := by
  have hkept : Kept s := h.invariant kept_start fun _ _ _ hinv hok hstep => kept_step hinv hok hstep
  have hrecovery : s.recovery = {
      state := P.fold s.events
      lastSeq := UInt64.ofNat s.events.length
      fence := (s.entry.snapshot.map SnapshotRecord.fence).getD ⟨0⟩ } := by
    rw [recovery, hkept.numbers, last_numbered]
  have hrecover := recoverFrom_eq hkept.holds
  refine ⟨?_, ?_, ?_⟩
  · rw [EventSourced.recoverEventSourced, loadSnapshotMigrated_eq hkept.holds, hrecovery]
    exact hrecover
  · intro a tok snap hlife howner
    have hok := hkept.ok a (by rw [hlife, howner]; rfl)
    rw [hlife] at hok
    rw [show snap = _ from hok, hrecovery]
    exact hrecover
  · intro a tok r hlife howner
    have hok := hkept.ok a (by rw [hlife, howner]; rfl)
    rw [hlife] at hok
    rw [hrecovery]
    exact hok

instance [DecidableEq P.state.Val] (s : Lives P A) : (label : LifeLabel P A) → Decidable (Sound s label)
  | .acquire _ _ => inferInstanceAs (Decidable (_ ≠ _))
  | .commit _ _ => inferInstanceAs (Decidable (_ < _))
  | .compactSave _ _ _ _ => inferInstanceAs (Decidable (_ → _))
  | .load .. | .replay .. | .build .. | .stage .. | .rollback .. | .setLastSnapshotSeq .. | .compactTruncate ..
  | .end_ .. => isTrue trivial

def adder : EventSourced where
  id := ⟨⟨1⟩, 7⟩
  event := { name := "Added", fields := .cons 1 (.int .w64 true) .nil, distinct := rfl }
  state := { name := "Sum", fields := .cons 1 (.int .w64 true) .nil, distinct := rfl }
  events := {}
  states := {}
  defaults := Ty.zero
  initial := (0#64, ())
  apply := fun st ev => (BitVec.add st.1 ev.1, ())

instance : DecidableEq adder.state.Val := inferInstanceAs (DecidableEq (BitVec 64 × Unit))

instance : DecidableEq adder.event.Val := inferInstanceAs (DecidableEq (BitVec 64 × Unit))

theorem ulebGroups_le (n v : Nat) : ulebGroups n v ≤ n := by
  induction n generalizing v with
  | zero => exact Nat.le_refl 0
  | succ n ih =>
    rw [ulebGroups]
    split
    · exact Nat.succ_le_succ (Nat.zero_le n)
    · exact Nat.succ_le_succ (ih _)

theorem total_fits (n : BitVec 64) :
    taggedObjectSize (.cons 1 (.int .w64 true) .nil) (n, ()) < 2 ^ 64 := by
  have hkey := ulebGroups_le 10 (keyOf 1 (.int .w64 true)).toNat
  have hvalue := ulebGroups_le 10 (intToWord .w64 true n).toNat
  simp only [taggedObjectSize, taggedValueSize, ulebSize]
  omega

def added (n : BitVec 64) : adder.event.Obj := ⟨(n, ()), total_fits n⟩

def sum (n : BitVec 64) : adder.state.Obj := ⟨(n, ()), total_fits n⟩

/-- The first life is between the two store calls of its recovery when the second takes over, commits and compacts. -/
def takeoverWhileRecovering : List (LifeLabel adder Bool) :=
  [.acquire false none, .load false none, .acquire true none, .load true none, .replay true none, .build true true,
    .stage true (added 5), .commit true none, .compactSave true 1 (sum 5) none, .compactTruncate true none,
    .replay false none]

theorem fenced_out_recovery_loses_events : ∃ s : Lives adder Bool,
    Machine.run (guarded step Sound) {} takeoverWhileRecovering = some s ∧ s.committed = [(1, added 5)] ∧
      (s.life false).result = some (⟨1⟩, adder.initial, 0) ∧ adder.fold s.events ≠ adder.initial := by
  obtain ⟨s, hs, hfacts⟩ := map_eq_some_iff.mp (show
    (Machine.run (guarded step Sound) ({} : Lives adder Bool) takeoverWhileRecovering).map (fun s =>
      decide (s.committed = [(1, added 5)] ∧ (s.life false).result = some (⟨1⟩, adder.initial, 0) ∧
        adder.fold s.events ≠ adder.initial)) = some true by decide +kernel)
  exact ⟨s, hs, of_decide_eq_true hfacts⟩

/-- A truncation fails, another event is committed, and the next life recovers from the snapshot and the tail. -/
def compacted : List (LifeLabel adder Bool) :=
  [.acquire false none, .load false none, .replay false none, .build false false, .stage false (added 5),
    .commit false none, .compactSave false 1 (sum 5) none, .compactTruncate false (some ⟨.unavailable, "store"⟩),
    .stage false (added 7), .commit false none, .acquire true none, .load true none, .replay true none]

theorem recover_returns_fold_compacted : ∃ s : Lives adder Bool,
    Machine.run (guarded step Sound) {} compacted = some s ∧
      (s.life true).result = some (⟨2⟩, adder.fold [added 5, added 7], 2) ∧
      adder.recoverEventSourced adder.id none none s.store = .ok s.recovery ∧
      (∀ a tok snap, s.life a = .loaded tok snap → tok = s.entry.owner →
        adder.recoverFrom adder.id snap none s.store = .ok s.recovery) ∧
      ∀ a tok r, s.life a = .recovered tok r → tok = s.entry.owner → r = s.recovery := by
  obtain ⟨s, hs, hfacts⟩ := map_eq_some_iff.mp (show
    (Machine.run (guarded step Sound) ({} : Lives adder Bool) compacted).map (fun s =>
      decide ((s.life true).result = some (⟨2⟩, adder.fold [added 5, added 7], 2))) = some true by decide +kernel)
  exact ⟨s, hs, of_decide_eq_true hfacts, recover_returns_fold (reach_of_run hs)⟩

end

end Lives

end Quark
