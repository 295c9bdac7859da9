import Quark.FileStoreSlot

/-! Crash recovery. Over runs of writes, reopens and crashes inside a write, what a reopened store
serves is what the reference store holds after the acknowledged writes. -/
namespace Quark.FileStore.Crash

open List InMemoryStore FileStore

/-- `crash id op k`: the process dies inside a write after `k` bytes of its frame are on disk, and
the store is opened again. -/
inductive Event
  | call (id : ActorId) (op : StoreOp)
  | reopen
  | crash (id : ActorId) (op : StoreOp) (k : Nat)

def Event.Bounded : Event → Prop
  | .call _ op => op.Bounded
  | .reopen => True
  | .crash _ op _ => op.Bounded

def step (st : FileStore) : Event → FileStore
  | .call id op => (st.call {} id op).2
  | .reopen => st.reopen
  | .crash id op k => (st.call { append := .failed k } id op).2.reopen

def run (st : FileStore) (events : List Event) : FileStore := events.foldl step st

/-- `Acknowledges st events kept`: `kept` are the writes a run reported as done, in order, and of
each write a crash interrupted either nothing or the write. -/
inductive Acknowledges : FileStore → List Event → List (ActorId × StoreOp) → Prop
  | nil {st} : Acknowledges st [] []
  | acknowledged {st id op events kept} (hok : (st.call {} id op).1 = .ok ())
      (h : Acknowledges (step st (.call id op)) events kept) :
      Acknowledges st (.call id op :: events) ((id, op) :: kept)
  | rejected {st id op events kept err} (herr : (st.call {} id op).1 = .error err)
      (h : Acknowledges (step st (.call id op)) events kept) :
      Acknowledges st (.call id op :: events) kept
  | reopened {st events kept} (h : Acknowledges st.reopen events kept) :
      Acknowledges st (.reopen :: events) kept
  | lost {st id op k events kept} (h : Acknowledges (step st (.crash id op k)) events kept) :
      Acknowledges st (.crash id op k :: events) kept
  | survived {st id op k events kept} (h : Acknowledges (step st (.crash id op k)) events kept) :
      Acknowledges st (.crash id op k :: events) ((id, op) :: kept)

/-- Every actor is, loaded or on first touch, what the reference store has for it, with nothing
past its append offset. -/
def Mirrors (st : FileStore) (mem : InMemoryStore) : Prop :=
  ∀ id, (st.entry {} id).Holds (mem.entry id) []

theorem Mirrors.empty (root : List Char) : Mirrors { root := root } {} := by
  intro id
  exact load_holds healthy Recovers.empty Torn.nil

theorem Mirrors.reopen {st : FileStore} {mem : InMemoryStore} (h : Mirrors st mem) : Mirrors st.reopen mem := by
  intro id
  obtain ⟨stale, hstale | hstale, hholds⟩ := reopen_holds (h id) fun _ => Torn.nil
  · rwa [hstale] at hholds
  · rwa [hstale] at hholds

theorem Mirrors.call {st : FileStore} {mem : InMemoryStore} {op : StoreOp} (h : Mirrors st mem)
    (hb : op.Bounded) (id : ActorId) :
    ((st.call {} id op).1 = .ok () → Mirrors (st.call {} id op).2 (mem.call id op).2) ∧
      ∀ err, (st.call {} id op).1 = .error err → Mirrors (st.call {} id op).2 mem := by
  obtain ⟨hres, n, hslot⟩ := (h id).call_flushed {} rfl hb
  rw [drop_nil] at hslot
  have hother : ∀ other, other ≠ id → ((st.call {} id op).2.entry {} other).Holds (mem.entry other) [] := by
    intro other hne
    rw [FileStore.call, entry_put_ne _ _ _ hne]
    exact h other
  refine ⟨fun _ other => ?_, fun err herr other => ?_⟩
  · by_cases hne : other = id
    · rw [hne, FileStore.call, entry_put, InMemoryStore.call_entry]
      exact hslot
    · rw [InMemoryStore.call_entry_ne _ _ hne]
      exact hother other hne
  · by_cases hne : other = id
    · have happ : (mem.entry id).apply op = (.error err, ((mem.entry id).apply op).2) := by
        rw [← herr, FileStore.call, hres]
      rw [hne, FileStore.call, entry_put, ← StoreEntry.apply_error happ]
      exact hslot
    · exact hother other hne

/-- A crash inside a write leaves a file that recovers the entry before it or after it. -/
theorem crash_recovers {s : Slot} {e : StoreEntry} {op : StoreOp} (h : s.Holds e []) (hb : op.Bounded)
    (k : Nat) :
    (∃ tail, Recovers (s.call { append := .failed k } op).2.file e tail ∧ Torn tail) ∨
      Recovers (s.call { append := .failed k } op).2.file (e.apply op).2 [] := by
  rw [Slot.call_eq _ h.intact op, h.entry_eq]
  cases happ : e.apply op with
  | mk res e' =>
    cases res with
    | error err => exact Or.inl ⟨[], h.recovers, Torn.nil⟩
    | ok u =>
      obtain ⟨hfail, hholds⟩ := h.durableAppend_failed { append := .failed k } rfl (op.body e)
      revert hfail hholds
      rcases s.durableAppend { append := .failed k } (op.body e) with ⟨ok, s'⟩
      rintro rfl hholds
      have hrec := hholds.recovers
      rw [drop_nil, append_nil] at hrec
      by_cases hk : k < (frame (op.body e)).length
      · exact Or.inl ⟨_, hrec, Torn.take_frame (hb e) hk⟩
      · rw [take_of_length_le (by omega), ← append_nil (frame _)] at hrec
        exact Or.inr (hrec.snoc (hb e) (applyRecord_body hb happ) (h.ordered.apply hb happ))

theorem Mirrors.crash {st : FileStore} {mem : InMemoryStore} {op : StoreOp} (h : Mirrors st mem)
    (hb : op.Bounded) (id : ActorId) (k : Nat) :
    Mirrors (step st (.crash id op k)) mem ∨ Mirrors (step st (.crash id op k)) (mem.call id op).2 := by
  have hsound : Sound { append := AppendFate.failed k } := ⟨rfl, rfl, rfl⟩
  have hother : ∀ other, other ≠ id →
      ((step st (.crash id op k)).entry {} other).Holds (mem.entry other) [] := by
    intro other hne
    rw [step, FileStore.call, reopen_put_ne _ _ _ hne]
    exact h.reopen other
  have hself : (step st (.crash id op k)).entry {} id =
      load {} ((st.entry {} id).call { append := .failed k } op).2.file := by
    rw [step, FileStore.call, reopen_put, entry_sound hsound]
  rcases crash_recovers (h id) hb k with ⟨tail, hrec, htorn⟩ | hrec
  · refine Or.inl fun other => ?_
    by_cases hne : other = id
    · rw [hne, hself]
      exact load_holds healthy hrec htorn
    · exact hother other hne
  · refine Or.inr fun other => ?_
    by_cases hne : other = id
    · rw [hne, hself, call_entry]
      exact load_holds healthy hrec Torn.nil
    · rw [call_entry_ne _ _ hne]
      exact hother other hne

/-- Along a run the acknowledged writes, with each interrupted one kept or dropped, take the
reference store to what the file store serves. -/
theorem Mirrors.run {st : FileStore} {mem : InMemoryStore} {events : List Event} (h : Mirrors st mem)
    (hb : ∀ ev ∈ events, ev.Bounded) :
    ∃ kept, Acknowledges st events kept ∧ Mirrors (run st events) (mem.run kept) := by
  induction events generalizing st mem with
  | nil => exact ⟨[], .nil, h⟩
  | cons ev events ih =>
    have hev := hb ev mem_cons_self
    have hrest : ∀ ev ∈ events, ev.Bounded := fun ev hmem => hb ev (mem_cons_of_mem _ hmem)
    cases ev with
    | reopen =>
      obtain ⟨kept, hkept, hrun⟩ := ih h.reopen hrest
      exact ⟨kept, .reopened hkept, hrun⟩
    | call id op =>
      have hcall := h.call hev id
      cases hres : (st.call {} id op).1 with
      | ok u =>
        obtain ⟨kept, hkept, hrun⟩ := ih (hcall.1 hres) hrest
        exact ⟨(id, op) :: kept, .acknowledged hres hkept, hrun⟩
      | error err =>
        obtain ⟨kept, hkept, hrun⟩ := ih (hcall.2 err hres) hrest
        exact ⟨kept, .rejected hres hkept, hrun⟩
    | crash id op k =>
      rcases h.crash hev id k with hlost | hsurvived
      · obtain ⟨kept, hkept, hrun⟩ := ih hlost hrest
        exact ⟨kept, .lost hkept, hrun⟩
      · obtain ⟨kept, hkept, hrun⟩ := ih hsurvived hrest
        exact ⟨(id, op) :: kept, .survived hkept, hrun⟩

/-- Reopened after any run, the file store is intact and serves, for every actor, what the
reference store holds after the acknowledged writes. -/
theorem reopened_serves_acknowledged (root : List Char) (events : List Event)
    (hb : ∀ ev ∈ events, ev.Bounded) :
    ∃ kept, Acknowledges { root := root } events kept ∧
      ∀ id, (((run { root := root } events).reopen.entry {} id).entry.corrupt = false ∧
        ((run { root := root } events).reopen.entry {} id).entry.toStoreEntry =
          (InMemoryStore.run {} kept).entry id) := by
  obtain ⟨kept, hkept, hrun⟩ := (Mirrors.empty root).run hb
  exact ⟨kept, hkept, fun id => ⟨(hrun.reopen id).intact, (hrun.reopen id).entry_eq⟩⟩

/-- An append under token 1 that a crash cuts after eleven bytes of its frame. -/
theorem reopened_serves_acknowledged_torn :
    ∃ kept, Acknowledges {} [.call ⟨⟨7⟩, 1⟩ .acquireFence, .crash ⟨⟨7⟩, 1⟩ (.append ⟨1⟩ 1 [42]) 11] kept ∧
      ∀ id, (((run {} [.call ⟨⟨7⟩, 1⟩ .acquireFence,
            .crash ⟨⟨7⟩, 1⟩ (.append ⟨1⟩ 1 [42]) 11]).reopen.entry {} id).entry.corrupt = false ∧
        ((run {} [.call ⟨⟨7⟩, 1⟩ .acquireFence,
            .crash ⟨⟨7⟩, 1⟩ (.append ⟨1⟩ 1 [42]) 11]).reopen.entry {} id).entry.toStoreEntry =
          (InMemoryStore.run {} kept).entry id) :=
  reopened_serves_acknowledged [] _ (by simp [Event.Bounded, StoreOp.Bounded, StoreOp.body, putEvents])

end Quark.FileStore.Crash
